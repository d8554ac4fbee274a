import Mathlib.Data.List.Basic
import Mathlib.Data.List.Range

/-!
# Streams cut into blocks

A fold that takes `size` elements at a time. What is left over, fewer than `size`
elements, waits for more; so the stream can arrive in pieces of any length.

* `consume`: the whole blocks of a stream, and the rest.
* `consume_append`: a stream in two parts.
* `feed`, `foldl_feed`: a stream in any number of parts.
-/

namespace Blocks

universe u v w

variable {σ : Type u} {α : Type v}

/-- The state after the whole blocks of the stream, first to last, and the rest. -/
def consume (step : σ → List α → σ) (size : Nat) (state : σ) (stream : List α) : σ × List α :=
  ((List.range (stream.length / size)).foldl
      (fun state i => step state ((stream.drop (size * i)).take size)) state,
    stream.drop (size * (stream.length / size)))

/-- A state and the elements that wait. -/
abbrev Pending (σ : Type u) (α : Type v) := σ × List α

/-- More of the stream arrives. -/
def feed (step : σ → List α → σ) (size : Nat) (p : Pending σ α) (piece : List α) : Pending σ α :=
  consume step size p.1 (p.2 ++ piece)

variable {step : σ → List α → σ} {size : Nat} {state : σ} {stream block : List α}

/-- Too little for a block. -/
theorem consume_short (h : stream.length < size) :
    consume step size state stream = (state, stream) := by
  rw [consume, Nat.div_eq_of_lt h, Nat.mul_zero]
  rfl

/-- The first block. -/
theorem consume_block (hsize : 0 < size) (h : block.length = size) :
    consume step size state (block ++ stream) = consume step size (step state block) stream := by
  have hdiv : (block ++ stream).length / size = stream.length / size + 1 := by
    rw [List.length_append, h, Nat.add_div_left _ hsize]
  have hdrop : ∀ i, (block ++ stream).drop (size * (i + 1)) = stream.drop (size * i) := by
    intro i
    rw [Nat.mul_succ, Nat.add_comm, ← List.drop_drop, ← h, List.drop_left]
  rw [consume, consume, hdiv, hdrop, List.range_succ_eq_map, List.foldl_cons, List.foldl_map]
  simp only [Nat.succ_eq_add_one, hdrop]
  rw [Nat.mul_zero, List.drop_zero, ← h, List.take_left]

/-- The length of the rest. -/
theorem consume_rest : (consume step size state stream).2.length = stream.length % size := by
  rw [consume, List.length_drop, ← Nat.mod_eq_sub_mul_div]

/-- A stream in two parts: the second begins with what the first has left. -/
theorem consume_append (hsize : 0 < size) (state : σ) (first second : List α) :
    consume step size state (first ++ second) = consume step size (consume step size state first).1
      ((consume step size state first).2 ++ second) := by
  induction hlength : first.length using Nat.strong_induction_on generalizing first state with
  | _ n ih =>
    by_cases h : first.length < size
    · rw [consume_short h]
    · have hblock : (first.take size).length = size :=
        List.length_take_of_le (Nat.not_lt.mp h)
      have hrest : (first.drop size).length < n := by
        rw [List.length_drop]
        omega
      rw [← List.take_append_drop size first, List.append_assoc, consume_block hsize hblock,
        consume_block hsize hblock]
      exact ih _ hrest _ _ rfl

/-- A stream in any number of parts. -/
theorem foldl_feed (hsize : 0 < size) (state : σ) (pieces : List (List α)) :
    pieces.foldl (feed step size) (state, []) = consume step size state pieces.flatten := by
  induction pieces using List.reverseRecOn with
  | nil => exact (consume_short hsize).symm
  | append_singleton pieces piece ih =>
    rw [List.foldl_append, ih, List.flatten_append, List.flatten_singleton, consume_append hsize]
    rfl

/-- A map that commutes with the step on blocks commutes with the whole stream. -/
theorem consume_hom {τ : Type w} {step' : τ → List α → τ} (f : σ → τ)
    (hstep : ∀ state block, block.length = size → f (step state block) = step' (f state) block) :
    consume step' size (f state) stream =
      (f (consume step size state stream).1, (consume step size state stream).2) := by
  refine Prod.ext ?_ rfl
  refine List.foldl_rel (r := fun s t => s = f t) rfl fun i hi s t hst => ?_
  have hlast : size * (i + 1) ≤ stream.length :=
    (Nat.mul_le_mul_left _ (List.mem_range.mp hi)).trans (Nat.mul_div_le _ _)
  rw [Nat.mul_succ] at hlast
  rw [hst, hstep]
  rw [List.length_take, List.length_drop]
  omega

end Blocks
