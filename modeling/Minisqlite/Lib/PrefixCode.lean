import Mathlib.Data.List.Basic

/-!
# Codes that can be read back in front of anything

`ReadableOn P enc`: when two codes of values with `P`, each followed by some
rest, are the same list of symbols, then the values are the same and so are
the rests. A format written as a sequence of readable fields is readable field
by field, so a record needs no rule of its own; the rules below are for the
shapes that need one.

* `fixed`: all codes have one length and the encoding is injective.
* `repeated`: equally many items, one after the other.
* `counted`: the number of the items, then the items.
* `optional`: a flag, then the value if there is one.
-/

namespace PrefixCode

universe u v w

variable {α : Type u} {β : Type v} {γ : Type w}

/-- Codes of values with `P` can be read back in front of anything. -/
def ReadableOn (P : α → Prop) (enc : α → List γ) : Prop :=
  ∀ a b s t, P a → P b → enc a ++ s = enc b ++ t → a = b ∧ s = t

/-- Every code can be read back in front of anything. -/
def Readable (enc : α → List γ) : Prop := ReadableOn (fun _ => True) enc

theorem Readable.apply {enc : α → List γ} (h : Readable enc) {a b : α} {s t : List γ}
    (he : enc a ++ s = enc b ++ t) : a = b ∧ s = t :=
  h a b s t trivial trivial he

theorem fixed {enc : α → List γ} (len : ∀ a b, (enc a).length = (enc b).length)
    (inj : ∀ a b, enc a = enc b → a = b) : Readable enc := by
  intro a b s t _ _ h
  obtain ⟨hab, hst⟩ := List.append_inj h (len a b)
  exact ⟨inj a b hab, hst⟩

/-- Reading through an injective change of representation. -/
theorem ReadableOn.comap {P : α → Prop} {enc : α → List γ} (h : ReadableOn P enc) {f : β → α}
    (inj : ∀ a b, f a = f b → a = b) : ReadableOn (fun b => P (f b)) fun b => enc (f b) := by
  intro a b s t ha hb he
  obtain ⟨hab, hst⟩ := h _ _ s t ha hb he
  exact ⟨inj a b hab, hst⟩

/-- Two lists of equally many items. -/
theorem repeated {P : α → Prop} {enc : α → List γ} (h : ReadableOn P enc) :
    ∀ {xs ys : List α} {s t : List γ}, xs.length = ys.length → (∀ x ∈ xs, P x) → (∀ y ∈ ys, P y) →
      xs.flatMap enc ++ s = ys.flatMap enc ++ t → xs = ys ∧ s = t
  | [], [], _, _, _, _, _, he => ⟨rfl, by simpa using he⟩
  | [], _ :: _, _, _, hl, _, _, _ => by simp at hl
  | _ :: _, [], _, _, hl, _, _, _ => by simp at hl
  | x :: xs, y :: ys, s, t, hl, hx, hy, he => by
    simp only [List.flatMap_cons, List.append_assoc] at he
    obtain ⟨hxy, hrest⟩ :=
      h x y _ _ (hx x List.mem_cons_self) (hy y List.mem_cons_self) he
    obtain ⟨hxs, hst⟩ := repeated h (by simpa using hl)
      (fun z hz => hx z (List.mem_cons_of_mem _ hz))
      (fun z hz => hy z (List.mem_cons_of_mem _ hz)) hrest
    exact ⟨by rw [hxy, hxs], hst⟩

/-- A list written as its number of items and then the items, for a count code
that is readable on the numbers with `C`. -/
theorem counted {C : Nat → Prop} {count : Nat → List γ} (hc : ReadableOn C count)
    {P : α → Prop} {enc : α → List γ} (h : ReadableOn P enc) :
    ReadableOn (fun xs : List α => C xs.length ∧ ∀ x ∈ xs, P x) fun xs =>
      count xs.length ++ xs.flatMap enc := by
  rintro xs ys s t ⟨hcx, hx⟩ ⟨hcy, hy⟩ he
  simp only [List.append_assoc] at he
  obtain ⟨hl, hrest⟩ := hc _ _ _ _ hcx hcy he
  exact repeated h hl hx hy hrest

/-- A value written as a flag that says whether it is there, and then itself. -/
def optional (absent present : γ) (enc : α → List γ) : Option α → List γ
  | none => [absent]
  | some a => present :: enc a

theorem optional_readable {absent present : γ} (hne : absent ≠ present) {P : α → Prop}
    {enc : α → List γ} (h : ReadableOn P enc) :
    ReadableOn (fun o : Option α => ∀ a ∈ o, P a) (optional absent present enc) := by
  intro a b s t ha hb he
  cases a with
  | none =>
    cases b with
    | none => exact ⟨rfl, by simpa [optional] using he⟩
    | some b => simp [optional, hne] at he
  | some a =>
    cases b with
    | none => simp [optional, hne.symm] at he
    | some b =>
      simp only [optional, List.cons_append, List.cons.injEq, true_and] at he
      obtain ⟨hab, hst⟩ := h a b s t (ha a rfl) (hb b rfl) he
      exact ⟨by rw [hab], hst⟩

end PrefixCode
