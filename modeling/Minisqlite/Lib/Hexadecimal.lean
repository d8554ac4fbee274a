import Mathlib.Algebra.Group.Nat.Even
import Mathlib.Data.List.Basic

/-!
# Hexadecimal codecs

A byte is written as two digits, the high half first. The digits are of any type
and there may be several for one value, as for the letters of either case.

* `decode_encode`: what was written is read back.
* `decode_isSome`: what can be read.
* `encode_decode`: writing again what was read gives each digit in the spelling of the
  writer.
-/

namespace Hexadecimal

universe u

variable {α : Type u}

/-- `bytes`, each as two digits. -/
def encode (digit : UInt8 → α) (bytes : List UInt8) : List α :=
  bytes.flatMap fun (b : UInt8) => [digit (b >>> 4), digit (b &&& 0xf)]

/-- The bytes behind the digits, two by two; a digit without a second one is an error. -/
def decode (value : α → Option UInt8) : List α → Option (List UInt8)
  | [] => some []
  | [_] => none
  | high :: low :: rest => do
    let high ← value high
    let low ← value low
    let bytes ← decode value rest
    some (((high <<< 4) ||| low) :: bytes)

/-- Induction on digits, two by two. -/
theorem pairs_induction {motive : List α → Prop} (nil : motive []) (single : ∀ x, motive [x])
    (pair : ∀ high low rest, motive rest → motive (high :: low :: rest)) (xs : List α) :
    motive xs := by
  have hboth : ∀ xs, motive xs ∧ ∀ x, motive (x :: xs) := by
    intro xs
    induction xs with
    | nil => exact ⟨nil, single⟩
    | cons y xs ih => exact ⟨ih.2 y, fun x => pair x y xs ih.1⟩
  exact (hboth xs).1

/-- The halves of a byte, and the byte of two halves. -/
theorem high_lt (b : UInt8) : b >>> 4 < 16 := by
  rw [UInt8.lt_iff_toNat_lt, UInt8.toNat_shiftRight]
  have := b.toNat_lt
  show b.toNat >>> 4 < 16
  rw [Nat.shiftRight_eq_div_pow]
  omega

theorem low_lt (b : UInt8) : b &&& 0xf < 16 := by
  rw [UInt8.lt_iff_toNat_lt, UInt8.toNat_and]
  show b.toNat &&& (2 ^ 4 - 1) < 16
  rw [Nat.and_two_pow_sub_one_eq_mod]
  omega

theorem join_halves (b : UInt8) : ((b >>> 4) <<< 4) ||| (b &&& 0xf) = b := by
  have hall : ∀ n < 256, let b := UInt8.ofNat n; ((b >>> 4) <<< 4) ||| (b &&& 0xf) = b := by
    decide +kernel
  have hb := hall b.toNat b.toNat_lt
  rwa [UInt8.ofNat_toNat] at hb

theorem halves_join {high low : UInt8} (hhigh : high < 16) (hlow : low < 16) :
    ((high <<< 4) ||| low) >>> 4 = high ∧ ((high <<< 4) ||| low) &&& 0xf = low := by
  have hall : ∀ m < 16, ∀ n < 16, let high := UInt8.ofNat m; let low := UInt8.ofNat n
      ((high <<< 4) ||| low) >>> 4 = high ∧ ((high <<< 4) ||| low) &&& 0xf = low := by
    decide +kernel
  have h := hall high.toNat (UInt8.lt_iff_toNat_lt.mp hhigh) low.toNat
    (UInt8.lt_iff_toNat_lt.mp hlow)
  rwa [UInt8.ofNat_toNat, UInt8.ofNat_toNat] at h

section Codec

variable {digit : UInt8 → α} {value : α → Option UInt8}

theorem decode_nil : decode value [] = some [] := rfl

theorem decode_single (x : α) : decode value [x] = none := rfl

theorem decode_pair (high low : α) (rest : List α) : decode value (high :: low :: rest) =
    (value high).bind fun h => (value low).bind fun l =>
      (decode value rest).bind fun bytes => some (((h <<< 4) ||| l) :: bytes) :=
  rfl

theorem decode_encode (h : ∀ d < 16, value (digit d) = some d) (bytes : List UInt8) :
    decode value (encode digit bytes) = some bytes := by
  induction bytes with
  | nil => rfl
  | cons b bytes ih =>
    have hcons : encode digit (b :: bytes) =
        digit (b >>> 4) :: digit (b &&& 0xf) :: encode digit bytes := rfl
    rw [hcons, decode_pair, h _ (high_lt b), h _ (low_lt b), ih]
    simp only [Option.bind_some]
    rw [join_halves]

theorem length_decode {xs : List α} {bytes : List UInt8} (h : decode value xs = some bytes) :
    xs.length = 2 * bytes.length := by
  induction xs using pairs_induction generalizing bytes with
  | nil =>
    cases h
    rfl
  | single => cases h
  | pair high low rest ih =>
    simp only [decode_pair, Option.bind_eq_some_iff] at h
    obtain ⟨_, -, _, -, bytes', hrest, ⟨⟩⟩ := h
    rw [List.length_cons, List.length_cons, ih hrest, List.length_cons, Nat.mul_add]

theorem decode_map {β : Type u} (f : β → α) (xs : List β) :
    decode value (xs.map f) = decode (fun x => value (f x)) xs := by
  induction xs using pairs_induction with
  | nil => rfl
  | single => rfl
  | pair high low rest ih => rw [List.map_cons, List.map_cons, decode_pair, decode_pair, ih]

theorem decode_congr {value' : α → Option UInt8} {xs : List α} (h : ∀ x ∈ xs, value x = value' x) :
    decode value xs = decode value' xs := by
  induction xs using pairs_induction with
  | nil => rfl
  | single => rfl
  | pair high low rest ih =>
    simp only [List.forall_mem_cons] at h
    rw [decode_pair, decode_pair, h.1, h.2.1, ih h.2.2]

/-- An even number of digits can be read, and nothing else. -/
theorem decode_isSome {xs : List α} : (decode value xs).isSome ↔
    Even xs.length ∧ ∀ x ∈ xs, (value x).isSome := by
  induction xs using pairs_induction with
  | nil => simp [decode_nil]
  | single => simp [decode_single]
  | pair high low rest ih =>
    simp only [List.length_cons, List.forall_mem_cons]
    rw [Nat.even_add_one, Nat.even_add_one, not_not, decode_pair]
    cases value high with
    | none => simp
    | some h =>
      cases value low with
      | none => simp
      | some l =>
        cases hrest : decode value rest with
        | none =>
          rw [hrest] at ih
          simpa using ih
        | some bytes =>
          rw [hrest] at ih
          simpa using ih

/-- Each digit comes back in the writer's spelling. -/
theorem encode_decode {spell : α → α}
    (h : ∀ x d, value x = some d → d < 16 ∧ digit d = spell x) {xs : List α} {bytes : List UInt8}
    (hdecode : decode value xs = some bytes) : encode digit bytes = xs.map spell := by
  induction xs using pairs_induction generalizing bytes with
  | nil =>
    cases hdecode
    rfl
  | single => cases hdecode
  | pair high low rest ih =>
    simp only [decode_pair, Option.bind_eq_some_iff] at hdecode
    obtain ⟨d, hd, e, he, bytes', hrest, ⟨⟩⟩ := hdecode
    obtain ⟨hsmall, hhigh⟩ := h _ _ hd
    obtain ⟨hsmall', hlow⟩ := h _ _ he
    obtain ⟨hd, he⟩ := halves_join hsmall hsmall'
    have hcons : encode digit (((d <<< 4) ||| e) :: bytes') =
        digit (((d <<< 4) ||| e) >>> 4) :: digit (((d <<< 4) ||| e) &&& 0xf) ::
          encode digit bytes' := rfl
    rw [hcons, hd, he, hhigh, hlow, ih hrest, List.map_cons, List.map_cons]

end Codec

end Hexadecimal
