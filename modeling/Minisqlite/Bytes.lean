import Mathlib.Data.List.Induction
import Mathlib.Tactic.Ring
import Minisqlite.Lib.PrefixCode

/-!
# Bytes and identifiers

The byte strings of the store: `Vec<u8>`, the UTF-8 bytes of a `String`, the
big-endian bytes of an integer (`to_be_bytes`), and the 16-byte `Id`.
-/

namespace Minisqlite

abbrev Bytes := List UInt8

/-- `str::as_bytes`. -/
def utf8 (s : String) : Bytes := s.toUTF8.data.toList

/-- The `width` low-order bytes of `n`, most significant first. -/
def toBeBytes : Nat → Nat → Bytes
  | 0, _ => []
  | width + 1, n => toBeBytes width (n / 256) ++ [UInt8.ofNat n]

@[simp] theorem toBeBytes_length (width n : Nat) : (toBeBytes width n).length = width := by
  induction width generalizing n with
  | zero => rfl
  | succ width ih => simp [toBeBytes, ih]

/-- The number with these bytes, most significant first. -/
def fromBeBytes (bytes : Bytes) : Nat := bytes.foldl (fun n b => n * 256 + b.toNat) 0

theorem fromBeBytes_append (bytes : Bytes) (b : UInt8) :
    fromBeBytes (bytes ++ [b]) = fromBeBytes bytes * 256 + b.toNat := by
  rw [fromBeBytes, List.foldl_append]
  rfl

theorem fromBeBytes_lt (bytes : Bytes) : fromBeBytes bytes < 256 ^ bytes.length := by
  induction bytes using List.reverseRecOn with
  | nil => exact Nat.one_pos
  | append_singleton bytes b ih =>
    have hb := b.toNat_lt
    rw [fromBeBytes_append, List.length_append, List.length_singleton, pow_succ]
    omega

/-- The first byte is the most significant one. -/
theorem fromBeBytes_cons (b : UInt8) (bytes : Bytes) :
    fromBeBytes (b :: bytes) = b.toNat * 256 ^ bytes.length + fromBeBytes bytes := by
  induction bytes using List.reverseRecOn with
  | nil => simp [fromBeBytes]
  | append_singleton bytes last ih =>
    rw [← List.cons_append, fromBeBytes_append, fromBeBytes_append, ih, List.length_append,
      List.length_singleton, pow_succ]
    ring

theorem fromBeBytes_toBeBytes (width n : Nat) :
    fromBeBytes (toBeBytes width n) = n % 256 ^ width := by
  induction width generalizing n with
  | zero => rw [pow_zero, Nat.mod_one]; rfl
  | succ width ih =>
    rw [toBeBytes, fromBeBytes_append, ih, pow_succ', Nat.mod_mul, UInt8.toNat_ofNat']
    omega

theorem toBeBytes_fromBeBytes (bytes : Bytes) :
    toBeBytes bytes.length (fromBeBytes bytes) = bytes := by
  induction bytes using List.reverseRecOn with
  | nil => rfl
  | append_singleton bytes b ih =>
    have hb := b.toNat_lt
    have hdiv : (fromBeBytes bytes * 256 + b.toNat) / 256 = fromBeBytes bytes := by omega
    rw [fromBeBytes_append, List.length_append, List.length_singleton, toBeBytes, hdiv, ih,
      UInt8.ofNat_add]
    simp

/-- A number that fits is determined by its bytes. -/
theorem toBeBytes_inj {width n m : Nat} (hn : n < 256 ^ width) (hm : m < 256 ^ width)
    (h : toBeBytes width n = toBeBytes width m) : n = m := by
  induction width generalizing n m with
  | zero =>
    rw [pow_zero] at hn hm
    omega
  | succ width ih =>
    simp only [toBeBytes] at h
    obtain ⟨hhi, hlo⟩ := List.append_inj' h rfl
    have hlow : n % 256 = m % 256 := by
      have := congrArg UInt8.toNat (List.singleton_inj.mp hlo)
      simpa using this
    have hhigh : n / 256 = m / 256 := by
      refine ih ?_ ?_ hhi
      · rw [Nat.div_lt_iff_lt_mul (by decide), ← pow_succ]; exact hn
      · rw [Nat.div_lt_iff_lt_mul (by decide), ← pow_succ]; exact hm
    omega

theorem utf8_inj {s t : String} (h : utf8 s = utf8 t) : s = t := by
  have : s.toUTF8 = t.toUTF8 := by
    cases hs : s.toUTF8
    cases ht : t.toUTF8
    simp only [utf8, hs, ht] at h
    rw [Array.toList_inj.mp h]
  exact String.toByteArray_inj.mp this

/-! ## Identifiers -/

/-- `Id([u8; 16])`. -/
structure Id where
  bytes : Bytes
  length_bytes : bytes.length = 16
deriving DecidableEq

namespace Id

theorem bytes_inj {a b : Id} (h : a.bytes = b.bytes) : a = b := by
  cases a; cases b; cases h; rfl

/-- `Id::ZERO`, reserved as a sentinel. -/
def zero : Id := ⟨List.replicate 16 0, rfl⟩

/-- `Id::from(u128)`: big-endian, so that numeric order is byte order. -/
def ofU128 (value : BitVec 128) : Id := ⟨toBeBytes 16 value.toNat, toBeBytes_length _ _⟩

/-- `HEX[d]`. -/
def hexDigit (d : UInt8) : Char :=
  if d < 10 then Char.ofNat (48 + d.toNat) else Char.ofNat (87 + d.toNat)

/-- `Id::to_hex`: 32 lower-case hexadecimal characters. -/
def toHex (id : Id) : String :=
  String.ofList (id.bytes.flatMap fun (b : UInt8) => [hexDigit (b >>> 4), hexDigit (b &&& 0xf)])

instance : ToString Id := ⟨toHex⟩

/-- `hex_value`. -/
def hexValue (b : UInt8) : Option UInt8 :=
  if 48 ≤ b ∧ b ≤ 57 then some (b - 48)
  else if 97 ≤ b ∧ b ≤ 102 then some (b - 97 + 10)
  else if 65 ≤ b ∧ b ≤ 70 then some (b - 65 + 10)
  else none

/-- `as_chunks::<2>().0`: the whole pairs. -/
def asChunks : Bytes → List (UInt8 × UInt8)
  | first :: second :: rest => (first, second) :: asChunks rest
  | _ => []

/-- `InvalidId`. -/
structure InvalidId
deriving DecidableEq

/-- The byte of a chunk. -/
def ofChunk (chunk : UInt8 × UInt8) : Except InvalidId UInt8 := do
  let high ← (hexValue chunk.1).elim (.error .mk) .ok
  let low ← (hexValue chunk.2).elim (.error .mk) .ok
  pure ((high <<< 4) ||| low)

/-- `Id::from_hex`. The length is that of the bytes. -/
def fromHex (s : String) : Except InvalidId Id := do
  if (utf8 s).length ≠ 32 then .error .mk
  let bytes ← (asChunks (utf8 s)).mapM ofChunk
  if h : bytes.length = 16 then .ok ⟨bytes, h⟩ else .error .mk

/-- `u128::from(id)`: `from_be_bytes`. -/
def toU128 (id : Id) : BitVec 128 := BitVec.ofNat 128 (fromBeBytes id.bytes)

/-- The derived `Ord`: that of the array, byte by byte. -/
def cmp (a b : Id) : Ordering := List.compareLex compare a.bytes b.bytes

end Id

end Minisqlite
