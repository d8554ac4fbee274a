import Mathlib.Data.Nat.NthRoot.Defs
import Mathlib.Data.Nat.Prime.Basic
import Mathlib.Data.Nat.Sqrt
import Minisqlite.Lib.Blocks

/-!
# SHA-256, as FIPS 180-4 has it

The functions and constants of sections 4.1.2 and 4.2.2, the padding of section 5.1.1
and the computation of section 6.2.2, over words of 32 bits and messages of whole bytes.
The constants are not listed but computed from the primes.

* `mem_primes`: the table of primes.
* `zeros_spec`, `pad_length`: the padded message is a whole number of blocks.
* `sha256`: the hash of a message.
-/

namespace Fips180

open Blocks

abbrev Word := BitVec 32

/-! ## Functions and constants -/

def ch (x y z : Word) : Word := (x &&& y) ^^^ (~~~x &&& z)

def maj (x y z : Word) : Word := (x &&& y) ^^^ (x &&& z) ^^^ (y &&& z)

/-- `Σ₀`. -/
def bigSigma0 (x : Word) : Word := x.rotateRight 2 ^^^ x.rotateRight 13 ^^^ x.rotateRight 22

/-- `Σ₁`. -/
def bigSigma1 (x : Word) : Word := x.rotateRight 6 ^^^ x.rotateRight 11 ^^^ x.rotateRight 25

/-- `σ₀`. -/
def smallSigma0 (x : Word) : Word := x.rotateRight 7 ^^^ x.rotateRight 18 ^^^ (x >>> 3)

/-- `σ₁`. -/
def smallSigma1 (x : Word) : Word := x.rotateRight 17 ^^^ x.rotateRight 19 ^^^ (x >>> 10)

/-- The first sixty-four primes. -/
def primes : List Nat :=
  [2, 3, 5, 7, 11, 13, 17, 19, 23, 29, 31, 37, 41, 43, 47, 53, 59, 61, 67, 71, 73, 79, 83, 89,
   97, 101, 103, 107, 109, 113, 127, 131, 137, 139, 149, 151, 157, 163, 167, 173, 179, 181, 191,
   193, 197, 199, 211, 223, 227, 229, 233, 239, 241, 251, 257, 263, 269, 271, 277, 281, 283, 293,
   307, 311]

/-- The table lists the primes below 312. -/
theorem mem_primes {n : Nat} : n ∈ primes ↔ n < 312 ∧ n.Prime := by
  have htable : primes = (List.range 312).filter fun n =>
      decide (2 ≤ n) && (List.range' 2 (n - 2)).all fun d => decide (¬ d ∣ n) := by
    decide +kernel
  rw [htable, List.mem_filter, List.mem_range, Nat.prime_def_lt', Bool.and_eq_true,
    decide_eq_true_eq, List.all_eq_true]
  refine and_congr_right fun _ => and_congr_right fun hn => forall_congr' fun d => ?_
  rw [List.mem_range'_1, decide_eq_true_eq, Nat.add_sub_cancel' hn, and_imp]

/-- `K`: the first 32 bits of the fractional parts of the cube roots of the primes. -/
def roundConstants : List Word :=
  primes.map fun p => BitVec.ofNat 32 (Nat.nthRoot 3 (p * 2 ^ 96))

/-- The eight words of a hash value, and the working variables. -/
structure Words where
  a : Word
  b : Word
  c : Word
  d : Word
  e : Word
  f : Word
  g : Word
  h : Word
deriving DecidableEq

def Words.toList (H : Words) : List Word := [H.a, H.b, H.c, H.d, H.e, H.f, H.g, H.h]

/-- The first 32 bits of the fractional part of the square root. -/
def sqrtBits (p : Nat) : Word := BitVec.ofNat 32 (Nat.sqrt (p * 2 ^ 64))

/-- `H⁽⁰⁾`, from the first eight primes. -/
def initialHash : Words :=
  { a := sqrtBits 2, b := sqrtBits 3, c := sqrtBits 5, d := sqrtBits 7,
    e := sqrtBits 11, f := sqrtBits 13, g := sqrtBits 17, h := sqrtBits 19 }

/-! ## Padding -/

/-- The bytes of a number, most significant first. -/
def bigEndian (width n : Nat) : List UInt8 :=
  (List.range width).map fun i => UInt8.ofNat (n / 256 ^ (width - 1 - i))

/-- How many zero bytes follow the byte `0x80`. -/
def zeros (length : Nat) : Nat := (119 - length % 64) % 64

/-- The bit 1, then zeros, then the length in bits. -/
def pad (message : List UInt8) : List UInt8 :=
  message ++ 0x80 :: List.replicate (zeros message.length) 0 ++ bigEndian 8 (8 * message.length)

/-- The padding is the shortest that leaves room for the length. -/
theorem zeros_spec (length : Nat) : (length + 1 + zeros length) % 64 = 56 ∧
    ∀ k, (length + 1 + k) % 64 = 56 → zeros length ≤ k := by
  unfold zeros
  exact ⟨by omega, fun k hk => by omega⟩

/-- The padded message is cut into blocks of 512 bits without a rest. -/
theorem pad_length (message : List UInt8) : (pad message).length % 64 = 0 := by
  have := (zeros_spec message.length).1
  simp only [pad, bigEndian, List.length_append, List.length_cons, List.length_replicate,
    List.length_map, List.length_range]
  omega

/-! ## The hash -/

/-- The `t`-th word of a block: four bytes, the first the most significant. -/
def wordAt (block : List UInt8) (t : Nat) : Word :=
  (block.getD (4 * t) 0).toBitVec ++ (block.getD (4 * t + 1) 0).toBitVec ++
    (block.getD (4 * t + 2) 0).toBitVec ++ (block.getD (4 * t + 3) 0).toBitVec

/-- `W`, the message schedule. -/
def schedule (block : List UInt8) (t : Nat) : Word :=
  if 16 ≤ t then
    smallSigma1 (schedule block (t - 2)) + schedule block (t - 7) +
      smallSigma0 (schedule block (t - 15)) + schedule block (t - 16)
  else wordAt block t

/-- One round, with its constant and its word of the schedule. -/
def step (K W : Word) (v : Words) : Words :=
  let t1 := v.h + bigSigma1 v.e + ch v.e v.f v.g + K + W
  let t2 := bigSigma0 v.a + maj v.a v.b v.c
  { a := t1 + t2, b := v.a, c := v.b, d := v.c, e := v.d + t1, f := v.e, g := v.f, h := v.g }

/-- The sixty-four rounds over a block. -/
def rounds (H : Words) (block : List UInt8) : Words :=
  (List.range 64).foldl (fun v t => step (roundConstants.getD t 0) (schedule block t) v) H

/-- The next hash value. -/
def compress (H : Words) (block : List UInt8) : Words :=
  let v := rounds H block
  { a := v.a + H.a, b := v.b + H.b, c := v.c + H.c, d := v.d + H.d,
    e := v.e + H.e, f := v.f + H.f, g := v.g + H.g, h := v.h + H.h }

/-- The hash value after the blocks of the padded message, as bytes. -/
def sha256 (message : List UInt8) : List UInt8 :=
  (consume compress 64 initialHash (pad message)).1.toList.flatMap fun word =>
    bigEndian 4 word.toNat

end Fips180
