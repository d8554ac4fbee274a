import Minisqlite.Cli
import Minisqlite.Lib.Hexadecimal

/-!
# The hexadecimal codecs

Both parsers go through the UTF-8 bytes of a string in pairs, and test the length in
bytes. A character that is not ASCII has no byte below 128, so neither of them can
take a part of one for a digit.

1. `decode_utf8`: reading the bytes is reading the characters.
2. `fromHex_iff`, `parseHex_iff`: what the two loops accept.
3. `cmp_eq_compare`: the order of identifiers is that of their numbers.
4. `hex_codecs_exact`: all of it.
-/

namespace Minisqlite

open Runs Hexadecimal Cli

/-- `char::is_ascii_hexdigit`. -/
def HexDigit (c : Char) : Prop :=
  '0' ≤ c ∧ c ≤ '9' ∨ 'a' ≤ c ∧ c ≤ 'f' ∨ 'A' ≤ c ∧ c ≤ 'F'

instance (c : Char) : Decidable (HexDigit c) := inferInstanceAs (Decidable (_ ∨ _))

namespace HexLemmas

/-! ## 1. Characters and their bytes -/

/-- The value of a character as a digit. -/
def digitValue (c : Char) : Option UInt8 :=
  if c.toNat < 128 then Id.hexValue (UInt8.ofNat c.toNat) else none

theorem utf8_eq (s : String) : utf8 s = s.toList.flatMap String.utf8EncodeChar := by
  unfold utf8
  rw [String.toUTF8, ← String.utf8Encode_toList, List.utf8Encode]
  simp

/-- An ASCII character is its own byte. -/
theorem encode_ascii {c : Char} (h : c.toNat < 128) :
    String.utf8EncodeChar c = [UInt8.ofNat c.toNat] :=
  if_pos (Nat.le_of_lt_succ h)

/-- The bytes of any other character are all from 128 on. -/
theorem encode_wide {c : Char} (h : ¬ c.toNat < 128) :
    ∃ b rest, String.utf8EncodeChar c = b :: rest ∧ 128 ≤ b.toNat := by
  have hc : ¬ c.val.toNat ≤ 0x7f := fun hle => h (Nat.lt_succ_of_le hle)
  unfold String.utf8EncodeChar
  simp only [if_neg hc]
  split
  · refine ⟨_, _, rfl, ?_⟩
    rw [UInt8.toNat_ofNat']
    omega
  · split
    · refine ⟨_, _, rfl, ?_⟩
      rw [UInt8.toNat_ofNat']
      omega
    · refine ⟨_, _, rfl, ?_⟩
      rw [UInt8.toNat_ofNat']
      omega

theorem hexValue_wide {b : UInt8} (h : 128 ≤ b.toNat) : Id.hexValue b = none := by
  have hout : ∀ low high : UInt8, high.toNat < 128 → ¬ (low ≤ b ∧ b ≤ high) :=
    fun low high hhigh hb => absurd (UInt8.le_iff_toNat_le.mp hb.2) (by omega)
  rw [Id.hexValue, if_neg (hout 48 57 (by decide)), if_neg (hout 97 102 (by decide)),
    if_neg (hout 65 70 (by decide))]

/-- The ASCII characters, as digits and as bytes. -/
theorem ascii_table : ∀ n < 128,
    (HexDigit (Char.ofNat n) ↔ (Id.hexValue (UInt8.ofNat n)).isSome) ∧
      (Id.hexValue (UInt8.ofNat n)).all fun d =>
        decide (d < 16 ∧ Id.hexDigit d = (Char.ofNat n).toLower) := by
  decide +kernel

theorem ascii_of_hexDigit {c : Char} (h : HexDigit c) : c.toNat < 128 := by
  have hlast : ∀ d : Char, d ≤ 'f' → d.toNat < 128 := fun d hd =>
    Nat.lt_of_le_of_lt (UInt32.le_iff_toNat_le.mp (Char.le_def.mp hd)) (by decide)
  rcases h with h | h | h
  · exact hlast c (Char.le_trans h.2 (by decide))
  · exact hlast c h.2
  · exact hlast c (Char.le_trans h.2 (by decide))

theorem hexDigit_iff {c : Char} : HexDigit c ↔ (digitValue c).isSome := by
  unfold digitValue
  split
  · next hascii =>
    have hc := (ascii_table c.toNat hascii).1
    rwa [Char.ofNat_toNat] at hc
  · next hwide =>
    exact iff_of_false (fun hdigit => hwide (ascii_of_hexDigit hdigit)) (by simp)

/-- A digit is a half of a byte, which is written as the letter in lower case. -/
theorem digitValue_spelled {c : Char} {d : UInt8} (h : digitValue c = some d) :
    d < 16 ∧ Id.hexDigit d = c.toLower := by
  unfold digitValue at h
  split at h
  · next hascii =>
    have hc := (ascii_table c.toNat hascii).2
    rw [h, Char.ofNat_toNat] at hc
    exact of_decide_eq_true hc
  · cases h

theorem digitValue_hexDigit (d : UInt8) (h : d < 16) : digitValue (Id.hexDigit d) = some d := by
  have hall : ∀ n < 16, digitValue (Id.hexDigit (UInt8.ofNat n)) = some (UInt8.ofNat n) := by
    decide
  have hd := hall d.toNat (UInt8.lt_iff_toNat_lt.mp h)
  rwa [UInt8.ofNat_toNat] at hd

/-- The bytes of a string of digits are its characters. -/
theorem utf8_digits {cs : List Char} (h : ∀ c ∈ cs, HexDigit c) :
    cs.flatMap String.utf8EncodeChar = cs.map fun c => UInt8.ofNat c.toNat := by
  induction cs with
  | nil => rfl
  | cons c cs ih =>
    obtain ⟨hc, hcs⟩ := List.forall_mem_cons.mp h
    rw [List.flatMap_cons, encode_ascii (ascii_of_hexDigit hc), ih hcs]
    rfl

/-- A character that is no digit leaves a byte that is none. -/
theorem digits_of_bytes {cs : List Char}
    (h : ∀ b ∈ cs.flatMap String.utf8EncodeChar, (Id.hexValue b).isSome) :
    ∀ c ∈ cs, HexDigit c := by
  intro c hc
  have hbytes : ∀ b ∈ String.utf8EncodeChar c, (Id.hexValue b).isSome := fun b hb =>
    h b (List.mem_flatMap.mpr ⟨c, hc, hb⟩)
  by_cases hascii : c.toNat < 128
  · rw [encode_ascii hascii] at hbytes
    refine hexDigit_iff.mpr ?_
    rw [digitValue, if_pos hascii]
    exact hbytes _ (List.mem_singleton.mpr rfl)
  · obtain ⟨b, rest, hencode, hb⟩ := encode_wide hascii
    have hnone := hbytes b (hencode ▸ List.mem_cons_self)
    rw [hexValue_wide hb] at hnone
    cases hnone

/-- Reading the bytes of a string is reading its characters. -/
theorem decode_utf8 (s : String) :
    decode Id.hexValue (utf8 s) = decode digitValue s.toList := by
  rw [utf8_eq]
  by_cases h : ∀ c ∈ s.toList, HexDigit c
  · rw [utf8_digits h, decode_map]
    refine decode_congr fun c hc => ?_
    rw [digitValue, if_pos (ascii_of_hexDigit (h c hc))]
  · have hbytes : decode Id.hexValue (s.toList.flatMap String.utf8EncodeChar) = none :=
      Option.not_isSome_iff_eq_none.mp fun hsome => h (digits_of_bytes (decode_isSome.mp hsome).2)
    have hchars : decode digitValue s.toList = none :=
      Option.not_isSome_iff_eq_none.mp fun hsome =>
        h fun c hc => hexDigit_iff.mpr ((decode_isSome.mp hsome).2 c hc)
    rw [hbytes, hchars]

theorem length_utf8_digits {s : String} (h : ∀ c ∈ s.toList, HexDigit c) :
    (utf8 s).length = s.length := by
  rw [utf8_eq, utf8_digits h, List.length_map, String.length_toList]

/-! ## 2. What the loops compute -/

theorem hex_eq (bytes : Bytes) : hex bytes = String.ofList (encode Id.hexDigit bytes) := rfl

theorem mapM_ofChunk {bytes : Bytes} (h : Even bytes.length) :
    (Id.asChunks bytes).mapM Id.ofChunk = (decode Id.hexValue bytes).elim (.error .mk) .ok := by
  induction bytes using pairs_induction with
  | nil => rfl
  | single => exact absurd h (by simp)
  | pair high low rest ih =>
    rw [List.length_cons, List.length_cons, Nat.even_add_one, Nat.even_add_one, not_not] at h
    rw [Id.asChunks, List.mapM_cons, ih h, decode_pair, Id.ofChunk]
    cases Id.hexValue high with
    | none => rfl
    | some d =>
      cases Id.hexValue low with
      | none => rfl
      | some e => cases decode Id.hexValue rest <;> rfl

/-- `from_hex` reads the bytes; 32 digits make 16 of them, as the array has. -/
theorem fromHex_ok {s : String} {x : Id} : Id.fromHex s = .ok x ↔
    (utf8 s).length = 32 ∧ decode Id.hexValue (utf8 s) = some x.bytes := by
  unfold Id.fromHex
  by_cases hlength : (utf8 s).length = 32
  · rw [if_neg (not_not.mpr hlength), mapM_ofChunk (hlength ▸ by decide)]
    simp only [hlength, true_and]
    cases hdecode : decode Id.hexValue (utf8 s) with
    | none => exact iff_of_false (by rintro ⟨⟩) (by rintro ⟨⟩)
    | some bytes =>
      have hbytes : bytes.length = 16 := by
        have := length_decode hdecode
        omega
      show (if h : bytes.length = 16 then Except.ok (Id.mk bytes h) else .error Id.InvalidId.mk) =
        .ok x ↔ _
      rw [dif_pos hbytes, Except.ok.injEq, Option.some.injEq]
      exact ⟨fun h => h ▸ rfl, fun h => Id.bytes_inj h⟩
  · rw [if_pos hlength]
    exact iff_of_false (by rintro ⟨⟩) fun h => hlength h.1

/-- A byte that is a digit in `main.rs` is one in `id.rs`, with the same value. -/
theorem toDigit_byteChar (b : UInt8) :
    (toDigit (byteChar b)).map UInt32.toUInt8 = Id.hexValue b := by
  have hall : ∀ n < 256, (toDigit (byteChar (UInt8.ofNat n))).map UInt32.toUInt8 =
      Id.hexValue (UInt8.ofNat n) := by
    decide +kernel
  have hb := hall b.toNat b.toNat_lt
  rwa [UInt8.ofNat_toNat] at hb

theorem parseHex_eq (raw what : String) : parseHex raw what =
    (decode Id.hexValue (utf8 raw)).elim (.error (.usage s!"invalid {what} hex: {raw}")) .ok := by
  unfold parseHex
  generalize CliError.usage s!"invalid {what} hex: {raw}" = e
  induction utf8 raw using pairs_induction with
  | nil => rfl
  | single last =>
    have hnone : ofPair [last] = none := by
      rw [ofPair]
      cases (([last] : Bytes).head?.bind fun b => toDigit (byteChar b)) <;> rfl
    rw [chunks, List.mapM_cons, hnone]
    rfl
  | pair high low rest ih =>
    rw [chunks, List.mapM_cons, ih, decode_pair, ← toDigit_byteChar high, ← toDigit_byteChar low,
      ofPair]
    simp only [List.head?_cons, List.getElem?_cons_succ, List.getElem?_cons_zero, Option.bind_some]
    cases toDigit (byteChar high) with
    | none => rfl
    | some d =>
      cases toDigit (byteChar low) with
      | none => rfl
      | some e => cases decode Id.hexValue rest <;> rfl

/-- The digits of a string, read and written again. -/
theorem rewritten {s : String} {bytes : Bytes} (h : decode Id.hexValue (utf8 s) = some bytes) :
    hex bytes = String.ofList (s.toList.map Char.toLower) := by
  rw [decode_utf8] at h
  rw [hex_eq, encode_decode (fun _ _ => digitValue_spelled) h]

theorem readable_iff {s : String} : (decode Id.hexValue (utf8 s)).isSome ↔
    Even s.length ∧ ∀ c ∈ s.toList, HexDigit c := by
  rw [decode_utf8, decode_isSome, String.length_toList]
  simp only [hexDigit_iff]

/-- What was written is read back. -/
theorem read_written (bytes : Bytes) : decode Id.hexValue (utf8 (hex bytes)) = some bytes := by
  rw [decode_utf8, hex_eq, String.toList_ofList]
  exact decode_encode digitValue_hexDigit bytes

theorem fromHex_iff {s : String} : (∃ x, Id.fromHex s = .ok x) ↔
    s.length = 32 ∧ ∀ c ∈ s.toList, HexDigit c := by
  simp only [fromHex_ok]
  constructor
  · rintro ⟨x, hlength, hdecode⟩
    obtain ⟨-, hdigits⟩ := readable_iff.mp (Option.isSome_of_eq_some hdecode)
    rw [length_utf8_digits hdigits] at hlength
    exact ⟨hlength, hdigits⟩
  · rintro ⟨hlength, hdigits⟩
    obtain ⟨bytes, hdecode⟩ := Option.isSome_iff_exists.mp
      (readable_iff.mpr ⟨hlength ▸ by decide, hdigits⟩)
    have hutf8 := (length_utf8_digits hdigits).trans hlength
    have hbytes : bytes.length = 16 := by
      have := length_decode hdecode
      omega
    exact ⟨⟨bytes, hbytes⟩, hutf8, hdecode⟩

theorem parseHex_iff {s what : String} : (∃ bytes, parseHex s what = .ok bytes) ↔
    Even s.length ∧ ∀ c ∈ s.toList, HexDigit c := by
  rw [← readable_iff, parseHex_eq]
  cases decode Id.hexValue (utf8 s) with
  | none => simp
  | some bytes => simp

example : parseHex "abc" "key" = .error (.usage "invalid key hex: abc") := by decide

/-! ## 3. Numbers -/

theorem compare_byte (a b : UInt8) : compare a b = compare a.toNat b.toNat := by
  show compareOfLessAndEq a b = compareOfLessAndEq a.toNat b.toNat
  unfold compareOfLessAndEq
  simp only [UInt8.lt_iff_toNat_lt, ← UInt8.toNat_inj]

/-- The number whose first byte is smaller is smaller. -/
theorem lt_of_head {a b n m w : ℕ} (h : a < b) (hn : n < w) : a * w + n < b * w + m := by
  calc a * w + n < (a + 1) * w := by rw [Nat.add_mul, Nat.one_mul]; omega
    _ ≤ b * w := Nat.mul_le_mul_right w h
    _ ≤ b * w + m := Nat.le_add_right _ _

/-- The first byte at which two identifiers differ decides between their numbers. -/
theorem compareLex_eq {as bs : Bytes} (h : as.length = bs.length) :
    List.compareLex compare as bs = compare (fromBeBytes as) (fromBeBytes bs) := by
  induction as generalizing bs with
  | nil =>
    rw [List.length_eq_zero_iff.mp h.symm]
    rfl
  | cons a as ih =>
    obtain ⟨b, bs, rfl⟩ := List.exists_cons_of_length_eq_add_one h.symm
    have hlength : as.length = bs.length := Nat.succ.inj h
    have has := fromBeBytes_lt as
    have hbs := fromBeBytes_lt bs
    rw [List.compareLex_cons_cons, compare_byte, ih hlength, fromBeBytes_cons, fromBeBytes_cons,
      hlength]
    rw [hlength] at has
    rcases lt_trichotomy a.toNat b.toNat with hlt | heq | hgt
    · rw [Nat.compare_eq_lt.mpr hlt, Nat.compare_eq_lt.mpr (lt_of_head hlt has)]
      rfl
    · rw [heq, Nat.compare_eq_eq.mpr rfl]
      simp only [Ordering.then, Nat.compare_eq_ite_lt, Nat.add_lt_add_iff_left]
    · rw [Nat.compare_eq_gt.mpr hgt, Nat.compare_eq_gt.mpr (lt_of_head hgt hbs)]
      rfl

theorem toNat_toU128 (x : Id) : x.toU128.toNat = fromBeBytes x.bytes := by
  have hlt := fromBeBytes_lt x.bytes
  rw [x.length_bytes] at hlt
  exact (BitVec.toNat_ofNat _ _).trans (Nat.mod_eq_of_lt hlt)

theorem cmp_eq_compare (a b : Id) : a.cmp b = compare a.toU128.toNat b.toU128.toNat := by
  rw [toNat_toU128, toNat_toU128]
  exact compareLex_eq (a.length_bytes.trans b.length_bytes.symm)

theorem ofU128_toU128 (x : Id) : Id.ofU128 x.toU128 = x := by
  refine Id.bytes_inj ?_
  show toBeBytes 16 x.toU128.toNat = x.bytes
  rw [toNat_toU128, ← x.length_bytes, toBeBytes_fromBeBytes]

theorem toU128_ofU128 (value : BitVec 128) : (Id.ofU128 value).toU128 = value := by
  refine BitVec.eq_of_toNat_eq ?_
  rw [toNat_toU128]
  show fromBeBytes (toBeBytes 16 value.toNat) = value.toNat
  rw [fromBeBytes_toBeBytes]
  exact Nat.mod_eq_of_lt value.isLt

end HexLemmas

/-! ## 4. Exactness -/

open HexLemmas in
/-- The codecs are inverses, and each accepts its grammar and nothing else. -/
theorem hex_codecs_exact :
    (∀ x : Id, Id.fromHex x.toHex = .ok x) ∧
    (∀ s, (∃ x, Id.fromHex s = .ok x) ↔ s.length = 32 ∧ ∀ c ∈ s.toList, HexDigit c) ∧
    (∀ s x, Id.fromHex s = .ok x → x.toHex = String.ofList (s.toList.map Char.toLower)) ∧
    (∀ a b : Id, a.cmp b = compare a.toU128.toNat b.toU128.toNat) ∧
    (∀ x : Id, Id.ofU128 x.toU128 = x) ∧
    (∀ value : BitVec 128, (Id.ofU128 value).toU128 = value) ∧
    (∀ bytes what, parseHex (Cli.hex bytes) what = .ok bytes) ∧
    (∀ s what, (∃ bytes, parseHex s what = .ok bytes) ↔
      Even s.length ∧ ∀ c ∈ s.toList, HexDigit c) := by
  refine ⟨fun x => ?_, fun s => fromHex_iff, fun s x h => rewritten (fromHex_ok.mp h).2,
    cmp_eq_compare, ofU128_toU128, toU128_ofU128, fun bytes what => ?_, fun s what => parseHex_iff⟩
  · have hread := read_written x.bytes
    have hlength : (utf8 x.toHex).length = 2 * x.bytes.length := length_decode hread
    rw [x.length_bytes] at hlength
    exact fromHex_ok.mpr ⟨hlength, hread⟩
  · rw [parseHex_eq, Cli.hex, read_written]
    rfl

end Minisqlite
