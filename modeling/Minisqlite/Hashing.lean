import Mathlib.Data.List.GetD
import Minisqlite.Digest
import Minisqlite.Lib.Fips180

/-!
# The hasher computes SHA-256

The standard pads the whole message and then compresses its blocks. The hasher gets
the message in pieces and keeps what does not fill a block in a buffer.

1. `compress_words`: `compress` is the compression of the standard.
2. `update_feed`: an `update` feeds a stream of blocks; its state and its pending bytes
   depend only on what has arrived, not on how it was cut.
3. `tryUpdate_eq`: no slice of the buffer is out of its bounds.
4. `tryFinish_eq`: `finish` feeds the padding of the standard and its loop ends.
5. `incremental_is_sha256`: the result, for any pieces of less than `2 ^ 61` bytes.
-/

namespace Minisqlite

open Blocks

namespace HashLemmas

open Sha256

/-! ## 1. Compression -/

/-- The words of the standard. -/
def words (s : HashState) : Fips180.Words :=
  { a := s.a.toBitVec, b := s.b.toBitVec, c := s.c.toBitVec, d := s.d.toBitVec,
    e := s.e.toBitVec, f := s.f.toBitVec, g := s.g.toBitVec, h := s.h.toBitVec }

theorem rotateRight_bits (x n : UInt32) (hpos : 0 < n.toNat) (hn : n.toNat < 32) :
    (rotateRight x n).toBitVec = x.toBitVec.rotateRight n.toNat := by
  have hright : (n.toBitVec % 32).toNat = n.toNat := by
    rw [BitVec.toNat_umod]
    exact Nat.mod_eq_of_lt hn
  have hleft : ((32 - n).toBitVec % 32).toNat = 32 - n.toNat := by
    have h32 : n ≤ 32 := UInt32.le_iff_toNat_le.mpr hn.le
    rw [BitVec.toNat_umod, UInt32.toNat_toBitVec, UInt32.toNat_sub_of_le _ _ h32]
    exact Nat.mod_eq_of_lt (Nat.sub_lt (by decide) hpos)
  rw [BitVec.rotateRight_def, Nat.mod_eq_of_lt hn, rotateRight, UInt32.toBitVec_or,
    UInt32.toBitVec_shiftRight, UInt32.toBitVec_shiftLeft, BitVec.ushiftRight_eq', hright,
    BitVec.shiftLeft_eq', hleft]
theorem round_words (s : HashState) (k w : UInt32) :
    words (Sha256.round s (k, w)) = Fips180.step k.toBitVec w.toBitVec (words s) := by
  simp [words, Sha256.round, Fips180.step, Fips180.bigSigma1, Fips180.bigSigma0, Fips180.ch,
    Fips180.maj, rotateRight_bits]

/-- `u32::from_be_bytes` puts the first byte highest. -/
theorem joined_bits (p q r s : UInt8) :
    (p.toUInt32 <<< 24 ||| q.toUInt32 <<< 16 ||| r.toUInt32 <<< 8 ||| s.toUInt32).toBitVec =
      p.toBitVec ++ q.toBitVec ++ r.toBitVec ++ s.toBitVec := by
  have hor : ∀ a b : Nat, (a ||| b) * 256 = a * 256 ||| b * 256 := fun a b => by
    simpa [Nat.shiftLeft_eq] using Nat.shiftLeft_or_distrib (i := 8) (a := a) (b := b)
  have hp := p.toNat_lt
  have hq := q.toNat_lt
  have hr := r.toNat_lt
  refine BitVec.eq_of_toNat_eq ?_
  simp only [BitVec.toNat_append, UInt32.toBitVec_or, BitVec.toNat_or, UInt32.toBitVec_shiftLeft,
    UInt8.toBitVec_toUInt32]
  simp [BitVec.toNat_shiftLeft, Nat.shiftLeft_eq, hor, Nat.mul_assoc]
  rw [Nat.mod_eq_of_lt (by omega), Nat.mod_eq_of_lt (by omega), Nat.mod_eq_of_lt (by omega)]

theorem four_bytes {block : Bytes} (h : 4 ≤ block.length) :
    ∃ p q r s rest, block = p :: q :: r :: s :: rest := by
  rcases block with _ | ⟨p, _ | ⟨q, _ | ⟨r, _ | ⟨s, rest⟩⟩⟩⟩
  iterate 4 simp at h
  exact ⟨p, q, r, s, rest, rfl⟩

theorem blockWords_length {block : Bytes} {n : Nat} (h : block.length = 4 * n) :
    (blockWords block).length = n := by
  induction n generalizing block with
  | zero => rw [List.eq_nil_of_length_eq_zero h]; rfl
  | succ n ih =>
    have hlength : 4 ≤ block.length := by omega
    obtain ⟨p, q, r, s, rest, rfl⟩ := four_bytes hlength
    simp only [List.length_cons] at h
    rw [blockWords, List.length_cons, ih (by omega)]

/-- The words of a block are those of the standard. -/
theorem blockWords_bits {block : Bytes} {t : Nat} (ht : 4 * t + 4 ≤ block.length) :
    ((blockWords block).getD t 0).toBitVec = Fips180.wordAt block t := by
  induction t generalizing block with
  | zero =>
    obtain ⟨p, q, r, s, rest, rfl⟩ := four_bytes ht
    exact joined_bits p q r s
  | succ t ih =>
    have hlength : 4 ≤ block.length := by omega
    obtain ⟨p, q, r, s, rest, rfl⟩ := four_bytes hlength
    simp only [List.length_cons] at ht
    rw [blockWords, List.getD_cons_succ, ih (by omega)]
    simp [Fips180.wordAt, Nat.mul_succ]

theorem nextWord_bits (w : List UInt32) (i : Nat) :
    (nextWord w i).toBitVec = Fips180.smallSigma1 (w.getD (i - 2) 0).toBitVec +
      (w.getD (i - 7) 0).toBitVec + Fips180.smallSigma0 (w.getD (i - 15) 0).toBitVec +
      (w.getD (i - 16) 0).toBitVec := by
  simp only [nextWord, UInt32.toBitVec_add, UInt32.toBitVec_xor, UInt32.toBitVec_shiftRight]
  rw [rotateRight_bits _ 7 (by decide) (by decide), rotateRight_bits _ 18 (by decide) (by decide),
    rotateRight_bits _ 17 (by decide) (by decide), rotateRight_bits _ 19 (by decide) (by decide)]
  rw [Fips180.smallSigma0, Fips180.smallSigma1]
  ac_rfl

/-- The schedule as far as it is computed. -/
theorem schedule_bits {block : Bytes} (hblock : block.length = 64) (n : Nat) :
    ((List.range' 16 n).foldl (fun w i => w ++ [nextWord w i]) (blockWords block)).length =
        16 + n ∧
      ∀ t < 16 + n, (((List.range' 16 n).foldl (fun w i => w ++ [nextWord w i])
        (blockWords block)).getD t 0).toBitVec = Fips180.schedule block t := by
  induction n with
  | zero =>
    refine ⟨blockWords_length hblock, fun t ht => ?_⟩
    rw [Fips180.schedule, if_neg (Nat.not_le.mpr ht)]
    exact blockWords_bits (by omega)
  | succ n ih =>
    rw [List.range'_concat, Nat.one_mul, List.foldl_append]
    generalize (List.range' 16 n).foldl (fun w i => w ++ [nextWord w i]) (blockWords block) = w
      at ih ⊢
    obtain ⟨hlength, hwords⟩ := ih
    refine ⟨by simp [hlength, Nat.add_assoc], fun t ht => ?_⟩
    rw [List.foldl_cons, List.foldl_nil]
    rcases Nat.lt_or_ge t (16 + n) with hlt | hge
    · rw [List.getD_append _ _ _ _ (hlength ▸ hlt), hwords t hlt]
    · obtain rfl : t = 16 + n := by omega
      rw [List.getD_append_right _ _ _ _ hlength.le, hlength, Nat.sub_self, Fips180.schedule,
        if_pos (by omega)]
      rw [List.getD_cons_zero, nextWord_bits, hwords _ (by omega), hwords _ (by omega),
        hwords _ (by omega), hwords _ (by omega)]
theorem roundConstants_bits : roundConstants.map UInt32.toBitVec = Fips180.roundConstants := by
  decide +kernel

theorem initialState_words : words initialState = Fips180.initialHash := by
  decide +kernel

theorem roundConstant_bits (t : Nat) :
    (roundConstants.getD t 0).toBitVec = Fips180.roundConstants.getD t 0 := by
  rw [← roundConstants_bits]
  exact (List.getD_map roundConstants 0 UInt32.toBitVec).symm

theorem messageSchedule_length {block : Bytes} (hblock : block.length = 64) :
    (messageSchedule block).length = 64 :=
  (schedule_bits hblock 48).1

/-- The rounds with these numbers. -/
theorem rounds_words {block : Bytes} (hblock : block.length = 64) {ts : List Nat}
    (hts : ∀ t ∈ ts, t < 64) (s : HashState) :
    words ((ts.map fun t => (roundConstants.getD t 0, (messageSchedule block).getD t 0)).foldl
        Sha256.round s) =
      ts.foldl (fun v t => Fips180.step (Fips180.roundConstants.getD t 0)
        (Fips180.schedule block t) v) (words s) := by
  induction ts generalizing s with
  | nil => rfl
  | cons t ts ih =>
    obtain ⟨ht, hts⟩ := List.forall_mem_cons.mp hts
    have hword : ((messageSchedule block).getD t 0).toBitVec = Fips180.schedule block t :=
      (schedule_bits hblock 48).2 t ht
    rw [List.map_cons, List.foldl_cons, List.foldl_cons, ih hts, round_words, roundConstant_bits,
      hword]

/-- `compress` is the compression of the standard. -/
theorem compress_words (s : HashState) {block : Bytes} (hblock : block.length = 64) :
    words (compress s block) = Fips180.compress (words s) block := by
  have hlength := messageSchedule_length hblock
  have hzip : roundConstants.zip (messageSchedule block) = (List.range 64).map fun t =>
      (roundConstants.getD t 0, (messageSchedule block).getD t 0) := by
    refine List.ext_getElem (by simp [hlength, roundConstants]) fun t h₁ h₂ => ?_
    rw [List.length_zip, lt_min_iff] at h₁
    rw [List.getElem_zip, List.getElem_map, List.getElem_range, List.getD_eq_getElem _ _ h₁.1,
      List.getD_eq_getElem _ _ h₁.2]
  have hrange : ∀ t ∈ List.range 64, t < 64 := fun t => List.mem_range.mp
  have hrounds := rounds_words hblock hrange s
  rw [← hzip, ← Fips180.rounds] at hrounds
  rw [Fips180.compress, ← hrounds, compress]
  simp only [words, UInt32.toBitVec_add, BitVec.add_comm]

/-! ## 2. Updates -/

/-- The state, and the bytes in the buffer that are pending. -/
def pending (self : Sha256) : Pending HashState UInt8 :=
  (self.state, self.buffer.take self.bufferLen)

/-- The buffer has its 64 bytes, and does not wait with a whole block. -/
structure Ready (s : Sha256) : Prop where
  size : s.buffer.length = 64
  room : s.bufferLen < 64

theorem Ready.pending_length {self : Sha256} (h : Ready self) :
    (pending self).2.length = self.bufferLen := by
  rw [pending, List.length_take, h.size, min_eq_left h.room.le]

theorem copyInto_length {buffer src : Bytes} {offset : Nat}
    (h : offset + src.length ≤ buffer.length) :
    (copyInto buffer offset src).length = buffer.length := by
  simp only [copyInto, List.length_append, List.length_take, List.length_drop]
  omega

/-- Up to the end of what was copied. -/
theorem copyInto_take {buffer src : Bytes} {offset : Nat}
    (h : offset + src.length ≤ buffer.length) :
    (copyInto buffer offset src).take (offset + src.length) = buffer.take offset ++ src := by
  have hlength : (buffer.take offset ++ src).length = offset + src.length := by
    rw [List.length_append, List.length_take]
    omega
  rw [copyInto, ← hlength, List.take_left]

/-- `while data.len() >= 64` takes the whole blocks. -/
theorem compressBlocks_eq {fuel : Nat} {data : Bytes} (hfuel : data.length ≤ fuel)
    (state : HashState) : compressBlocks fuel state data = consume compress 64 state data := by
  induction fuel generalizing state data with
  | zero => exact (consume_short (by omega)).symm
  | succ fuel ih =>
    rw [compressBlocks]
    split
    · next hblock =>
      rw [ih (by rw [List.length_drop]; omega),
        ← consume_block (by decide) (List.length_take_of_le hblock), List.take_append_drop]
    · next hshort => exact (consume_short (Nat.not_le.mp hshort)).symm

/-- After the first part of `update` the buffer is empty, or all of the data is in the
buffer, which is still not full. -/
theorem fillBuffer_spec {self : Sha256} (h : Ready self) (data : Bytes) :
    Ready (fillBuffer self data).1 ∧
      ((fillBuffer self data).1.bufferLen = 0 ∨ (fillBuffer self data).2 = []) ∧
      feed compress 64 (pending self) data =
        feed compress 64 (pending (fillBuffer self data).1) (fillBuffer self data).2 := by
  rw [fillBuffer]
  split
  · next hpos =>
    generalize htaken : min (64 - self.bufferLen) data.length = taken
    have hle : taken ≤ data.length := htaken ▸ min_le_right _ _
    have hfits : self.bufferLen + (data.take taken).length ≤ self.buffer.length := by
      rw [List.length_take_of_le hle, h.size]
      have := h.room
      omega
    have hcopied := copyInto_take hfits
    have hsize := copyInto_length hfits
    rw [List.length_take_of_le hle] at hcopied
    rw [h.size] at hsize
    dsimp only
    split
    · next hfull =>
      -- The buffer is a whole block: what was pending, and the data that was taken.
      rw [hfull, List.take_of_length_le hsize.le] at hcopied
      refine ⟨⟨hsize, Nat.zero_lt_succ _⟩, .inl rfl, ?_⟩
      rw [feed, feed, pending, pending, ← List.take_append_drop taken data, ← List.append_assoc,
        List.take_append_drop, ← hcopied, consume_block (by decide) hsize]
      rfl
    · next hfull =>
      -- The data is used up.
      have hroom := h.room
      obtain rfl : taken = data.length := by
        omega
      replace hroom : self.bufferLen + data.length < 64 := by
        omega
      refine ⟨⟨hsize, hroom⟩, .inr List.drop_length, ?_⟩
      rw [feed, feed, pending, pending, hcopied, List.drop_length, List.append_nil,
        List.take_length]
  · next hempty => exact ⟨h, .inl (Nat.eq_zero_of_not_pos hempty), rfl⟩

theorem feed_nil {s : Sha256} (h : Ready s) : feed compress 64 (pending s) [] = pending s := by
  rw [feed, List.append_nil]
  exact consume_short (h.pending_length.trans_lt h.room)

/-- An `update` feeds the stream. -/
theorem update_feed {self : Sha256} (h : Ready self) (data : Bytes) :
    Ready (self.update data) ∧
      pending (self.update data) = feed compress 64 (pending self) data := by
  rw [update]
  set counted := { self with totalLen := self.totalLen + UInt64.ofNat data.length }
  have hcounted : Ready counted := ⟨h.size, h.room⟩
  obtain ⟨hready, hrest, hfeed⟩ := fillBuffer_spec hcounted data
  rw [show pending self = pending counted from rfl, hfeed]
  generalize fillBuffer counted data = out at hready hrest ⊢
  obtain ⟨filled, rest⟩ := out
  dsimp only at hready hrest ⊢
  rw [compressBlocks_eq le_rfl]
  rcases hrest with hempty | rfl
  · have hfed : feed compress 64 (pending filled) rest = consume compress 64 filled.state rest := by
      rw [feed, pending, hempty]
      rfl
    have hshort : (consume compress 64 filled.state rest).2.length < 64 := by
      rw [consume_rest]
      exact Nat.mod_lt _ (by decide)
    rw [hfed]
    generalize consume compress 64 filled.state rest = fed at hshort ⊢
    obtain ⟨state, left⟩ := fed
    dsimp only at hshort ⊢
    split
    · next hnone =>
      refine ⟨⟨hready.size, hready.room⟩, ?_⟩
      rw [pending, hempty, List.isEmpty_iff.mp hnone]
      rfl
    · have hfits : 0 + left.length ≤ filled.buffer.length := by
        rw [hready.size, Nat.zero_add]
        exact hshort.le
      refine ⟨⟨(copyInto_length hfits).trans hready.size, hshort⟩, ?_⟩
      have hcopied := copyInto_take hfits
      rw [Nat.zero_add, List.take_zero, List.nil_append] at hcopied
      rw [pending, hcopied]
  · rw [feed_nil hready, consume_short (by decide)]
    exact ⟨⟨hready.size, hready.room⟩, rfl⟩

theorem update_totalLen (self : Sha256) (data : Bytes) :
    (self.update data).totalLen = self.totalLen + UInt64.ofNat data.length := by
  have hfill : ∀ s : Sha256, (fillBuffer s data).1.totalLen = s.totalLen := fun s => by
    rw [fillBuffer]
    split
    · dsimp only
      split <;> rfl
    · rfl
  rw [update]
  dsimp only
  split <;> exact hfill _

/-- The pieces that have arrived. -/
theorem updates_feed {self : Sha256} (h : Ready self) (pieces : List Bytes) :
    Ready (pieces.foldl update self) ∧
      pending (pieces.foldl update self) = pieces.foldl (feed compress 64) (pending self) ∧
      (pieces.foldl update self).totalLen =
        self.totalLen + UInt64.ofNat pieces.flatten.length := by
  induction pieces generalizing self with
  | nil => exact ⟨h, rfl, (UInt64.add_zero _).symm⟩
  | cons piece pieces ih =>
    obtain ⟨hready, hfeed⟩ := update_feed h piece
    obtain ⟨hready, hpending, htotal⟩ := ih hready
    refine ⟨hready, by rw [List.foldl_cons, List.foldl_cons, hpending, hfeed], ?_⟩
    rw [List.foldl_cons, htotal, update_totalLen, List.flatten_cons, List.length_append,
      UInt64.ofNat_add, UInt64.add_assoc]

theorem new_ready : Ready Sha256.new :=
  ⟨rfl, by decide⟩

/-- From the beginning on. -/
theorem pieces_pending (pieces : List Bytes) :
    pending (pieces.foldl update Sha256.new) = consume compress 64 initialState pieces.flatten := by
  rw [(updates_feed new_ready pieces).2.1]
  exact foldl_feed (by decide) initialState pieces

/-! ## 3. The slices -/

theorem slice_take {data : Bytes} {n : Nat} (h : n ≤ data.length) :
    slice data 0 n = some (data.take n) := by
  rw [slice, if_pos ⟨Nat.zero_le _, h⟩]
  rfl

theorem slice_drop {data : Bytes} {n : Nat} (h : n ≤ data.length) :
    slice data n data.length = some (data.drop n) := by
  rw [slice, if_pos ⟨h, le_rfl⟩, List.take_length]

theorem copyFromSlice_eq {buffer src : Bytes} {lo : Nat}
    (h : lo + src.length ≤ buffer.length) :
    copyFromSlice buffer lo (lo + src.length) src = some (copyInto buffer lo src) :=
  if_pos ⟨Nat.le_add_right _ _, h, (Nat.add_sub_cancel_left _ _).symm⟩

theorem tryFillBuffer_eq {self : Sha256} (h : Ready self) (data : Bytes) :
    tryFillBuffer self data = some (fillBuffer self data) := by
  rw [tryFillBuffer, fillBuffer]
  split
  · generalize htaken : min (64 - self.bufferLen) data.length = taken
    have hle : taken ≤ data.length := htaken ▸ min_le_right _ _
    have hlength : (data.take taken).length = taken := List.length_take_of_le hle
    have hfits : self.bufferLen + (data.take taken).length ≤ self.buffer.length := by
      rw [hlength, h.size]
      have := h.room
      omega
    have hcopied := copyFromSlice_eq hfits
    rw [hlength] at hcopied
    simp only [guard, if_pos h.room.le, slice_take hle, hcopied, slice_drop hle,
      Option.bind_eq_bind, Option.bind_some, Option.pure_def]
    split <;> rfl
  · rfl

theorem tryCompressBlocks_eq {fuel : Nat} {data : Bytes} (hfuel : data.length ≤ fuel)
    (state : HashState) :
    tryCompressBlocks fuel state data = some (compressBlocks fuel state data) := by
  induction fuel generalizing state data with
  | zero =>
    rw [tryCompressBlocks, if_neg (by omega)]
    rfl
  | succ fuel ih =>
    rw [tryCompressBlocks, compressBlocks]
    split
    · next hblock =>
      have hlength : (data.take 64).length = 64 := List.length_take_of_le hblock
      have hfixed : copyFromSlice (List.replicate 64 0) 0 64 (data.take 64) =
          some (data.take 64) := by
        rw [copyFromSlice, if_pos ⟨by decide, by decide, hlength⟩]
        simp
      simp only [slice_take hblock, slice_drop hblock, hfixed, Option.bind_eq_bind,
        Option.bind_some]
      exact ih (by rw [List.length_drop]; omega) _
    · rfl

/-- No slice of an `update` is out of its bounds. -/
theorem tryUpdate_eq {self : Sha256} (h : Ready self) (data : Bytes) :
    tryUpdate self data = some (self.update data) := by
  rw [tryUpdate, update]
  set counted := { self with totalLen := self.totalLen + UInt64.ofNat data.length }
  have hcounted : Ready counted := ⟨h.size, h.room⟩
  obtain ⟨hready, -, -⟩ := fillBuffer_spec hcounted data
  simp only [tryFillBuffer_eq hcounted, tryCompressBlocks_eq le_rfl, Option.bind_eq_bind,
    Option.bind_some, Option.pure_def]
  rw [compressBlocks_eq le_rfl]
  have hshort : 0 + (consume compress 64 (fillBuffer counted data).1.state
      (fillBuffer counted data).2).2.length ≤ (fillBuffer counted data).1.buffer.length := by
    rw [hready.size, consume_rest, Nat.zero_add]
    exact (Nat.mod_lt _ (by decide)).le
  have hcopied := copyFromSlice_eq hshort
  rw [Nat.zero_add] at hcopied
  split
  · rfl
  · rw [hcopied]
    rfl

theorem tryUpdates_eq {self : Sha256} (h : Ready self) (pieces : List Bytes) :
    pieces.foldlM tryUpdate self = some (pieces.foldl update self) := by
  induction pieces generalizing self with
  | nil => rfl
  | cons piece pieces ih =>
    rw [List.foldlM_cons, tryUpdate_eq h]
    exact ih (update_feed h piece).1

/-! ## 4. The padding -/

/-- How full the buffer is after an `update`. -/
theorem update_bufferLen {self : Sha256} (h : Ready self) (data : Bytes) :
    (self.update data).bufferLen = (self.bufferLen + data.length) % 64 := by
  obtain ⟨hready, hfeed⟩ := update_feed h data
  rw [← hready.pending_length, hfeed, feed, consume_rest, List.length_append, h.pending_length]

/-- `while self.buffer_len != 56` feeds as many zeros as there are up to 56. -/
theorem padZeros_eq {k fuel : Nat} (hk : k < 64) (hfuel : k ≤ fuel) {self : Sha256}
    (h : Ready self) (hlast : (self.bufferLen + k) % 64 = 56) :
    tryPadZeros fuel self = some ((List.replicate k [0]).foldl update self) ∧
      padZeros fuel self = (List.replicate k [0]).foldl update self := by
  induction k generalizing fuel self with
  | zero =>
    have hdone : self.bufferLen = 56 := by
      have := h.room
      omega
    constructor
    · rw [tryPadZeros.eq_def, if_neg (not_not.mpr hdone)]
      rfl
    · cases fuel with
      | zero => rfl
      | succ fuel =>
        rw [padZeros, if_neg (not_not.mpr hdone)]
        rfl
  | succ k ih =>
    have hmore : self.bufferLen ≠ 56 := by
      omega
    have hnext : ((self.update [0]).bufferLen + k) % 64 = 56 := by
      rw [update_bufferLen h, List.length_singleton]
      omega
    cases fuel with
    | zero => exact absurd hfuel (Nat.not_succ_le_zero k)
    | succ fuel =>
      obtain ⟨htry, hpad⟩ := ih (Nat.lt_of_succ_lt hk) (Nat.le_of_succ_le_succ hfuel)
        (update_feed h [0]).1 hnext
      constructor
      · rw [tryPadZeros, if_pos hmore, tryUpdate_eq h]
        exact htry
      · rw [padZeros, if_pos hmore]
        exact hpad

/-- `finish` feeds the byte `0x80`, the zeros and the length. -/
theorem finish_eq {k : Nat} (hk : k < 64) {self : Sha256} (h : Ready self)
    (hlast : (self.bufferLen + 1 + k) % 64 = 56) {last : Sha256}
    (hfed : last = ([0x80] :: List.replicate k [0] ++
      [toBeBytes 8 (self.totalLen * 8).toNat]).foldl update self) :
    (∀ fuel ≥ 64, tryFinish fuel self = some (outputBytes last.state)) ∧
      self.finish = outputBytes last.state := by
  have hmarked := (update_feed h [0x80]).1
  have hzeros : ((self.update [0x80]).bufferLen + k) % 64 = 56 := by
    rw [update_bufferLen h, List.length_singleton, Nat.mod_add_mod]
    exact hlast
  have hpadded := (updates_feed hmarked (List.replicate k [0])).1
  rw [List.foldl_append, List.foldl_cons, List.foldl_cons, List.foldl_nil] at hfed
  constructor
  · intro fuel hfuel
    have htry := (padZeros_eq hk (hk.le.trans hfuel) hmarked hzeros).1
    simp only [tryFinish, tryUpdate_eq h, htry, tryUpdate_eq hpadded, Option.bind_eq_bind,
      Option.bind_some, Option.pure_def]
    rw [hfed]
  · rw [finish, (padZeros_eq hk hk.le hmarked hzeros).2, hfed]

theorem toBeBytes_eq (width n : Nat) : toBeBytes width n = Fips180.bigEndian width n := by
  induction width generalizing n with
  | zero => rfl
  | succ width ih =>
    rw [toBeBytes, ih, Fips180.bigEndian, Fips180.bigEndian, List.range_succ, List.map_append]
    refine congr_arg₂ _ (List.map_congr_left fun i hi => ?_) (by simp)
    have hi := List.mem_range.mp hi
    rw [Nat.div_div_eq_div_mul, ← pow_succ', Nat.add_sub_cancel]
    congr 3
    omega

theorem outputBytes_eq (s : HashState) :
    outputBytes s = (words s).toList.flatMap fun word => Fips180.bigEndian 4 word.toNat := by
  simp only [outputBytes, toBeBytes_eq]
  rfl

/-- The hash of the pieces, and that no check fails on the way. -/
theorem pieces_hash {pieces : List Bytes} (hlength : pieces.flatten.length < 2 ^ 61) :
    (∀ fuel ≥ 64, pieces.foldlM tryUpdate Sha256.new >>= tryFinish fuel =
      some (Fips180.sha256 pieces.flatten)) ∧
      (pieces.foldl update Sha256.new).finish = Fips180.sha256 pieces.flatten := by
  obtain ⟨hready, -, htotal⟩ := updates_feed new_ready pieces
  have hpending := pieces_pending pieces
  have hbufferLen : (pieces.foldl update Sha256.new).bufferLen = pieces.flatten.length % 64 := by
    rw [← hready.pending_length, hpending, consume_rest]
  have hbits : ((pieces.foldl update Sha256.new).totalLen * 8).toNat =
      8 * pieces.flatten.length := by
    have hzero : Sha256.new.totalLen = 0 := rfl
    have hfits : pieces.flatten.length < UInt64.size := hlength.trans (by decide)
    rw [htotal, hzero, UInt64.zero_add, UInt64.toNat_mul, UInt64.toNat_ofNat_of_lt' hfits,
      show (8 : UInt64).toNat = 8 from rfl, Nat.mul_comm]
    exact Nat.mod_eq_of_lt (by omega)
  set padding := [0x80] :: List.replicate (Fips180.zeros pieces.flatten.length) [0] ++
    [toBeBytes 8 ((pieces.foldl update Sha256.new).totalLen * 8).toNat] with hpadding
  -- The pieces with the padding are the padded message.
  have hpad : (pieces ++ padding).flatten = Fips180.pad pieces.flatten := by
    rw [hpadding, hbits, toBeBytes_eq]
    simp [Fips180.pad]
  have hstate : words (padding.foldl update (pieces.foldl update Sha256.new)).state =
      (consume Fips180.compress 64 Fips180.initialHash (Fips180.pad pieces.flatten)).1 := by
    rw [← List.foldl_append, ← initialState_words, consume_hom words fun s _ => compress_words s,
      ← hpad, ← pieces_pending]
    rfl
  obtain ⟨htry, hfinish⟩ := finish_eq (k := Fips180.zeros pieces.flatten.length)
    (Nat.mod_lt _ (by decide)) hready (by
      have := (Fips180.zeros_spec pieces.flatten.length).1
      omega) rfl
  rw [outputBytes_eq, hstate] at htry hfinish
  refine ⟨fun fuel hfuel => ?_, hfinish⟩
  rw [tryUpdates_eq new_ready]
  exact htry fuel hfuel

end HashLemmas

open HashLemmas

/-- The incremental SHA-256 is SHA-256. For pieces of less than `2 ^ 61` bytes in all no
slice of the buffer is ever out of its bounds, the loops end, and the result is the hash
of the concatenation; so another cut of the same bytes gives the same result. -/
theorem incremental_is_sha256 (pieces : List Bytes) (hlength : pieces.flatten.length < 2 ^ 61) :
    (∀ fuel ≥ 64, pieces.foldlM Sha256.tryUpdate Sha256.new >>= Sha256.tryFinish fuel =
      some (Fips180.sha256 pieces.flatten)) ∧
    (pieces.foldl Sha256.update Sha256.new).finish = Fips180.sha256 pieces.flatten ∧
    (pieces.foldl Sha256.update Sha256.new).bufferLen < 64 ∧
    ∀ pieces' : List Bytes, pieces'.flatten = pieces.flatten →
      (pieces'.foldl Sha256.update Sha256.new).finish =
        (pieces.foldl Sha256.update Sha256.new).finish := by
  obtain ⟨htry, hfinish⟩ := pieces_hash hlength
  refine ⟨htry, hfinish, (updates_feed new_ready pieces).1.room, fun pieces' hsame => ?_⟩
  rw [hfinish, (pieces_hash (hsame ▸ hlength)).2, hsame]

/-- An empty piece between two others. -/
theorem incremental_is_sha256_sample :
    ([[0x61, 0x62], [], [0x63]].foldl Sha256.update Sha256.new).finish =
      Fips180.sha256 [0x61, 0x62, 0x63] :=
  (incremental_is_sha256 [[0x61, 0x62], [], [0x63]] (by decide)).2.1

/-- A known answer of the standard. -/
example : ([[0x61, 0x62], [], [0x63]].foldl Sha256.update Sha256.new).finish =
    [0xba, 0x78, 0x16, 0xbf, 0x8f, 0x01, 0xcf, 0xea, 0x41, 0x41, 0x40, 0xde, 0x5d, 0xae,
      0x22, 0x23, 0xb0, 0x03, 0x61, 0xa3, 0x96, 0x17, 0x7a, 0x9c, 0xb4, 0x10, 0xff, 0x61,
      0xf2, 0x00, 0x15, 0xad] := by
  decide +kernel

/-- The digest of a request is the hash of its bytes, written in many small pieces. -/
theorem requestDigest_eq_sha256 {batch : CommitBatch}
    (hlength : (requestBytes batch).length < 2 ^ 61) :
    requestDigest batch = Fips180.sha256 (requestBytes batch) :=
  (pieces_hash hlength).2

end Minisqlite
