import Minisqlite.Lib.Keyset
import Minisqlite.Lib.Prefixes
import Minisqlite.Projections

/-!
# Projection scans

A scan reads the entries of a projection in key order between two bounds, and
behind a cursor. A prefix scan is a range scan: the keys with a prefix are those
from the prefix itself up to `prefix_upper_bound`.

* `Db.contents`, `Db.inRange`: the entries in key order, and those in a range.
* `scan_eq`: what a scan delivers of them.
* `prefix_scans_exact`: prefix scans and the bound they use.
* `paged_scans_complete`: paging by the last key, until a page is empty.
-/

namespace Minisqlite

open Tables Runs

/-- The entries of a projection, in key order. -/
def Db.contents (db : Db) (projection : String) : List ProjectionEntry :=
  (Keyset.ordered ProjectionEntryRow.key
    (db.projectionEntries.rows.filter fun row => decide (row.projection = projection))).map
      ProjectionEntryRow.entry

/-- Those with `start <= key < end`, where a bound that is not given is none. -/
def Db.inRange (db : Db) (projection : String) (start stop : Option Bytes) : List ProjectionEntry :=
  (db.contents projection).filter fun entry =>
    start.all (fun start => decide (start ≤ entry.key)) &&
      stop.all fun stop => decide (entry.key < stop)

namespace ScanLemmas

variable {db : Db} {projection : String} {start stop after : Option Bytes} {limit : UInt64}
  {p k u v : Bytes}

/-! ## The bound of a prefix -/

/-- The alphabet of the keys. -/
def byteAlphabet : Prefixes.Alphabet UInt8 where
  top := 0xFF
  next b := b + 1
  le_top b := UInt8.le_iff_toNat_le.mpr (Nat.le_of_lt_succ b.toNat_lt)
  next_le a b ha := by
    have hlt := a.toNat_lt
    have hne : a.toNat ≠ 255 := fun he => ha (UInt8.toNat_inj.mp he)
    have hnext : (a + 1).toNat = a.toNat + 1 := by
      rw [UInt8.toNat_add]
      exact Nat.mod_eq_of_lt (by simp; omega)
    rw [UInt8.le_iff_toNat_le, UInt8.lt_iff_toNat_lt, hnext]
    omega

theorem boundLoop_append (bytes : Bytes) (b : UInt8) : boundLoop (bytes ++ [b]) =
    match boundLoop bytes with
    | some u => some (b :: u)
    | none => if b = 0xFF then none else some [b + 1] := by
  induction bytes with
  | nil => rfl
  | cons last bytes ih =>
    simp only [List.cons_append, boundLoop]
    split
    · exact ih
    · simp

/-- The loop computes the end of the interval. -/
theorem prefixUpperBound_eq (p : Bytes) : prefixUpperBound p = Prefixes.upper byteAlphabet p := by
  induction p with
  | nil => rfl
  | cons b p ih =>
    rw [prefixUpperBound, List.reverse_cons, boundLoop_append, ← prefixUpperBound, ih,
      Prefixes.upper]
    cases Prefixes.upper byteAlphabet p <;> rfl

theorem isPrefix_iff : p <+: k ↔ p ≤ k ∧ ∀ u, prefixUpperBound p = some u → k < u := by
  rw [prefixUpperBound_eq]
  exact Prefixes.isPrefix_iff

/-! ## Scans -/

/-- Two rows of one projection have different keys. -/
theorem keys_nodup (db : Db) (projection : String) :
    ((db.projectionEntries.rows.filter fun row => decide (row.projection = projection)).map
      ProjectionEntryRow.key).Nodup := by
  have hkeys := (List.filter_sublist (p := fun row : ProjectionEntryRow =>
    decide (row.projection = projection)).map fun row => (row.projection, row.key)).nodup
      (Table.nodup_keys ProjectionLemmas.entries_unique db.projectionEntries)
  rw [List.Nodup, List.pairwise_map] at hkeys ⊢
  refine hkeys.imp_of_mem fun ha hb hne he => hne ?_
  rw [of_decide_eq_true (List.mem_filter.mp ha).2, of_decide_eq_true (List.mem_filter.mp hb).2, he]

theorem contents_strict (db : Db) (projection : String) :
    (db.contents projection).Pairwise fun a b => a.key < b.key :=
  List.pairwise_map.mpr (Keyset.ordered_strict (keys_nodup db projection))

/-- The contents are what `projection_get` returns. -/
theorem mem_contents {entry : ProjectionEntry} :
    entry ∈ db.contents projection ↔ projectionGet db projection entry.key = some entry.value := by
  simp only [Db.contents, List.mem_map, Keyset.mem_ordered, List.mem_filter, decide_eq_true_eq]
  unfold projectionGet Db.entry
  rw [Option.map_eq_some_iff]
  constructor
  · rintro ⟨row, ⟨hrow, rfl⟩, rfl⟩
    exact ⟨row, Table.lookup_of_mem ProjectionLemmas.entries_unique hrow, rfl⟩
  · rintro ⟨row, hrow, hvalue⟩
    obtain ⟨hmem, hkey⟩ := (Table.lookup_iff ProjectionLemmas.entries_unique).mp hrow
    obtain ⟨hprojection, hkey⟩ := Prod.mk.inj hkey
    exact ⟨row, ⟨hmem, hprojection⟩, by rw [ProjectionEntryRow.entry, hvalue, hkey]⟩

theorem length_contents_le (db : Db) (projection : String) :
    (db.contents projection).length ≤ db.projectionEntries.rows.length := by
  rw [Db.contents, List.length_map, (Keyset.ordered_perm _ _).length_eq]
  exact List.length_filter_le _ _

theorem inRange_strict (db : Db) (projection : String) (start stop : Option Bytes) :
    (db.inRange projection start stop).Pairwise fun a b => a.key < b.key :=
  (contents_strict db projection).filter _

/-- A scan delivers the first entries of its range behind the cursor. -/
theorem scan_eq : scan db projection start stop after limit =
    limitRows limit
      (Keyset.behind ProjectionEntry.key after (db.inRange projection start stop)) := by
  obtain ⟨rows, hrows⟩ : ∃ rows, rows = db.projectionEntries.rows.filter fun row =>
      decide (row.projection = projection) := ⟨_, rfl⟩
  have hnodup := keys_nodup db projection
  rw [← hrows] at hnodup
  -- The conditions of the query, taken one after the other.
  have hfilter : db.projectionEntries.rows.filter (fun row =>
      decide (row.projection = projection) && start.all (fun start => decide (start ≤ row.key)) &&
        stop.all (fun stop => decide (row.key < stop)) &&
        after.all fun after => decide (after < row.key)) =
      rows.filter fun row => start.all (fun start => decide (start ≤ row.key)) &&
        stop.all (fun stop => decide (row.key < stop)) &&
        after.all fun after => decide (after < row.key) := by
    rw [hrows, List.filter_filter]
    exact List.filter_congr fun row _ => by cases decide (row.projection = projection) <;> simp
  have hordered : ∀ xs : List ProjectionEntryRow,
      (xs.insertionSort fun a b => a.key ≤ b.key) = Keyset.ordered ProjectionEntryRow.key xs :=
    fun _ => rfl
  unfold scan Keyset.behind Db.inRange Db.contents
  dsimp only
  rw [hfilter, hordered, Keyset.ordered_filter hnodup, ← limitRows_map, ← hrows, List.filter_map,
    List.filter_map, List.filter_filter]
  refine congrArg (fun xs => limitRows limit (List.map _ xs)) (List.filter_congr fun row _ => ?_)
  exact Bool.and_comm _ _

/-- The range of a prefix. -/
theorem inRange_prefix : db.inRange projection (some p) (prefixUpperBound p) =
    (db.contents projection).filter fun entry => decide (p <+: entry.key) := by
  refine List.filter_congr fun entry _ => ?_
  rw [Bool.eq_iff_iff, decide_eq_true_iff, isPrefix_iff]
  cases prefixUpperBound p <;> simp

/-- A limited scan is the first entries of the range behind the cursor, or all of them. -/
theorem scan_page (after : Option Bytes) : scan db projection start stop after limit =
      (Keyset.behind ProjectionEntry.key after (db.inRange projection start stop)).take
        limit.toNat ∨
    scan db projection start stop after limit =
      Keyset.behind ProjectionEntry.key after (db.inRange projection start stop) := by
  rw [scan_eq]
  exact (limitRows_cases limit _).imp_right And.right

/-- The largest limit is none. -/
theorem scan_unlimited : scan db projection start stop none 0xFFFFFFFFFFFFFFFF =
    db.inRange projection start stop := by
  rw [scan_eq, Keyset.behind_none]
  exact if_pos (by decide)

end ScanLemmas

open ScanLemmas

/-- SQLite's largest database has 2^48 bytes, and each entry takes some of them. -/
def Db.EntriesWithinFileLimit (db : Db) : Prop := db.projectionEntries.rows.length < 2 ^ 48

/-- Prefix scans. The keys with a prefix are those from the prefix up to
`prefix_upper_bound`, which is the least string above all of them, and none if there
is no such string. So a prefix page has exactly the first entries, in key order,
with the prefix and behind the cursor; and the entries are those that
`projection_get` finds. -/
theorem prefix_scans_exact :
    (∀ p k, p <+: k ↔ p ≤ k ∧ ∀ u, prefixUpperBound p = some u → k < u) ∧
    (∀ p u, prefixUpperBound p = some u →
      (∀ k, p <+: k → k < u) ∧ ∀ v, (∀ k, p <+: k → k < v) → u ≤ v) ∧
    (∀ p, prefixUpperBound p = none ↔ ¬ ∃ v : Bytes, ∀ k, p <+: k → k < v) ∧
    ∀ (db : Db) (projection : String),
      (db.contents projection).Pairwise (fun a b => a.key < b.key) ∧
      (∀ entry, entry ∈ db.contents projection ↔
        projectionGet db projection entry.key = some entry.value) ∧
      ∀ p after limit, limit.toNat < 2 ^ 63 ∨ db.EntriesWithinFileLimit →
        projectionScanPrefixPage db projection p after limit =
          ((db.contents projection).filter fun entry => decide (p <+: entry.key) &&
            after.all fun after => decide (after < entry.key)).take limit.toNat := by
  refine ⟨fun p k => isPrefix_iff, fun p u h => ?_, fun p => ?_, fun db projection =>
    ⟨contents_strict db projection, fun entry => mem_contents, fun p after limit hfits => ?_⟩⟩
  · rw [prefixUpperBound_eq] at h
    exact ⟨Prefixes.upper_above h, fun v => Prefixes.upper_least h⟩
  · rw [prefixUpperBound_eq]
    exact Prefixes.upper_eq_none
  · have hbehind : Keyset.behind ProjectionEntry.key after
        ((db.contents projection).filter fun entry => decide (p <+: entry.key)) =
        (db.contents projection).filter fun entry => decide (p <+: entry.key) &&
          after.all fun after => decide (after < entry.key) := by
      rw [Keyset.behind, List.filter_filter]
      exact List.filter_congr fun _ _ => Bool.and_comm _ _
    rw [projectionScanPrefixPage, scan_eq, inRange_prefix, hbehind]
    refine limitRows_eq (hfits.imp_right fun hfile => ?_)
    unfold Db.EntriesWithinFileLimit at hfile
    have := length_contents_le db projection
    exact Nat.lt_of_le_of_lt (List.length_filter_le _ _) (by omega)

/-- The keys `[FF]` and `[FF, FF]` of a projection. -/
def Sample.projected : List Call :=
  [Sample.commit 10 0 [.projectionPatch ⟨"p", 0, 1, [.put [0xFF] [1], .put [0xFF, 0xFF] [2]]⟩]]

theorem prefix_scans_exact_sample :
    projectionScanPrefixPage (controlPlane.after Sample.projected).db "p" [0xFF] (some [0xFF]) 5 =
      (((controlPlane.after Sample.projected).db.contents "p").filter fun entry =>
        decide ([0xFF] <+: entry.key) && decide ([0xFF] < entry.key)).take 5 :=
  (prefix_scans_exact.2.2.2 _ _).2.2 _ (some [0xFF]) 5 (.inl (by decide))

/-- What a reader gets that pages with the last key as its cursor: the loop ends, as
soon as it has had more rounds than there are entries; its pages are everything, and
only the last of them may have another size. -/
def PagesAll (query : Option Bytes → List ProjectionEntry) (limit : UInt64)
    (all : List ProjectionEntry) : Prop :=
  ∀ rounds, all.length < rounds →
    ∃ pages, Keyset.readAll query ProjectionEntry.key rounds none = some pages ∧
      pages.flatten = all ∧ (∀ page ∈ pages, page ≠ []) ∧
      ∀ page ∈ pages.dropLast, page.length = limit.toNat

/-- Paged scans. With every limit but zero, paging by the last key until a page is
empty delivers what the unlimited scan does: the entries in the range, in ascending
key order, each once. -/
theorem paged_scans_complete (db : Db) (projection : String) (limit : UInt64) (hlimit : 1 ≤ limit) :
    (∀ p, PagesAll (fun after => projectionScanPrefixPage db projection p after limit) limit
        (projectionScanPrefix db projection p 0xFFFFFFFFFFFFFFFF) ∧
      projectionScanPrefix db projection p 0xFFFFFFFFFFFFFFFF =
        (db.contents projection).filter fun entry => decide (p <+: entry.key)) ∧
    (∀ start stop,
      PagesAll (fun after => projectionScanRange db projection start stop after limit) limit
        (projectionScanRange db projection start stop none 0xFFFFFFFFFFFFFFFF) ∧
      projectionScanRange db projection start stop none 0xFFFFFFFFFFFFFFFF =
        (db.contents projection).filter fun entry =>
          start.all (fun start => decide (start ≤ entry.key)) &&
            stop.all fun stop => decide (entry.key < stop)) ∧
    (db.contents projection).Pairwise (fun a b => a.key < b.key) ∧
    ∀ entry, entry ∈ db.contents projection ↔
      projectionGet db projection entry.key = some entry.value := by
  have hpages : ∀ start stop,
      PagesAll (fun after => scan db projection start stop after limit) limit
        (scan db projection start stop none 0xFFFFFFFFFFFFFFFF) := by
    intro start stop rounds hrounds
    have hbehind := Keyset.behind_none ProjectionEntry.key (db.inRange projection start stop)
    rw [scan_unlimited] at hrounds ⊢
    have hspec := Keyset.readAll_spec (UInt64.le_iff_toNat_le.mp hlimit)
      (inRange_strict db projection start stop) scan_page none (by rwa [hbehind])
    rwa [hbehind] at hspec
  refine ⟨fun p => ⟨hpages _ _, ?_⟩, fun start stop => ⟨hpages start stop, scan_unlimited⟩,
    contents_strict db projection, fun entry => mem_contents⟩
  exact scan_unlimited.trans inRange_prefix

theorem paged_scans_complete_sample :
    PagesAll (fun after => projectionScanRange (controlPlane.after Sample.projected).db "p"
        (some []) none after 1) 1
      (projectionScanRange (controlPlane.after Sample.projected).db "p" (some []) none none
        0xFFFFFFFFFFFFFFFF) :=
  ((paged_scans_complete _ "p" 1 (by decide)).2.1 (some []) none).1

end Minisqlite
