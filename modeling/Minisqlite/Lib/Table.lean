import Mathlib.Data.List.Basic
import Mathlib.Data.List.Nodup

/-!
# Tables of a relational store

A table is the list of its rows in insertion order, together with the proof
that the rows meet the table's constraints. A constraint is of one of two
kinds: `clash` says which two rows the PRIMARY KEY and UNIQUE columns forbid
to be stored together, and `check` is the row's CHECK. So a value of type
`Table S` is always a legal content of the table, and a statement that would
break a constraint has no result (`none`).

* `insert`, `update`, `delete`, `upsert`: the four kinds of statement.
* `Unique`: a column (or a tuple of them) that identifies a row; `lookup` is
  the point query on it.
* `lookup_append`, `lookup_map`, `lookup_delete`, `lookup_upsert`: what the point
  query sees after a statement. `perm_of_lookup`: it sees everything.
-/

namespace Tables

universe u v

variable {ρ : Type u} {κ : Type v}

/-- The constraints of a table. -/
structure Schema (ρ : Type u) where
  clash : ρ → ρ → Bool
  check : ρ → Bool := fun _ => true

/-- A legal content of a table, oldest row first. -/
structure Table (S : Schema ρ) where
  rows : List ρ
  unique : rows.Pairwise fun a b => S.clash a b = false
  checked : ∀ r ∈ rows, S.check r = true

/-- `f` writes no column that a PRIMARY KEY or UNIQUE constraint reads. -/
structure Keeps (S : Schema ρ) (f : ρ → ρ) : Prop where
  left : ∀ a b, S.clash (f a) b = S.clash a b
  right : ∀ a b, S.clash a (f b) = S.clash a b

/-- The column `key` identifies a row: two rows with one value clash. -/
def Unique (S : Schema ρ) (key : ρ → κ) : Prop :=
  ∀ a b, key a = key b → S.clash a b = true

/-- The schema whose only constraint is the PRIMARY KEY `key`. -/
def Schema.keyed [DecidableEq κ] (key : ρ → κ) : Schema ρ :=
  { clash := fun a b => decide (key a = key b) }

theorem Schema.keyed_unique [DecidableEq κ] (key : ρ → κ) : Unique (Schema.keyed key) key :=
  fun _ _ h => decide_eq_true h

/-- Statements that leave the key column alone keep the key. -/
theorem Schema.keyed_keeps [DecidableEq κ] {key : ρ → κ} {f : ρ → ρ} (h : ∀ a, key (f a) = key a) :
    Keeps (Schema.keyed key) f :=
  ⟨fun a b => by simp [Schema.keyed, h a], fun a b => by simp [Schema.keyed, h b]⟩

namespace Table

variable {S : Schema ρ}

/-- The table with no rows. -/
def empty : Table S := ⟨[], .nil, by simp⟩

/-! ## Statements -/

/-- `INSERT`: `none` when the row breaks a constraint. -/
def insert (t : Table S) (r : ρ) : Option (Table S) :=
  if h : S.check r = true ∧ ∀ a ∈ t.rows, S.clash a r = false then
    some ⟨t.rows ++ [r],
      List.pairwise_append.mpr ⟨t.unique, by simp, by simpa using h.2⟩,
      by simpa [or_imp, forall_and] using ⟨t.checked, h.1⟩⟩
  else none

/-- `INSERT OR IGNORE`. -/
def insertOrIgnore (t : Table S) (r : ρ) : Table S :=
  (t.insert r).getD t

/-- `UPDATE … SET f WHERE p`, for an `f` that writes no unique column: `none`
when a CHECK rejects an updated row. -/
def update (t : Table S) (p : ρ → Bool) (f : ρ → ρ) (keeps : Keeps S f) : Option (Table S) :=
  if h : ∀ r ∈ t.rows, p r = true → S.check (f r) = true then
    some ⟨t.rows.map fun r => if p r then f r else r,
      List.pairwise_map.mpr (t.unique.imp fun {a b} hab => by
        cases p a <;> cases p b <;> simp [keeps.left, keeps.right, hab]),
      by
        intro r hr
        obtain ⟨a, ha, rfl⟩ := List.mem_map.mp hr
        by_cases hp : p a = true
        · simpa [hp] using h a ha hp
        · simpa [hp] using t.checked a ha⟩
  else none

/-- `DELETE … WHERE p`. -/
def delete (t : Table S) (p : ρ → Bool) : Table S :=
  ⟨t.rows.filter fun r => !p r, t.unique.filter _,
    fun r hr => t.checked r (List.mem_of_mem_filter hr)⟩

/-- `INSERT … ON CONFLICT(key) DO UPDATE SET f`. -/
def upsert [DecidableEq κ] {key : ρ → κ} (t : Table (Schema.keyed key)) (r : ρ) (f : ρ → ρ)
    (keeps : ∀ a, key (f a) = key a) : Table (Schema.keyed key) :=
  ((t.insert r).orElse fun _ =>
    t.update (fun a => decide (key a = key r)) f (Schema.keyed_keeps keeps)).getD t

theorem insert_eq_some {t t' : Table S} {r : ρ} (h : t.insert r = some t') :
    t'.rows = t.rows ++ [r] ∧ ∀ a ∈ t.rows, S.clash a r = false := by
  unfold insert at h
  split at h
  · next hc =>
    cases h
    exact ⟨rfl, hc.2⟩
  · cases h

theorem update_eq_some {t t' : Table S} {p : ρ → Bool} {f : ρ → ρ} {keeps : Keeps S f}
    (h : t.update p f keeps = some t') : t'.rows = t.rows.map fun r => if p r then f r else r := by
  unfold update at h
  split at h
  · cases h; rfl
  · cases h

/-- An `UPDATE` succeeds when the CHECK accepts every updated row. -/
theorem update_isSome {t : Table S} {p : ρ → Bool} {f : ρ → ρ} {keeps : Keeps S f}
    (h : ∀ r ∈ t.rows, p r = true → S.check (f r) = true) : ∃ t', t.update p f keeps = some t' := by
  unfold update
  rw [dif_pos h]
  exact ⟨_, rfl⟩

theorem insert_isSome {t : Table S} {r : ρ} (hc : S.check r = true)
    (hk : ∀ a ∈ t.rows, S.clash a r = false) : ∃ t', t.insert r = some t' := by
  unfold insert
  rw [dif_pos ⟨hc, hk⟩]
  exact ⟨_, rfl⟩

/-- A row that meets the CHECKs is refused exactly if its key is taken. -/
theorem insert_eq_none {t : Table S} {r : ρ} (hc : S.check r = true) :
    t.insert r = none ↔ ∃ a ∈ t.rows, S.clash a r = true := by
  constructor
  · intro hnone
    by_contra hfree
    obtain ⟨t', ht⟩ := insert_isSome (t := t) hc fun a ha =>
      Bool.eq_false_iff.mpr fun hclash => hfree ⟨a, ha, hclash⟩
    rw [hnone] at ht
    cases ht
  · rintro ⟨a, ha, hclash⟩
    cases hinsert : t.insert r with
    | none => rfl
    | some t' =>
      rw [(insert_eq_some hinsert).2 a ha] at hclash
      cases hclash

/-- `INSERT OR IGNORE` adds the row, or finds its key taken. -/
theorem insertOrIgnore_rows [DecidableEq κ] {key : ρ → κ} (t : Table (Schema.keyed key)) (r : ρ) :
    (t.insertOrIgnore r).rows = t.rows ++ [r] ∨
      (t.insertOrIgnore r).rows = t.rows ∧ ∃ a ∈ t.rows, key a = key r := by
  unfold insertOrIgnore
  by_cases hfree : ∀ a ∈ t.rows, key a ≠ key r
  · obtain ⟨t', ht⟩ := insert_isSome (t := t) (r := r) rfl fun a ha => decide_eq_false (hfree a ha)
    rw [ht]
    exact .inl (insert_eq_some ht).1
  · cases hi : t.insert r with
    | some t' => exact .inl (insert_eq_some hi).1
    | none => exact .inr ⟨rfl, by simpa using hfree⟩

theorem mem_delete {t : Table S} {p : ρ → Bool} {r : ρ} :
    r ∈ (t.delete p).rows ↔ r ∈ t.rows ∧ p r = false := by
  simp [delete]

/-! ## Point queries -/

section Lookup

variable [DecidableEq κ] {key : ρ → κ}

/-- `SELECT … WHERE key = k` on a column that identifies the row. -/
def lookup (t : Table S) (key : ρ → κ) (k : κ) : Option ρ :=
  t.rows.find? fun r => decide (key r = k)

theorem lookup_mem {t : Table S} {k : κ} {r : ρ} (h : t.lookup key k = some r) : r ∈ t.rows :=
  List.mem_of_find?_eq_some h

theorem lookup_key {t : Table S} {k : κ} {r : ρ} (h : t.lookup key k = some r) : key r = k := by
  simpa using List.find?_some h

theorem lookup_eq_none {t : Table S} {k : κ} : t.lookup key k = none ↔ ∀ r ∈ t.rows, key r ≠ k := by
  simp [lookup, List.find?_eq_none]

/-- Among rows whose keys are all different, one has the key of `r`. -/
theorem filter_key {rows : List ρ} (nodup : (rows.map key).Nodup) {r : ρ} (hr : r ∈ rows) :
    rows.filter (fun a => decide (key a = key r)) = [r] := by
  induction rows with
  | nil => cases hr
  | cons a rows ih =>
    rw [List.map_cons, List.nodup_cons] at nodup
    rcases List.mem_cons.mp hr with rfl | hr
    · have hrest : rows.filter (fun b => decide (key b = key r)) = [] :=
        List.filter_eq_nil_iff.mpr fun b hb hkey =>
          nodup.1 (of_decide_eq_true hkey ▸ List.mem_map_of_mem hb)
      rw [List.filter_cons_of_pos (by simp), hrest]
    · have hne : key a ≠ key r := fun he => nodup.1 (he ▸ List.mem_map_of_mem hr)
      rw [List.filter_cons_of_neg (by simpa using hne), ih nodup.2 hr]

omit [DecidableEq κ] in
/-- The values of an identifying column are all different. -/
theorem nodup_keys (hu : Unique S key) (t : Table S) : (t.rows.map key).Nodup :=
  List.pairwise_map.mpr (t.unique.imp fun {x y} hxy he => by simp [hu x y he] at hxy)

omit [DecidableEq κ] in
/-- Two rows of a table with one value of an identifying column are one row. -/
theorem eq_of_key (hu : Unique S key) (t : Table S) {a b : ρ} (ha : a ∈ t.rows) (hb : b ∈ t.rows)
    (hk : key a = key b) : a = b :=
  List.inj_on_of_nodup_map (nodup_keys hu t) ha hb hk

theorem lookup_of_mem (hu : Unique S key) {t : Table S} {r : ρ} (hr : r ∈ t.rows) :
    t.lookup key (key r) = some r := by
  cases h : t.lookup key (key r) with
  | none => exact absurd rfl (lookup_eq_none.mp h r hr)
  | some a => rw [eq_of_key hu t (lookup_mem h) hr (lookup_key h)]

theorem lookup_iff (hu : Unique S key) {t : Table S} {k : κ} {r : ρ} :
    t.lookup key k = some r ↔ r ∈ t.rows ∧ key r = k := by
  constructor
  · exact fun h => ⟨lookup_mem h, lookup_key h⟩
  · rintro ⟨hr, rfl⟩
    exact lookup_of_mem hu hr

/-- Two tables that answer every point query alike have the same rows. -/
theorem perm_of_lookup (hu : Unique S key) {t t' : Table S}
    (h : ∀ k, t.lookup key k = t'.lookup key k) : t.rows.Perm t'.rows := by
  refine (List.perm_ext_iff_of_nodup ((nodup_keys hu t).of_map _)
    ((nodup_keys hu t').of_map _)).mpr fun r => ?_
  have hiff := (lookup_iff hu (t := t) (k := key r) (r := r)).symm.trans
    (h (key r) ▸ lookup_iff hu (t := t') (k := key r) (r := r))
  simpa using hiff

/-- The query after rows were added. -/
theorem lookup_append {t t' : Table S} {rs : List ρ} (h : t'.rows = t.rows ++ rs) (k : κ) :
    t'.lookup key k = (t.lookup key k).or (rs.find? fun r => decide (key r = k)) := by
  unfold lookup
  rw [h, List.find?_append]

/-- The query after the rows were rewritten, their keys kept. -/
theorem lookup_map {t t' : Table S} {f : ρ → ρ} (hf : ∀ r, key (f r) = key r)
    (h : t'.rows = t.rows.map f) (k : κ) : t'.lookup key k = (t.lookup key k).map f := by
  unfold lookup
  rw [h, List.find?_map]
  have hp : (fun r => decide (key r = k)) ∘ f = fun r => decide (key r = k) := by
    funext r
    simp [hf]
  rw [hp]

/-- The query after rows were deleted. -/
theorem lookup_delete (hu : Unique S key) (t : Table S) (p : ρ → Bool) (k : κ) :
    (t.delete p).lookup key k = (t.lookup key k).filter fun r => !p r := by
  cases hl : t.lookup key k with
  | none =>
    refine lookup_eq_none.mpr fun r hr => lookup_eq_none.mp hl r (mem_delete.mp hr).1
  | some r =>
    obtain ⟨hr, rfl⟩ := (lookup_iff hu).mp hl
    cases hp : p r with
    | false =>
      rw [Option.filter_some_pos (by simp [hp])]
      exact lookup_of_mem hu (mem_delete.mpr ⟨hr, hp⟩)
    | true =>
      rw [Option.filter_some_neg (by simp [hp])]
      refine lookup_eq_none.mpr fun a ha he => ?_
      obtain ⟨ha, hpa⟩ := mem_delete.mp ha
      rw [eq_of_key hu t ha hr he, hp] at hpa
      cases hpa

/-- The new row's key was free. -/
theorem lookup_insert_free (hu : Unique S key) {t t' : Table S} {r : ρ} (h : t.insert r = some t') :
    t.lookup key (key r) = none := by
  refine lookup_eq_none.mpr fun a ha he => ?_
  have := (insert_eq_some h).2 a ha
  simp [hu a r he] at this

/-- The query after an upsert. -/
theorem lookup_upsert {κ' : Type v} [DecidableEq κ'] {key : ρ → κ'} (t : Table (Schema.keyed key))
    (r : ρ) (f : ρ → ρ) (keeps : ∀ a, key (f a) = key a) (k : κ') :
    (t.upsert r f keeps).lookup key k =
      if key r = k then some (((t.lookup key k).map f).getD r) else t.lookup key k := by
  unfold upsert
  cases hi : t.insert r with
  | some t' =>
    have hfree := lookup_insert_free (Schema.keyed_unique key) hi
    by_cases hk : key r = k
    · subst hk
      simp [lookup_append (insert_eq_some hi).1, hfree]
    · simp [lookup_append (insert_eq_some hi).1, hk]
  | none =>
    obtain ⟨t', hu⟩ : ∃ t', t.update (fun a => decide (key a = key r)) f
        (Schema.keyed_keeps keeps) = some t' := update_isSome fun _ _ _ => rfl
    have hex : ∃ a ∈ t.rows, key a = key r := by
      by_contra hno
      simp only [not_exists, not_and] at hno
      obtain ⟨t', ht⟩ := insert_isSome (t := t) (r := r) rfl
        (fun a ha => decide_eq_false (hno a ha))
      rw [hi] at ht
      cases ht
    obtain ⟨a, ha, hak⟩ := hex
    have hla := lookup_of_mem (Schema.keyed_unique key) ha
    simp only [hu, Option.orElse_none, Option.getD_some]
    rw [lookup_map (fun b => by split <;> simp [keeps]) (update_eq_some hu)]
    by_cases hk : key r = k
    · subst hk
      rw [← hak, hla]
      simp [hak]
    · rw [if_neg hk]
      cases hl : t.lookup key k with
      | none => rfl
      | some b =>
        have hb := lookup_key hl
        simp [hb, Ne.symm hk]

section Upsert

variable {κ' : Type v} [DecidableEq κ'] {key : ρ → κ'} {t : Table (Schema.keyed key)} {r row : ρ}
  {f : ρ → ρ} (keeps : ∀ a, key (f a) = key a)

/-- A row after an upsert is the one written, or it was there before. -/
theorem mem_upsert (h : row ∈ (t.upsert r f keeps).rows) : key row = key r ∨ row ∈ t.rows := by
  have hlookup := lookup_of_mem (Schema.keyed_unique key) h
  rw [lookup_upsert] at hlookup
  split at hlookup
  · next hkey => exact .inl hkey.symm
  · exact .inr (lookup_mem hlookup)

/-- An upsert keeps the keys that are there. -/
theorem mem_upsert_of_mem (h : row ∈ t.rows) :
    ∃ row' ∈ (t.upsert r f keeps).rows, key row' = key row := by
  have hafter := lookup_upsert t r f keeps (key row)
  rw [lookup_of_mem (Schema.keyed_unique key) h] at hafter
  split at hafter <;> exact ⟨_, lookup_mem hafter, lookup_key hafter⟩

end Upsert

end Lookup

end Table

end Tables
