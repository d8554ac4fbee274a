import Mathlib.Data.List.Sort

/-!
# Keyset paging

A reader that has no offset remembers the key of the last row it has seen, and asks for
the next rows in the order of the keys. It stops at the first page that is not full.

* `page`, `pages`: one query, and the loop of a reader. Each round costs one unit of fuel.
* `pages_eq`: with different keys, the loop delivers the rows after its start, each
  once and in order, as soon as the fuel is enough for their number.
* `pages_total`: the loop ends, whatever the keys are.
* `pages_map`, `pages_congr`: the loop looks at nothing but the keys.
* `readAll`: the loop that starts without a key and stops at an empty page.
* `readAll_spec`: it delivers everything, and only its last page may be short.
-/

namespace Keyset

universe u v w

variable {ρ : Type u} {κ : Type v} {σ : Type w}

section Sorting

variable [LE κ] [DecidableLE κ]

/-- The rows in the order of their keys. -/
def ordered (key : ρ → κ) (rows : List ρ) : List ρ := rows.insertionSort fun a b => key a ≤ key b

theorem ordered_perm (key : ρ → κ) (rows : List ρ) : (ordered key rows).Perm rows :=
  List.perm_insertionSort _ rows

theorem mem_ordered {key : ρ → κ} {rows : List ρ} {row : ρ} :
    row ∈ ordered key rows ↔ row ∈ rows :=
  (ordered_perm key rows).mem_iff

theorem ordered_map (key : σ → κ) (f : ρ → σ) (rows : List ρ) :
    ordered key (rows.map f) = (ordered (fun row => key (f row)) rows).map f :=
  (List.map_insertionSort _ _ f rows fun _ _ _ _ => Iff.rfl).symm

/-- The order depends on the keys alone. -/
theorem ordered_congr {τ : Type u} {key : ρ → κ} {key' : σ → κ} {f : ρ → τ} {g : σ → τ}
    {rows : List ρ} {rows' : List σ}
    (h : (rows.map fun row => (key row, f row)) = rows'.map fun row => (key' row, g row)) :
    (ordered key rows).map f = (ordered key' rows').map g := by
  have hordered := congrArg (fun pairs => (ordered Prod.fst pairs).map Prod.snd) h
  simpa [ordered_map, Function.comp_def] using hordered

end Sorting

section Strict

variable [LE κ] [LT κ] [Std.IsLinearOrder κ] [Std.LawfulOrderLT κ] {key : ρ → κ}

/-- There is one strict order of the rows. -/
theorem eq_of_strict {xs ys : List ρ} (hxs : xs.Pairwise fun a b => key a < key b)
    (hys : ys.Pairwise fun a b => key a < key b) (hperm : xs.Perm ys) : xs = ys :=
  hperm.eq_of_pairwise (fun _ _ _ _ hab hba => absurd (Std.lt_trans hab hba) Std.lt_irrefl) hxs hys

variable [DecidableLE κ] {rows : List ρ}

/-- Different keys are in strict order. -/
theorem ordered_strict (nodup : (rows.map key).Nodup) :
    (ordered key rows).Pairwise fun a b => key a < key b := by
  let le : ρ → ρ → Prop := fun a b => key a ≤ key b
  have : Std.Total le := ⟨fun a b => Std.le_total⟩
  have : IsTrans ρ le := ⟨fun a b c => Std.le_trans⟩
  have hnodup : ((ordered key rows).map key).Nodup :=
    ((ordered_perm key rows).map key).nodup_iff.mpr nodup
  exact ((List.pairwise_insertionSort le rows).and (List.pairwise_map.mp hnodup)).imp
    fun {a b} h => Std.lt_of_le_of_ne h.1 h.2

/-- To filter and then to sort is to sort and then to filter. -/
theorem ordered_filter (nodup : (rows.map key).Nodup) (p : ρ → Bool) :
    ordered key (rows.filter p) = (ordered key rows).filter p := by
  refine eq_of_strict (ordered_strict ?_) ((ordered_strict nodup).filter _) ?_
  · exact (List.filter_sublist.map key).nodup nodup
  · exact (ordered_perm _ _).trans ((ordered_perm _ _).filter _).symm

/-- `ORDER BY key DESC`, of rows in strict order. -/
theorem insertionSort_reverse (h : rows.Pairwise fun a b => key a < key b) :
    rows.insertionSort (fun a b => key b ≤ key a) = rows.reverse := by
  induction rows with
  | nil => rfl
  | cons row rows ih =>
    obtain ⟨hrow, hrows⟩ := List.pairwise_cons.mp h
    -- The row has the least key, so it goes past all the others.
    have hinsert : ∀ xs : List ρ, (∀ r ∈ xs, key row < key r) →
        xs.orderedInsert (fun a b => key b ≤ key a) row = xs ++ [row] := by
      intro xs hxs
      induction xs with
      | nil => rfl
      | cons x xs ihx =>
        obtain ⟨hx, hxs⟩ := List.forall_mem_cons.mp hxs
        rw [List.orderedInsert_cons, if_neg (Std.not_le.mpr hx), ihx hxs]
        rfl
    rw [List.insertionSort_cons, ih hrows, hinsert _ fun r hr => hrow r (List.mem_reverse.mp hr),
      List.reverse_cons]

end Strict

variable [LE κ] [LT κ] [DecidableLT κ]

section After

variable [Std.IsLinearOrder κ] [Std.LawfulOrderLT κ] {key : ρ → κ}

/-- In a strict order, the rows after a row are those behind it. -/
theorem filter_after {xs ys : List ρ} {row : ρ}
    (h : (xs ++ row :: ys).Pairwise fun a b => key a < key b) :
    ((xs ++ row :: ys).filter fun r => decide (key row < key r)) = ys := by
  obtain ⟨hxs, hrest, hbefore⟩ := List.pairwise_append.mp h
  obtain ⟨hrow, -⟩ := List.pairwise_cons.mp hrest
  rw [List.filter_append, List.filter_cons_of_neg (by simp [Std.lt_irrefl])]
  have hnone : (xs.filter fun r => decide (key row < key r)) = [] :=
    List.filter_eq_nil_iff.mpr fun r hr => by
      simpa using fun h => Std.lt_irrefl (Std.lt_trans (hbefore r hr row List.mem_cons_self) h)
  have hall : (ys.filter fun r => decide (key row < key r)) = ys :=
    List.filter_eq_self.mpr fun r hr => decide_eq_true (hrow r hr)
  rw [hnone, hall, List.nil_append]

/-- The rows behind a row are behind whatever it is behind. -/
theorem filter_later {row : ρ} {last : κ} (h : last < key row) (rows : List ρ) :
    (rows.filter fun r => decide (key row < key r)) =
      (rows.filter fun r => decide (last < key r)).filter fun r => decide (key row < key r) := by
  rw [List.filter_filter]
  refine List.filter_congr fun r _ => ?_
  by_cases hr : key row < key r
  · simp [hr, Std.lt_trans h hr]
  · simp [hr]

end After

variable [DecidableLE κ]

/-- `SELECT … WHERE key > ?1 ORDER BY key LIMIT ?2`. -/
def page (key : ρ → κ) (size : Nat) (rows : List ρ) (last : κ) : List ρ :=
  (ordered key (rows.filter fun row => decide (last < key row))).take size

/-- The key to go on from. -/
def lastKey (key : ρ → κ) (last : κ) (rows : List ρ) : κ := (rows.getLast?.map key).getD last

/-- Page after page, until one is not full; `none` without enough fuel. -/
def pages (key : ρ → κ) (size : Nat) (rows : List ρ) : Nat → κ → Option (List ρ)
  | 0, _ => none
  | fuel + 1, last =>
    let next := page key size rows last
    if next.length < size then some next
    else (pages key size rows fuel (lastKey key last next)).map (next ++ ·)

theorem page_map (key : σ → κ) (f : ρ → σ) (size : Nat) (rows : List ρ) (last : κ) :
    page key size (rows.map f) last = (page (fun row => key (f row)) size rows last).map f := by
  unfold page
  rw [List.filter_map, ordered_map, List.map_take]
  rfl

/-- Rows with the same keys are delivered at the same places. -/
theorem pages_map (key : σ → κ) (f : ρ → σ) (size : Nat) (rows : List ρ) (fuel : Nat) (last : κ) :
    pages key size (rows.map f) fuel last =
      (pages (fun row => key (f row)) size rows fuel last).map (List.map f) := by
  induction fuel generalizing last with
  | zero => rfl
  | succ fuel ih =>
    have hlast : lastKey key last ((page (fun row => key (f row)) size rows last).map f) =
        lastKey (fun row => key (f row)) last (page (fun row => key (f row)) size rows last) := by
      simp [lastKey, Function.comp_def]
    simp only [pages, page_map, List.length_map, hlast, ih]
    split
    · rfl
    · simp [Function.comp_def]

/-- What the loop delivers depends on the keys and on what is made of each row. -/
theorem pages_congr {τ : Type u} {key : ρ → κ} {key' : σ → κ} {f : ρ → τ} {g : σ → τ}
    {rows : List ρ} {rows' : List σ}
    (h : (rows.map fun row => (key row, f row)) = rows'.map fun row => (key' row, g row))
    (size fuel : Nat) (last : κ) :
    (pages key size rows fuel last).map (List.map f) =
      (pages key' size rows' fuel last).map (List.map g) := by
  have hpages := congrArg (fun pairs => (pages Prod.fst size pairs fuel last).map
    (List.map Prod.snd)) h
  simpa [pages_map, Function.comp_def] using hpages

/-- The loop delivers rows of the table, whatever the keys are. -/
theorem pages_subset {key : ρ → κ} {size : Nat} {rows : List ρ} {fuel : Nat} {last : κ}
    {found : List ρ} (h : pages key size rows fuel last = some found) : found ⊆ rows := by
  have hpage : ∀ last, page key size rows last ⊆ rows := fun last row hrow =>
    List.mem_of_mem_filter (mem_ordered.mp (List.mem_of_mem_take hrow))
  induction fuel generalizing last found with
  | zero => cases h
  | succ fuel ih =>
    simp only [pages] at h
    split at h
    · cases h
      exact hpage last
    · obtain ⟨rest, hrest, rfl⟩ := Option.map_eq_some_iff.mp h
      exact List.append_subset.mpr ⟨hpage last, ih hrest⟩

/-- More fuel than enough changes nothing. -/
theorem pages_mono {size fuel fuel' : Nat} {last : κ} {found : List ρ} (hle : fuel ≤ fuel')
    (h : pages key size rows fuel last = some found) :
    pages key size rows fuel' last = some found := by
  induction fuel generalizing fuel' last found with
  | zero => cases h
  | succ fuel ih =>
    obtain ⟨fuel', rfl⟩ : ∃ n, fuel' = n + 1 := ⟨fuel' - 1, by omega⟩
    simp only [pages] at h ⊢
    split
    · next hshort => rwa [if_pos hshort] at h
    · next hfull =>
      rw [if_neg hfull] at h
      obtain ⟨rest, hrest, rfl⟩ := Option.map_eq_some_iff.mp h
      rw [ih (Nat.le_of_succ_le_succ hle) hrest]
      rfl

section Complete

variable [Std.IsLinearOrder κ] [Std.LawfulOrderLT κ] {key : ρ → κ} {rows : List ρ}

/-- The loop ends, whatever the keys are: a full page has a row in it, and the
cursor moves on to that row. -/
theorem pages_total {size : Nat} (hsize : 0 < size) {fuel : Nat} {last : κ}
    (hfuel : (rows.filter fun row => decide (last < key row)).length < fuel) :
    ∃ found, pages key size rows fuel last = some found := by
  induction fuel generalizing last with
  | zero => omega
  | succ fuel ih =>
    simp only [pages]
    split
    · exact ⟨_, rfl⟩
    · next hfull =>
      obtain ⟨row, hrow⟩ : ∃ row, (page key size rows last).getLast? = some row :=
        Option.ne_none_iff_exists'.mp fun hnone => by
          rw [List.getLast?_eq_none_iff] at hnone
          exact hfull (by rw [hnone]; exact hsize)
      obtain ⟨hmem, hlater⟩ : row ∈ rows ∧ last < key row := by
        have hfound := List.mem_of_mem_take (List.mem_of_getLast? hrow)
        simpa using mem_ordered.mp hfound
      have hcursor : lastKey key last (page key size rows last) = key row := by
        rw [lastKey, hrow]
        rfl
      rw [hcursor]
      have hfewer : (rows.filter fun r => decide (key row < key r)).length <
          (rows.filter fun r => decide (last < key r)).length := by
        rw [filter_later hlater]
        refine List.length_filter_lt_length_iff_exists.mpr ⟨row, ?_, by simp [Std.lt_irrefl]⟩
        exact List.mem_filter.mpr ⟨hmem, decide_eq_true hlater⟩
      obtain ⟨rest, hrest⟩ := ih (Nat.lt_of_lt_of_le hfewer (Nat.le_of_lt_succ hfuel))
      exact ⟨_, by rw [hrest]; rfl⟩

/-- The rows after a full page are those that it has left out. -/
theorem ordered_after_page (nodup : (rows.map key).Nodup) {size : Nat} (hsize : 0 < size) {last : κ}
    (hfull : size ≤ (ordered key (rows.filter fun row => decide (last < key row))).length) :
    ordered key (rows.filter fun row =>
        decide (lastKey key last (page key size rows last) < key row)) =
      (ordered key (rows.filter fun row => decide (last < key row))).drop size := by
  obtain ⟨all, hall⟩ : ∃ all, ordered key (rows.filter fun row => decide (last < key row)) = all :=
    ⟨_, rfl⟩
  have hstrict := ordered_strict ((List.filter_sublist (p := fun row => decide (last < key row)).map
    key).nodup nodup)
  rw [hall] at hstrict hfull ⊢
  -- The last row of the page is the cursor.
  have hpage : page key size rows last = all.take size := congrArg (List.take size) hall
  obtain ⟨front, row, htake⟩ :=
      List.eq_nil_or_concat' (all.take size) |>.resolve_left fun hnil => by
    rcases List.take_eq_nil_iff.mp hnil with h | h
    · omega
    · rw [h, List.length_nil] at hfull
      omega
  have hcursor : lastKey key last (page key size rows last) = key row := by
    simp [lastKey, hpage, htake]
  have hsplit : all = front ++ row :: all.drop size := by
    conv => lhs; rw [← List.take_append_drop size all, htake]
    simp
  have hmem : row ∈ all := List.mem_of_mem_take (i := size) (by simp [htake])
  have hlater : last < key row := by
    rw [← hall, mem_ordered] at hmem
    exact of_decide_eq_true (List.mem_filter.mp hmem).2
  rw [hcursor]
  calc ordered key (rows.filter fun r => decide (key row < key r))
    _ = (ordered key rows).filter fun r => decide (key row < key r) := ordered_filter nodup _
    _ = ((ordered key rows).filter fun r => decide (last < key r)).filter
          fun r => decide (key row < key r) := filter_later hlater _
    _ = all.filter fun r => decide (key row < key r) := by rw [← ordered_filter nodup, hall]
    _ = all.drop size := by
        conv => lhs; rw [hsplit]
        exact filter_after (hsplit ▸ hstrict)

/-- The loop delivers the rows after its start, in order. -/
theorem pages_eq (nodup : (rows.map key).Nodup) {size : Nat} (hsize : 0 < size) {fuel : Nat}
    {last : κ} (hfuel : (rows.filter fun row => decide (last < key row)).length < fuel * size) :
    pages key size rows fuel last =
      some (ordered key (rows.filter fun row => decide (last < key row))) := by
  induction fuel generalizing last with
  | zero => omega
  | succ fuel ih =>
    have hlength := (ordered_perm key (rows.filter fun row => decide (last < key row))).length_eq
    rw [Nat.succ_mul] at hfuel
    simp only [pages]
    by_cases hshort : (page key size rows last).length < size
    · rw [if_pos hshort, page, List.take_of_length_le]
      rw [page, List.length_take] at hshort
      omega
    · have hfull :
          size ≤ (ordered key (rows.filter fun row => decide (last < key row))).length := by
        rw [page, List.length_take] at hshort
        omega
      have hrest := ordered_after_page nodup hsize hfull
      have hfewer : (rows.filter fun row =>
          decide (lastKey key last (page key size rows last) < key row)).length < fuel * size := by
        rw [← (ordered_perm key _).length_eq, hrest, List.length_drop]
        omega
      rw [if_neg hshort, ih hfewer, hrest, Option.map_some, page, List.take_append_drop]

end Complete

/-! ## Until a page is empty -/

/-- The rows behind a key, all of them if there is none. -/
def behind (key : ρ → κ) (after : Option κ) (rows : List ρ) : List ρ :=
  rows.filter fun row => after.all fun last => decide (last < key row)

omit [LE κ] [DecidableLE κ] in
theorem behind_none (key : ρ → κ) (rows : List ρ) : behind key none rows = rows :=
  List.filter_eq_self.mpr fun _ _ => rfl

/-- The loop of a reader that passes on the last key it got, until a page comes back
empty: the pages before that one. -/
def readAll (query : Option κ → List ρ) (key : ρ → κ) : Nat → Option κ → Option (List (List ρ))
  | 0, _ => none
  | fuel + 1, after =>
    match (query after).getLast? with
    | none => some []
    | some row => (readAll query key fuel (some (key row))).map (query after :: ·)

section ReadAll

omit [DecidableLE κ]

variable [Std.IsLinearOrder κ] [Std.LawfulOrderLT κ] {key : ρ → κ} {rows : List ρ}
  {query : Option κ → List ρ} {after : Option κ} {size : Nat}

/-- Behind the last row of a page is what the page has left. -/
theorem behind_last (hstrict : rows.Pairwise fun a b => key a < key b) {page rest : List ρ}
    {row : ρ} (h : behind key after rows = page ++ rest) (hlast : page.getLast? = some row) :
    behind key (some (key row)) rows = rest := by
  obtain ⟨front, rfl⟩ := List.getLast?_eq_some_iff.mp hlast
  rw [List.append_assoc, List.singleton_append] at h
  have hfound := hstrict.filter fun row => after.all fun last => decide (last < key row)
  have hlater : behind key (some (key row)) rows =
      (behind key after rows).filter fun r => decide (key row < key r) := by
    cases after with
    | none => rw [behind_none]; rfl
    | some last =>
      have hrow : row ∈ behind key (some last) rows := by simp [h]
      exact filter_later (by simpa using (List.mem_filter.mp hrow).2) rows
  change (behind key after rows).Pairwise _ at hfound
  rw [hlater, h]
  rw [h] at hfound
  exact filter_after hfound

/-- The loop ends with everything behind its start, in order, once each; only the
last page may have another size than the others. A page may also be everything. -/
theorem readAll_spec (hsize : 1 ≤ size) (hstrict : rows.Pairwise fun a b => key a < key b)
    (hquery : ∀ after, query after = (behind key after rows).take size ∨
      query after = behind key after rows) {fuel : Nat} (after : Option κ)
    (hfuel : (behind key after rows).length < fuel) :
    ∃ pages, readAll query key fuel after = some pages ∧
      pages.flatten = behind key after rows ∧ (∀ page ∈ pages, page ≠ []) ∧
      ∀ page ∈ pages.dropLast, page.length = size := by
  induction fuel generalizing after with
  | zero => omega
  | succ fuel ih =>
    obtain ⟨m, hm, hpage⟩ : ∃ m, 1 ≤ m ∧ query after = (behind key after rows).take m := by
      rcases hquery after with h | h
      · exact ⟨size, hsize, h⟩
      · exact ⟨(behind key after rows).length + 1, by omega,
          by rw [h, List.take_of_length_le (by omega)]⟩
    simp only [readAll]
    cases hlast : (query after).getLast? with
    | none =>
      rw [List.getLast?_eq_none_iff, hpage, List.take_eq_nil_iff] at hlast
      exact ⟨[], rfl, (hlast.resolve_left (by omega)).symm, by simp, by simp⟩
    | some row =>
      have hne : query after ≠ [] := fun hnil => by simp [hnil] at hlast
      obtain ⟨rest, hrest⟩ : ∃ rest, behind key after rows = query after ++ rest :=
        ⟨_, by rw [hpage, List.take_append_drop]⟩
      have hbehind := behind_last hstrict hrest hlast
      have hlength := congrArg List.length hrest
      have hpos := List.length_pos_iff.mpr hne
      rw [List.length_append] at hlength
      obtain ⟨pages, hpages, hflat, hnonempty, hfull⟩ :=
        ih (some (key row)) (by rw [hbehind]; omega)
      refine ⟨query after :: pages, by simp only [hpages, Option.map_some], ?_,
        List.forall_mem_cons.mpr ⟨hne, hnonempty⟩, ?_⟩
      · rw [List.flatten_cons, hflat, hbehind, hrest]
      · cases pages with
        | nil => simp
        | cons next pages =>
          rw [List.dropLast_cons_of_ne_nil (by simp)]
          refine List.forall_mem_cons.mpr ⟨?_, hfull⟩
          -- Another page came, so this one was not everything.
          have hleft : rest ≠ [] := by
            rw [← hbehind, ← hflat, List.flatten_cons]
            exact List.append_ne_nil_of_left_ne_nil (hnonempty next List.mem_cons_self) _
          have := List.length_pos_iff.mpr hleft
          rcases hquery after with h | h
          · rw [h, List.length_take] at hlength ⊢
            omega
          · rw [h] at hlength
            omega

end ReadAll

end Keyset
