import Mathlib.Data.List.Basic

/-!
# Text without control characters

A text of lines can be taken apart again if no line has a line feed in it. A text is
`Plain` if it has no control character at all.

* `textLines_writeLines`: plain lines come back.
* `plain_append`, `plain_intercalate`, `plain_join`, `plain_int`: how plain text is
  put together, down to numbers.
-/

namespace PlainText

/-- No character is a control character of ASCII. -/
def Plain (s : String) : Prop := ∀ c ∈ s.toList, 0x20 ≤ c.toNat

instance (s : String) : Decidable (Plain s) := List.decidableBAll _ _

/-- What `writeln!` writes for the lines. -/
def writeLines (lines : List String) : String := String.join (lines.map (· ++ "\n"))

/-- The lines of a text whose last line is ended. -/
def textLines (text : String) : List String :=
  ((text.toList.splitOn '\n').dropLast).map String.ofList

/-! ## Putting text together -/

theorem plain_append {s t : String} (hs : Plain s) (ht : Plain t) : Plain (s ++ t) := by
  intro c hc
  rw [String.toList_append] at hc
  exact (List.mem_append.mp hc).elim (hs c) (ht c)

theorem plain_join {texts : List String} (h : ∀ s ∈ texts, Plain s) :
    Plain (String.join texts) := by
  intro c hc
  rw [String.toList_join] at hc
  obtain ⟨s, hs, hc⟩ := List.mem_flatMap.mp hc
  exact h s hs c hc

theorem plain_intercalate {separator : String} (hseparator : Plain separator) {texts : List String}
    (h : ∀ s ∈ texts, Plain s) : Plain (separator.intercalate texts) := by
  induction texts with
  | nil => exact fun c hc => absurd hc (by simp)
  | cons s texts ih =>
    obtain ⟨hs, htexts⟩ := List.forall_mem_cons.mp h
    cases texts with
    | nil => simpa using hs
    | cons t texts =>
      rw [String.intercalate_cons_cons]
      exact plain_append (plain_append hs hseparator) (ih htexts)

/-! ## Numbers -/

theorem plain_of_isDigit {c : Char} (h : c.isDigit = true) : 0x20 ≤ c.toNat := by
  have hlow : 48 ≤ c.toNat := (Char.isDigit_iff_toNat.mp h).1
  omega

theorem plain_ofNat {n : Nat} (h : 0x20 ≤ n) (valid : n.isValidChar) :
    0x20 ≤ (Char.ofNat n).toNat := by
  rw [Char.ofNat, dif_pos valid]
  exact h

theorem plain_nat (n : Nat) : Plain n.repr := by
  intro c hc
  rw [Nat.toList_repr] at hc
  exact plain_of_isDigit (Nat.isDigit_of_mem_toDigits (by decide) (by decide) hc)

theorem plain_int (i : Int) : Plain (toString i) := by
  cases i with
  | ofNat n => exact plain_nat n
  | negSucc n => exact plain_append (by decide) (plain_nat (n + 1))

/-! ## Lines -/

theorem lf_notMem {s : String} (h : Plain s) : '\n' ∉ s.toList := fun hmem =>
  absurd (h _ hmem) (by decide)

theorem textLines_writeLines {lines : List String} (h : ∀ line ∈ lines, Plain line) :
    textLines (writeLines lines) = lines := by
  suffices hsplit : (writeLines lines).toList.splitOn '\n' = lines.map String.toList ++ [[]] by
    simp [textLines, hsplit]
  induction lines with
  | nil => rfl
  | cons line lines ih =>
    have hcons : (writeLines (line :: lines)).toList =
        line.toList ++ '\n' :: (writeLines lines).toList := by
      simp [writeLines, String.toList_join]
    rw [hcons, List.splitOn_append_cons_self_of_not_mem (lf_notMem (h line List.mem_cons_self)),
      ih fun s hs => h s (List.mem_cons_of_mem _ hs)]
    rfl

end PlainText
