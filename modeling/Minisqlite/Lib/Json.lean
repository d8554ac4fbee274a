import Mathlib.Data.List.Basic

/-!
# JSON

A parser for JSON texts as RFC 8259 defines them, with white space, escapes and numbers
of every form. A number is a mantissa and a power of ten. Recursion takes fuel, and the
length of the text is always enough.

* `parse`: the parser.
* `Spells`: a text is a value wherever it stands.
* `spells_int`, `spells_string`, `spells_object`: how values are written.
* `Spells.parse`: a text that spells a value is parsed as that value.
-/

namespace Json

inductive Value
  | null
  | bool (b : Bool)
  | number (mantissa exponent : Int)
  | string (s : String)
  | array (values : List Value)
  | object (members : List (String × Value))

/-! ## Strings -/

def isSpace (c : Char) : Bool := c = ' ' || c = '\t' || c = '\n' || c = '\r'

def skipSpace (cs : List Char) : List Char := cs.dropWhile isSpace

def hexValue (c : Char) : Option Nat :=
  if '0' ≤ c ∧ c ≤ '9' then some (c.toNat - 48)
  else if 'a' ≤ c ∧ c ≤ 'f' then some (c.toNat - 87)
  else if 'A' ≤ c ∧ c ≤ 'F' then some (c.toNat - 55)
  else none

/-- Four hexadecimal digits. -/
def hex4 : List Char → Option (Nat × List Char)
  | a :: b :: c :: d :: rest => do
    let a ← hexValue a
    let b ← hexValue b
    let c ← hexValue c
    let d ← hexValue d
    some (((a * 16 + b) * 16 + c) * 16 + d, rest)
  | _ => none

/-- What follows `\u`; a character outside the basic plane is written as two units. -/
def unicode (cs : List Char) : Option (Char × List Char) := do
  let (unit, rest) ← hex4 cs
  if 0xD800 ≤ unit ∧ unit < 0xDC00 then
    match rest with
    | '\\' :: 'u' :: rest => do
      let (low, rest) ← hex4 rest
      if 0xDC00 ≤ low ∧ low < 0xE000 then
        some (Char.ofNat (0x10000 + (unit - 0xD800) * 0x400 + (low - 0xDC00)), rest)
      else none
    | _ => none
  else if 0xDC00 ≤ unit ∧ unit < 0xE000 then none
  else some (Char.ofNat unit, rest)

/-- What follows a backslash. -/
def escape : List Char → Option (Char × List Char)
  | '"' :: rest => some ('"', rest)
  | '\\' :: rest => some ('\\', rest)
  | '/' :: rest => some ('/', rest)
  | 'b' :: rest => some (Char.ofNat 0x08, rest)
  | 'f' :: rest => some (Char.ofNat 0x0C, rest)
  | 'n' :: rest => some ('\n', rest)
  | 'r' :: rest => some ('\r', rest)
  | 't' :: rest => some ('\t', rest)
  | 'u' :: rest => unicode rest
  | _ => none

/-- One character of a string. -/
def character : List Char → Option (Char × List Char)
  | [] => none
  | c :: rest =>
    if c = '\\' then escape rest
    else if c = '"' ∨ c.toNat < 0x20 then none
    else some (c, rest)

/-- The characters up to the closing quotation mark. -/
def characters : Nat → List Char → Option (List Char × List Char)
  | 0, _ => none
  | fuel + 1, cs =>
    if cs.head? = some '"' then some ([], cs.tail)
    else do
      let (c, cs) ← character cs
      let (more, cs) ← characters fuel cs
      some (c :: more, cs)

/-- A string from its opening quotation mark on. -/
def string (cs : List Char) : Option (String × List Char) :=
  if cs.head? = some '"' then
    (characters cs.length cs.tail).map (Prod.map String.ofList id)
  else none

/-! ## Numbers -/

/-- One digit or more. -/
def digits (cs : List Char) : Option (List Char × List Char) :=
  if cs.takeWhile Char.isDigit = [] then none
  else some (cs.takeWhile Char.isDigit, cs.dropWhile Char.isDigit)

/-- The digits after the point, if there is one. -/
def fraction (cs : List Char) : Option (List Char × List Char) :=
  if cs.head? = some '.' then digits cs.tail else some ([], cs)

/-- The exponent, if there is one. -/
def exponent (cs : List Char) : Option (Int × List Char) :=
  if cs.head? = some 'e' ∨ cs.head? = some 'E' then
    if cs.tail.head? = some '-' then
      (digits cs.tail.tail).map (Prod.map (fun ds => -(Nat.ofDigitChars 10 ds 0 : Int)) id)
    else if cs.tail.head? = some '+' then
      (digits cs.tail.tail).map (Prod.map (fun ds => (Nat.ofDigitChars 10 ds 0 : Int)) id)
    else (digits cs.tail).map (Prod.map (fun ds => (Nat.ofDigitChars 10 ds 0 : Int)) id)
  else some (0, cs)

/-- A number without its sign; a leading zero stands alone. -/
def magnitude (cs : List Char) : Option ((Nat × Int) × List Char) := do
  let (whole, cs) ← digits cs
  if whole.head? = some '0' ∧ whole ≠ ['0'] then none
  else do
    let (decimals, cs) ← fraction cs
    let (power, cs) ← exponent cs
    some ((Nat.ofDigitChars 10 (whole ++ decimals) 0, power - decimals.length), cs)

def number (cs : List Char) : Option (Value × List Char) :=
  if cs.head? = some '-' then
    (magnitude cs.tail).map (Prod.map (fun m => .number (-(m.1 : Int)) m.2) id)
  else (magnitude cs).map (Prod.map (fun m => .number m.1 m.2) id)

/-! ## Values -/

def literal (word : String) (v : Value) (cs : List Char) : Option (Value × List Char) :=
  if word.toList.isPrefixOf cs then some (v, cs.drop word.toList.length) else none

/-- The punctuation mark, with white space before it. -/
def mark (c : Char) (cs : List Char) : Option (List Char) :=
  if (skipSpace cs).head? = some c then some (skipSpace cs).tail else none

mutual

/-- A value, with white space before it. -/
def value : Nat → List Char → Option (Value × List Char)
  | 0, _ => none
  | fuel + 1, cs =>
    match (skipSpace cs).head? with
    | some '\x7b' =>
      match mark '\x7d' (skipSpace cs).tail with
      | some rest => some (.object [], rest)
      | none => (members fuel (skipSpace cs).tail).map (Prod.map Value.object id)
    | some '[' =>
      match mark ']' (skipSpace cs).tail with
      | some rest => some (.array [], rest)
      | none => (elements fuel (skipSpace cs).tail).map (Prod.map Value.array id)
    | some '"' => (string (skipSpace cs)).map (Prod.map Value.string id)
    | some 't' => literal "true" (.bool true) (skipSpace cs)
    | some 'f' => literal "false" (.bool false) (skipSpace cs)
    | some 'n' => literal "null" .null (skipSpace cs)
    | _ => number (skipSpace cs)

/-- The values of an array that has some, and its closing bracket. -/
def elements : Nat → List Char → Option (List Value × List Char)
  | 0, _ => none
  | fuel + 1, cs => do
    let (v, cs) ← value fuel cs
    match mark ',' cs with
    | some cs => (elements fuel cs).map (Prod.map (v :: ·) id)
    | none => (mark ']' cs).map fun cs => ([v], cs)

/-- The members of an object that has some, and its closing brace. -/
def members : Nat → List Char → Option (List (String × Value) × List Char)
  | 0, _ => none
  | fuel + 1, cs => do
    let (name, cs) ← string (skipSpace cs)
    let cs ← mark ':' cs
    let (v, cs) ← value fuel cs
    match mark ',' cs with
    | some cs => (members fuel cs).map (Prod.map ((name, v) :: ·) id)
    | none => (mark '\x7d' cs).map fun cs => ([(name, v)], cs)

end

/-- A text is one value, with white space around it. -/
def parse (text : String) : Option Value := do
  let (v, rest) ← value (text.toList.length + 1) text.toList
  if skipSpace rest = [] then some v else none

/-! ## How a value is written -/

/-- What may follow a value: a number does not go on. -/
def Stops (rest : List Char) : Prop :=
  ∀ c, rest.head? = some c → c.isDigit = false ∧ c ≠ '.' ∧ c ≠ 'e' ∧ c ≠ 'E'

/-- The text is the value, wherever it stands. -/
def Spells (text : String) (v : Value) : Prop :=
  ∀ fuel rest, text.toList.length < fuel → Stops rest →
    value fuel (text.toList ++ rest) = some (v, rest)

/-- The text is the characters, wherever a string has it. -/
def SpellsString (text : String) (cs : List Char) : Prop :=
  ∀ fuel rest, text.toList.length < fuel →
    characters fuel (text.toList ++ '"' :: rest) = some (cs, rest)

theorem Spells.parse {text : String} {v : Value} (h : Spells text v) : parse text = some v := by
  have hvalue := h (text.toList.length + 1) [] (Nat.lt_succ_self _) (by simp [Stops])
  rw [List.append_nil] at hvalue
  rw [Json.parse, hvalue]
  rfl

theorem skipSpace_cons {c : Char} (h : isSpace c = false) (cs : List Char) :
    skipSpace (c :: cs) = c :: cs :=
  List.dropWhile_cons_of_neg (by simp [h])

theorem mark_self {c : Char} (h : isSpace c = false) (cs : List Char) :
    mark c (c :: cs) = some cs := by
  rw [mark, skipSpace_cons h]
  exact if_pos rfl

/-! ### Numbers -/

theorem digits_append {ds rest : List Char} (hds : ∀ c ∈ ds, c.isDigit = true) (hne : ds ≠ [])
    (hrest : Stops rest) : digits (ds ++ rest) = some (ds, rest) := by
  have hnone : rest.takeWhile Char.isDigit = [] ∧ rest.dropWhile Char.isDigit = rest := by
    cases rest with
    | nil => exact ⟨rfl, rfl⟩
    | cons c rest =>
      have hc := (hrest c rfl).1
      exact ⟨List.takeWhile_cons_of_neg (by simp [hc]), List.dropWhile_cons_of_neg (by simp [hc])⟩
  rw [digits, List.takeWhile_append_of_pos hds, List.dropWhile_append_of_pos hds, hnone.1, hnone.2,
    List.append_nil, if_neg hne]

/-- Only zero is written with a zero in front. -/
theorem toDigits_zero_head {n : Nat} (h : (Nat.toDigits 10 n).head? = some '0') : n = 0 := by
  induction n using Nat.strongRecOn with
  | _ n ih =>
    rw [Nat.toDigits_eq_if (by decide)] at h
    split at h
    · next hn =>
      have hdigits : ∀ d < 10, some (Nat.digitChar d) = some '0' → d = 0 := by decide
      exact hdigits n hn h
    · next hn =>
      rw [List.head?_append_of_ne_nil _ Nat.toDigits_ne_nil] at h
      have := ih (n / 10) (by omega) h
      omega

theorem magnitude_spelled (n : Nat) {rest : List Char} (hrest : Stops rest) :
    magnitude (Nat.toDigits 10 n ++ rest) = some ((n, 0), rest) := by
  have hdigits := digits_append
    (fun c hc => Nat.isDigit_of_mem_toDigits (by decide) (by decide) hc)
    (Nat.toDigits_ne_nil (n := n) (b := 10)) hrest
  have hzero : ¬ ((Nat.toDigits 10 n).head? = some '0' ∧ Nat.toDigits 10 n ≠ ['0']) := by
    rintro ⟨hhead, hne⟩
    rw [toDigits_zero_head hhead] at hne
    exact hne rfl
  have hfraction : fraction rest = some ([], rest) := if_neg fun h => (hrest _ h).2.1 rfl
  have hexponent : exponent rest = some (0, rest) := by
    refine if_neg ?_
    rintro (h | h)
    exacts [(hrest _ h).2.2.1 rfl, (hrest _ h).2.2.2 rfl]
  rw [magnitude, hdigits]
  simp only [Option.bind_eq_bind, Option.bind_some]
  rw [if_neg hzero, hfraction]
  simp only [Option.bind_some, hexponent]
  rw [List.append_nil, Nat.ofDigitChars_ten_toDigits]
  rfl

theorem mem_digits {c : Char} (h : c.isDigit = true) : c ∈ "0123456789".toList := by
  have hall : ∀ n < 58, 48 ≤ n → Char.ofNat n ∈ "0123456789".toList := by decide
  obtain ⟨hlow, hhigh⟩ := Char.isDigit_iff_toNat.mp h
  rw [← Char.ofNat_toNat c]
  exact hall _ (Nat.lt_succ_of_le hhigh) hlow

/-- What a number begins with. -/
theorem value_number {c : Char} (hc : c = '-' ∨ c.isDigit = true) (fuel : Nat) (cs : List Char) :
    value (fuel + 1) (c :: cs) = number (c :: cs) := by
  have hmem : c ∈ "-0123456789".toList :=
    List.mem_cons.mpr (hc.imp_right mem_digits)
  have hall : ("-0123456789".toList.all fun c => !isSpace c &&
      !List.contains ['\x7b', '[', '"', 't', 'f', 'n'] c) = true := by decide
  obtain ⟨hspace, hother⟩ : isSpace c = false ∧ c ∉ ['\x7b', '[', '"', 't', 'f', 'n'] := by
    simpa only [Bool.and_eq_true, Bool.not_eq_true', List.contains_eq_mem, decide_eq_false_iff_not]
      using List.all_eq_true.mp hall c hmem
  rw [value, skipSpace_cons hspace, List.head?_cons]
  split <;> simp_all

theorem spells_nat (n : Nat) : Spells n.repr (.number n 0) := by
  intro fuel rest hfuel hrest
  cases fuel with
  | zero => exact absurd hfuel (Nat.not_lt_zero _)
  | succ fuel =>
    rw [Nat.toList_repr]
    have hmagnitude := magnitude_spelled n hrest
    cases hdigits : Nat.toDigits 10 n with
    | nil => exact absurd hdigits Nat.toDigits_ne_nil
    | cons c ds =>
      have hc : c.isDigit = true :=
        Nat.isDigit_of_mem_toDigits (by decide) (by decide) (hdigits ▸ List.mem_cons_self)
      have hsign : ¬ some c = some '-' := by
        rintro ⟨⟩
        exact absurd hc (by decide)
      rw [hdigits, List.cons_append] at hmagnitude
      rw [List.cons_append, value_number (.inr hc), number, List.head?_cons, if_neg hsign,
        hmagnitude]
      rfl

theorem spells_int (i : Int) : Spells (toString i) (.number i 0) := by
  cases i with
  | ofNat n => exact spells_nat n
  | negSucc n =>
    intro fuel rest hfuel hrest
    cases fuel with
    | zero => exact absurd hfuel (Nat.not_lt_zero _)
    | succ fuel =>
      have htext : (toString (Int.negSucc n)).toList ++ rest =
          '-' :: (Nat.toDigits 10 (n + 1) ++ rest) := by
        change ("-" ++ (n + 1).repr).toList ++ rest = _
        rw [String.toList_append, Nat.toList_repr]
        rfl
      rw [htext, value_number (.inl rfl), number, List.head?_cons, if_pos rfl, List.tail_cons,
        magnitude_spelled _ hrest]
      rfl

/-! ### Strings -/

theorem spellsString_nil : SpellsString "" [] := by
  intro fuel rest hfuel
  cases fuel with
  | zero => exact absurd hfuel (Nat.not_lt_zero _)
  | succ fuel => rfl

/-- A character in front. -/
theorem SpellsString.append {text : String} {cs : List Char} (h : SpellsString text cs)
    {c : Char} {spelling : String} (hquote : spelling.toList.head? ≠ some '"')
    (hspelling : ∀ rest, character (spelling.toList ++ rest) = some (c, rest)) :
    SpellsString (spelling ++ text) (c :: cs) := by
  intro fuel rest hfuel
  have hne : spelling.toList ≠ [] := by
    intro hnil
    have := hspelling []
    rw [hnil] at this
    cases this
  rw [String.toList_append, List.length_append] at hfuel
  have hpos := List.length_pos_iff.mpr hne
  cases fuel with
  | zero => exact absurd hfuel (Nat.not_lt_zero _)
  | succ fuel =>
    rw [String.toList_append, List.append_assoc, characters, List.head?_append_of_ne_nil _ hne,
      if_neg hquote, hspelling]
    simp only [Option.bind_eq_bind, Option.bind_some]
    rw [h fuel rest (by omega)]
    rfl

theorem string_spelled {text : String} {cs : List Char} (h : SpellsString text cs)
    (rest : List Char) :
    string ('"' :: (text.toList ++ '"' :: rest)) = some (String.ofList cs, rest) := by
  rw [string, List.head?_cons, if_pos rfl, List.tail_cons, h _ rest]
  · rfl
  · simp only [List.length_cons, List.length_append]
    omega

theorem spells_string {text : String} {cs : List Char} (h : SpellsString text cs) :
    Spells ("\"" ++ text ++ "\"") (.string (String.ofList cs)) := by
  intro fuel rest hfuel _
  cases fuel with
  | zero => exact absurd hfuel (Nat.not_lt_zero _)
  | succ fuel =>
    have htext : ("\"" ++ text ++ "\"").toList ++ rest = '"' :: (text.toList ++ '"' :: rest) := by
      simp
    rw [htext, value, skipSpace_cons (by decide), List.head?_cons, string_spelled h]
    rfl

/-! ### Words -/

theorem spells_null : Spells "null" .null := by
  intro fuel rest hfuel _
  cases fuel with
  | zero => exact absurd hfuel (Nat.not_lt_zero _)
  | succ fuel => rfl

theorem spells_bool (b : Bool) : Spells (toString b) (.bool b) := by
  intro fuel rest hfuel _
  cases fuel with
  | zero => exact absurd hfuel (Nat.not_lt_zero _)
  | succ fuel => cases b <;> rfl

/-! ### Objects -/

/-- A member: its name as written, its name, its value as written and its value. -/
structure Member where
  nameText : String
  name : String
  valueText : String
  value : Value

def Member.text (m : Member) : String := "\"" ++ m.nameText ++ "\"" ++ ":" ++ m.valueText

def Member.member (m : Member) : String × Value := (m.name, m.value)

structure Member.Spelled (m : Member) : Prop where
  name : SpellsString m.nameText m.name.toList
  value : Spells m.valueText m.value

theorem stops_comma (rest : List Char) : Stops (',' :: rest) := by
  rintro c ⟨⟩
  decide

theorem stops_brace (rest : List Char) : Stops ('\x7d' :: rest) := by
  rintro c ⟨⟩
  decide

/-- One member, up to the mark after it. -/
theorem member_spelled {m : Member} (h : m.Spelled) {fuel : Nat} {rest : List Char}
    (hfuel : m.text.toList.length ≤ fuel) (hrest : Stops rest) :
    members (fuel + 1) (m.text.toList ++ rest) =
      match mark ',' rest with
      | some cs => (members fuel cs).map (Prod.map (m.member :: ·) id)
      | none => (mark '\x7d' rest).map fun cs => ([m.member], cs) := by
  have htext : m.text.toList ++ rest =
      '"' :: (m.nameText.toList ++ '"' :: ':' :: (m.valueText.toList ++ rest)) := by
    simp [Member.text]
  have hshort : m.valueText.toList.length < fuel := by
    have := congrArg List.length htext
    simp only [List.length_append, List.length_cons] at this
    omega
  rw [htext, members, skipSpace_cons (by decide), string_spelled h.name]
  simp only [Option.bind_eq_bind, Option.bind_some]
  rw [mark_self (by decide)]
  simp only [Option.bind_some]
  rw [h.value fuel rest hshort hrest, String.ofList_toList]
  rfl

theorem members_spelled {ms : List Member} (h : ∀ m ∈ ms, m.Spelled) (hne : ms ≠ []) {fuel : Nat}
    {rest : List Char} (hfuel : (",".intercalate (ms.map Member.text)).toList.length < fuel) :
    members fuel ((",".intercalate (ms.map Member.text)).toList ++ '\x7d' :: rest) =
      some (ms.map Member.member, rest) := by
  induction ms generalizing fuel with
  | nil => exact absurd rfl hne
  | cons m ms ih =>
    obtain ⟨hm, hms⟩ := List.forall_mem_cons.mp h
    cases fuel with
    | zero => exact absurd hfuel (Nat.not_lt_zero _)
    | succ fuel =>
      cases ms with
      | nil =>
        rw [List.map_singleton, String.intercalate_singleton] at hfuel ⊢
        rw [member_spelled hm (Nat.le_of_lt_succ hfuel) (stops_brace rest)]
        rfl
      | cons n ms =>
        rw [List.map_cons, List.map_cons, String.intercalate_cons_cons, String.toList_append,
          String.toList_append, List.length_append, List.length_append] at hfuel
        have hshorter : (",".intercalate ((n :: ms).map Member.text)).toList.length < fuel := by
          have hcomma : ",".toList.length = 1 := rfl
          rw [List.map_cons]
          omega
        have htail := ih hms (List.cons_ne_nil n ms) hshorter
        rw [List.map_cons, List.map_cons, String.intercalate_cons_cons, String.toList_append,
          String.toList_append, List.append_assoc, List.append_assoc]
        refine (member_spelled hm (by omega) (stops_comma _)).trans ?_
        change (members fuel (_ ++ _)).map _ = _
        rw [List.nil_append, ← List.map_cons, htail]
        rfl

theorem spells_object {ms : List Member} (h : ∀ m ∈ ms, m.Spelled) :
    Spells ("\x7b" ++ ",".intercalate (ms.map Member.text) ++ "\x7d")
      (.object (ms.map Member.member)) := by
  intro fuel rest hfuel _
  have htext : ("\x7b" ++ ",".intercalate (ms.map Member.text) ++ "\x7d").toList ++ rest =
      '\x7b' :: ((",".intercalate (ms.map Member.text)).toList ++ '\x7d' :: rest) := by
    simp [String.toList_append]
  have hlength : (",".intercalate (ms.map Member.text)).toList.length + 2 < fuel := by
    have hbraces : "\x7b".toList.length = 1 ∧ "\x7d".toList.length = 1 := ⟨rfl, rfl⟩
    rw [String.toList_append, String.toList_append, List.length_append, List.length_append] at hfuel
    omega
  cases fuel with
  | zero => exact absurd hlength (Nat.not_lt_zero _)
  | succ fuel =>
    rw [htext, value, skipSpace_cons (by decide), List.head?_cons, List.tail_cons]
    cases ms with
    | nil => rfl
    | cons m ms =>
      -- The first name begins with a quotation mark, so the object is not empty.
      obtain ⟨cs, hcs⟩ :
          ∃ cs, (",".intercalate ((m :: ms).map Member.text)).toList = '"' :: cs := by
        cases ms with
        | nil => exact ⟨_, by simp [Member.text]; rfl⟩
        | cons n ms => exact ⟨_, by simp [Member.text]; rfl⟩
      have hopen : mark '\x7d' ((",".intercalate ((m :: ms).map Member.text)).toList ++
          '\x7d' :: rest) = none := by
        rw [hcs, List.cons_append, mark, skipSpace_cons (by decide)]
        rfl
      rw [hopen, members_spelled h (List.cons_ne_nil m ms) (by omega)]
      rfl

end Json
