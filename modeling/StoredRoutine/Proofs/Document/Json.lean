import Mathlib.Data.List.Basic
import Mathlib.Tactic.IntervalCases
import StoredRoutine.Document.Json
import StoredRoutine.Proofs.Document.Datum
import StoredRoutine.Proofs.Toml.Reader
import StoredRoutine.Toml.Text

/-!
# Reading JSON

A reader for the whole of JSON: blanks between all parts, every escape of a string with the pairs
of code units that stand for one character, numbers with a sign, a fraction and an exponent, and
nothing but the end after the value. It knows nothing of how documents are laid out.

What is written of a document is read as that document (`read?_text`).
-/

namespace StoredRoutine.Datum.Json

open Toml (Reader hexValue?)
open Toml.Reader

/-! ## Blanks and strings -/

/-- Characters that may stand between the parts of a text. -/
def isBlank (c : Char) : Bool := c == ' ' || c == '\t' || c == '\n' || c == '\r'

/-- Takes the blanks in front. -/
def blanks : Reader Unit := do
  let _ ← span isBlank

/-- Takes a hexadecimal digit, and gives its value. -/
def hexDigit : Reader Nat := do
  match hexValue? (← one fun _ => true) with
  | some value => return value
  | none => failure

/-- Takes a code unit of UTF-16 in four hexadecimal digits. -/
def codeUnit : Reader Nat := do
  let first ← hexDigit
  let second ← hexDigit
  let third ← hexDigit
  let fourth ← hexDigit
  return ((first * 16 + second) * 16 + third) * 16 + fourth

/-- Takes a character in one code unit, or in a pair of them of which both are escaped. -/
def codePoint : Reader Char := do
  let high ← codeUnit
  if 0xD800 ≤ high ∧ high < 0xDC00 then
    literal "\\u"
    let low ← codeUnit
    if 0xDC00 ≤ low ∧ low < 0xE000 then
      return Char.ofNat (0x10000 + (high - 0xD800) * 0x400 + (low - 0xDC00))
    else failure
  else if 0xDC00 ≤ high ∧ high < 0xE000 then failure
  else return Char.ofNat high

/-- Takes an escape sequence, and gives the character it stands for. -/
def escaped : Reader Char := do
  char '\\'
  match ← one fun _ => true with
  | '"' => return '"'
  | '\\' => return '\\'
  | '/' => return '/'
  | 'b' => return '\x08'
  | 'f' => return '\x0c'
  | 'n' => return '\n'
  | 'r' => return '\r'
  | 't' => return '\t'
  | 'u' => codePoint
  | _ => failure

/-- Takes a character that stands for itself, which controls do not. -/
def unescaped : Reader Char := one fun c => c != '"' && c != '\\' && decide (0x20 ≤ c.toNat)

/-- Takes a string. -/
def string : Reader String := do
  char '"'
  let content ← many (unescaped <|> escaped)
  char '"'
  return String.ofList content

/-! ## Numbers -/

/-- Takes one or more digits. -/
def digits : Reader (List Char) := do
  let first ← one Char.isDigit
  return first :: (← span Char.isDigit)

/-- Takes the digits of a whole number, which begin with a zero only if they are nothing else. -/
def whole : Reader (List Char) := do
  let first ← one Char.isDigit
  if first = '0' then return ['0'] else return first :: (← span Char.isDigit)

/-- Takes an exponent. -/
def exponent : Reader Int := do
  let _ ← one fun c => c == 'e' || c == 'E'
  let sign ← optional (one fun c => c == '+' || c == '-')
  let size := Nat.ofDigitChars 10 (← digits) 0
  return if sign = some '-' then -size else size

/-- Takes a number. -/
def number : Reader Datum := do
  let minus ← optional (char '-')
  let units ← whole
  let fraction ← optional (char '.' *> digits)
  let shift ← optional exponent
  let size := Nat.ofDigitChars 10 (units ++ fraction.getD []) 0
  let coefficient : Int := if minus.isSome then -size else size
  if fraction.isNone ∧ shift.isNone then return .integer coefficient
  else return .decimal coefficient (shift.getD 0 - (fraction.getD []).length)

/-! ## Values -/

/-- Takes the items of a list, given how to take one, and its closing bracket. -/
def items (value : Reader Datum) : Reader (List Datum) := do
  let items ← separated (char ',') (blanks *> value <* blanks)
  blanks
  char ']'
  return items

/-- Takes a field of an object. -/
def field (value : Reader Datum) : Reader (String × Datum) := do
  blanks
  let name ← string
  blanks
  char ':'
  blanks
  let value ← value
  blanks
  return (name, value)

/-- Takes the fields of an object, and its closing brace. -/
def fields (value : Reader Datum) : Reader (List (String × Datum)) := do
  let fields ← separated (char ',') (field value)
  blanks
  char '}'
  return fields

/-- Takes one of the words that stand for a value. -/
def word : Reader Datum :=
  (do literal "null"; return .null)
    <|> (do literal "true"; return .bool true)
    <|> (do literal "false"; return .bool false)

/-- Takes a value in which fewer than `levels` lists and objects are open at any time. -/
def value : Nat → Reader Datum
  | 0 => failure
  | levels + 1 =>
    word
      <|> (do return .string (← string))
      <|> (do char '['; return .list (← items (value levels)))
      <|> (do char '{'; return .object (← fields (value levels)))
      <|> number

/-- Takes a whole text. -/
def document (levels : Nat) : Reader Datum := blanks *> value levels <* blanks <* atEnd

/-- The datum that a text says, or nothing if it is not valid. No more lists and objects can be
open at any time than the text has characters. -/
def read? (text : String) : Option Datum :=
  (document (text.toList.length + 1) text.toList).map (·.1)

/-- The datum that bytes say in UTF-8. -/
def decode? (bytes : List UInt8) : Option Datum := do
  read? (← String.fromUTF8? bytes.toByteArray)

/-! ## Strings are read back -/

open Document.Json (print escape quote newline)

variable {c : Char} {rest : List Char}

theorem hexDigit_cons {n : Nat} (h : n < 16) (rest : List Char) :
    hexDigit (Document.Json.hexDigit n :: rest) = some (n, rest) := by
  have value : hexValue? (Document.Json.hexDigit n) = some n := by
    interval_cases n <;> rfl
  rw [hexDigit, run_bind _ (one_cons rfl), value]
  rfl

theorem escaped_cons (c : Char) (rest : List Char) (f : Char → Reader Char) :
    (char '\\' >>= fun _ => one (fun _ => true) >>= f) ('\\' :: c :: rest) = f c rest := by
  rw [run_bind _ (char_cons _ _), run_bind _ (one_cons rfl)]

/-- The escape of a control character that has no letter. -/
theorem codePoint_control (h : c.toNat < 0x20) (rest : List Char) :
    codePoint ('0' :: '0' :: Document.Json.hexDigit (c.toNat / 16) ::
      Document.Json.hexDigit (c.toNat % 16) :: rest) = some (c, rest) := by
  have zero (rest : List Char) : hexDigit ('0' :: rest) = some (0, rest) :=
    hexDigit_cons (n := 0) (by decide) rest
  have unit : codeUnit ('0' :: '0' :: Document.Json.hexDigit (c.toNat / 16) ::
      Document.Json.hexDigit (c.toNat % 16) :: rest) = some (c.toNat, rest) := by
    rw [codeUnit, run_bind _ (zero _), run_bind _ (zero _),
      run_bind _ (hexDigit_cons (by omega) _), run_bind _ (hexDigit_cons (by omega) _), run_pure]
    congr 2
    omega
  rw [codePoint, run_bind _ unit, if_neg (by omega), if_neg (by omega), run_pure,
    Char.ofNat_toNat]

/-- A character is read from the way it is written. -/
theorem character_escape (c : Char) (rest : List Char) :
    (unescaped <|> escaped) (escape c ++ rest) = some (c, rest) := by
  have skip (s : List Char) : (unescaped <|> escaped) ('\\' :: s) = escaped ('\\' :: s) :=
    run_orElse_of_none (one_cons_of_not (by decide))
  unfold escape
  split_ifs with h₁ h₂ h₃ h₄ h₅ h₆ h₇ h₈
  · subst h₁
    exact (skip _).trans (escaped_cons _ _ _)
  · subst h₂
    exact (skip _).trans (escaped_cons _ _ _)
  · subst h₃
    exact (skip _).trans (escaped_cons _ _ _)
  · subst h₄
    exact (skip _).trans (escaped_cons _ _ _)
  · subst h₅
    exact (skip _).trans (escaped_cons _ _ _)
  · subst h₆
    exact (skip _).trans (escaped_cons _ _ _)
  · subst h₇
    exact (skip _).trans (escaped_cons _ _ _)
  · exact (skip _).trans ((escaped_cons _ _ _).trans (codePoint_control h₈ rest))
  · refine run_orElse (one_cons ?_)
    simp [h₁, h₂, Nat.not_lt.1 h₈]

theorem length_escape_pos (c : Char) : 0 < (escape c).length := by
  unfold escape
  split_ifs <;> simp

theorem many_flatMap_escape (content rest : List Char) :
    many (unescaped <|> escaped) (content.flatMap escape ++ '"' :: rest)
      = some (content, '"' :: rest) := by
  induction content with
  | nil => exact many_of_none rfl
  | cons c content ih =>
    rw [List.flatMap_cons, List.append_assoc]
    refine many_cons (character_escape c _) ?_ ih
    have := length_escape_pos c
    simp only [List.length_append]
    omega

/-- A string is read from the way it is written. -/
theorem string_quote (s : String) (rest : List Char) :
    string (quote s ++ rest) = some (s, rest) := by
  have content := many_flatMap_escape s.toList rest
  simp only [quote, List.cons_append, List.append_assoc, List.nil_append]
  rw [string, run_bind _ (char_cons _ _), run_bind _ content, run_bind _ (char_cons _ _),
    run_pure, String.ofList_toList]

/-! ## Numbers are read back -/

/-- What stands behind a value in the text of a document: nothing, a comma, or the end of a
line. None of them can be part of a number. -/
def Follows (rest : List Char) : Prop := ∀ c, rest.head? = some c → c = ',' ∨ c = '\n'

theorem one_of_follows {test : Char → Bool} (follows : Follows rest) (comma : test ',' = false)
    (line : test '\n' = false) : one test rest = none := by
  cases rest with
  | nil => rfl
  | cons c rest =>
    rcases follows c rfl with rfl | rfl
    · exact one_cons_of_not comma
    · exact one_cons_of_not line

/-- The digits of a number begin with a zero only if the number is zero. -/
theorem eq_zero_of_head?_toDigits (n : Nat) (h : (Nat.toDigits 10 n).head? = some '0') :
    n = 0 := by
  induction n using Nat.strongRecOn with
  | ind n ih =>
    by_cases small : n < 10
    · rw [Nat.toDigits_of_lt_base small] at h
      interval_cases n <;> first | rfl | exact absurd h (by decide)
    · rw [Nat.toDigits_of_base_le (by decide) (by omega),
        List.head?_append_of_ne_nil _ Nat.toDigits_ne_nil] at h
      have := ih (n / 10) (by omega) h
      omega

theorem whole_toDigits (n : Nat) (follows : Follows rest) :
    whole (Nat.toDigits 10 n ++ rest) = some (Nat.toDigits 10 n, rest) := by
  have digit {c : Char} (hc : c ∈ Nat.toDigits 10 n) : c.isDigit = true :=
    Nat.isDigit_of_mem_toDigits (by decide) (by decide) hc
  have zero := eq_zero_of_head?_toDigits n
  have value := Nat.toDigits_zero 10
  cases split : Nat.toDigits 10 n with
  | nil => exact absurd split Nat.toDigits_ne_nil
  | cons first others =>
    rw [split] at digit zero
    rw [List.cons_append, whole, run_bind _ (one_cons (digit (by simp)))]
    by_cases leading : first = '0'
    · obtain rfl := zero (by simp [leading])
      obtain ⟨rfl, rfl⟩ := List.cons.inj (split.symm.trans value)
      rfl
    · have spanned : span Char.isDigit (others ++ rest) = some (others, rest) := by
        refine span_append (fun c hc => digit (List.mem_cons_of_mem _ hc)) fun c hc => ?_
        rcases follows c hc with rfl | rfl <;> rfl
      rw [if_neg leading, run_bind _ spanned, run_pure]

/-- A number is read from its digits. -/
theorem number_toDigits (n : Nat) (follows : Follows rest) :
    number (Nat.toDigits 10 n ++ rest) = some (.integer n, rest) := by
  have minus : optional (char '-') (Nat.toDigits 10 n ++ rest)
      = some (none, Nat.toDigits 10 n ++ rest) := by
    refine run_optional_of_none ?_
    cases split : Nat.toDigits 10 n with
    | nil => exact absurd split Nat.toDigits_ne_nil
    | cons first others =>
      refine char_cons_of_ne ?_
      rintro rfl
      have := Nat.isDigit_of_mem_toDigits (b := 10) (n := n) (by decide) (by decide)
        (split ▸ List.mem_cons_self)
      exact absurd this (by decide)
  have fraction : optional (char '.' *> digits) rest = some (none, rest) :=
    run_optional_of_none
      (run_bind_of_none _ (run_bind_of_none _ (one_of_follows follows (by decide) (by decide))))
  have shift : optional exponent rest = some (none, rest) :=
    run_optional_of_none (run_bind_of_none _ (one_of_follows follows (by decide) (by decide)))
  rw [number, run_bind _ minus, run_bind _ (whole_toDigits n follows), run_bind _ fraction,
    run_bind _ shift]
  simp [Nat.ofDigitChars_ten_toDigits]

/-! ## The layout of lists and objects -/

/-- What stands inside of the brackets of a list and of the braces of an object: each part on a
line of its own. -/
def lines (indent : Nat) : List (List Char) → List Char
  | [] => []
  | first :: others =>
    newline (indent + 1) ++ first
      ++ others.flatMap (fun part => ',' :: newline (indent + 1) ++ part) ++ newline indent

/-- A field as it is written on its line. -/
def fieldText (indent : Nat) (field : String × Document) : List Char :=
  quote field.1 ++ [':', ' '] ++ print indent field.2

theorem printItems_eq_flatMap (indent : Nat) : ∀ items,
    Document.Json.printItems indent items
      = items.flatMap fun d => ',' :: newline indent ++ print indent d
  | [] => rfl
  | item :: items => by
    rw [Document.Json.printItems, printItems_eq_flatMap indent items, List.flatMap_cons]

theorem printFields_eq_flatMap (indent : Nat) : ∀ fields,
    Document.Json.printFields indent fields
      = fields.flatMap fun f => ',' :: newline indent ++ fieldText indent f
  | [] => rfl
  | (name, value) :: fields => by
    rw [Document.Json.printFields, printFields_eq_flatMap indent fields, List.flatMap_cons]
    simp [fieldText]

theorem print_list (indent : Nat) (items : List Document) :
    print indent (.list items) = '[' :: lines indent (items.map (print (indent + 1))) ++ [']'] := by
  cases items with
  | nil => rfl
  | cons first others => simp [print, lines, printItems_eq_flatMap, List.flatMap_map]

theorem print_object (indent : Nat) (fields : List (String × Document)) :
    print indent (.object fields)
      = '\x7b' :: lines indent (fields.map (fieldText (indent + 1))) ++ ['\x7d'] := by
  cases fields with
  | nil => rfl
  | cons first others => simp [print, lines, printFields_eq_flatMap, List.flatMap_map, fieldText]

theorem length_le_length_lines (indent : Nat) {part : List Char} {parts : List (List Char)}
    (h : part ∈ parts) : part.length ≤ (lines indent parts).length := by
  cases parts with
  | nil => cases h
  | cons first others =>
    rcases List.mem_cons.1 h with rfl | h
    · simp only [lines, List.length_append]
      omega
    · have := (List.sublist_flatten_of_mem (List.mem_map_of_mem
        (f := fun part => ',' :: newline (indent + 1) ++ part) h)).length_le
      simp only [lines, List.length_append, List.flatMap, List.length_cons] at this ⊢
      omega

/-! ## Blanks are passed over -/

theorem run_blanks (s : List Char) : blanks s = some ((), s.dropWhile isBlank) := rfl

theorem dropWhile_newline (indent : Nat) (s : List Char) :
    (newline indent ++ s).dropWhile isBlank = s.dropWhile isBlank := by
  refine List.dropWhile_append_of_pos fun c hc => ?_
  rcases List.mem_cons.1 hc with rfl | hc
  · rfl
  · obtain ⟨-, rfl⟩ := List.mem_replicate.1 hc
    rfl

theorem dropWhile_of_head {c : Char} {s t : List Char} (h : isBlank c = false) :
    (c :: s ++ t).dropWhile isBlank = c :: s ++ t := by
  simp [h]

/-- The reader takes the part on its line, with the blanks in front of it and behind. -/
def TakesLine {α : Type} (item : Reader α) (indent : Nat) (part : List Char) (value : α) : Prop :=
  ∀ more, Follows more →
    item (newline indent ++ part ++ more) = some (value, more.dropWhile isBlank)

section Lines

variable {α β : Type} {item : Reader α} {part : β → List Char} {value : β → α} {close : Char}
  {indent : Nat}

theorem dropWhile_close (blank : isBlank close = false) :
    (newline indent ++ close :: rest).dropWhile isBlank = close :: rest := by
  rw [dropWhile_newline]
  exact dropWhile_of_head (s := []) blank

/-- The lines after the first, each of which a comma stands in front of, and the closing mark. -/
theorem many_lines (blank : isBlank close = false) (comma : close ≠ ',') (xs : List β)
    (each : ∀ x ∈ xs, TakesLine item (indent + 1) (part x) (value x)) (rest : List Char) :
    let text := xs.flatMap (fun x => ',' :: newline (indent + 1) ++ part x)
      ++ (newline indent ++ close :: rest)
    Follows text
      ∧ many (char ',' *> item) (text.dropWhile isBlank) = some (xs.map value, close :: rest) := by
  induction xs with
  | nil =>
    refine ⟨fun c hc => .inr (Option.some.inj hc).symm, ?_⟩
    rw [List.flatMap_nil, List.nil_append, dropWhile_close blank]
    exact many_of_none (run_bind_of_none _ (char_cons_of_ne comma))
  | cons x xs ih =>
    obtain ⟨follows, read⟩ := ih fun y hy => each y (List.mem_cons_of_mem _ hy)
    refine ⟨fun c hc => .inl (Option.some.inj hc).symm, ?_⟩
    have taken := each x List.mem_cons_self _ follows
    have shorter := (List.dropWhile_sublist isBlank (l := xs.flatMap
      (fun x => ',' :: newline (indent + 1) ++ part x)
        ++ (newline indent ++ close :: rest))).length_le
    simp only [List.flatMap_cons, List.cons_append, List.append_assoc] at taken ⊢
    rw [List.dropWhile_cons_of_neg (by decide)]
    refine many_cons ((run_seqRight (char_cons _ _)).trans taken) ?_ read
    simp only [List.length_cons, List.length_append, List.cons_append] at shorter ⊢
    omega

/-- Parts that are taken line by line are read from their lines together. -/
theorem separated_lines (blank : isBlank close = false) (comma : close ≠ ',')
    (empty : item (close :: rest) = none) (xs : List β)
    (each : ∀ x ∈ xs, TakesLine item (indent + 1) (part x) (value x)) :
    separated (char ',') item (lines indent (xs.map part) ++ close :: rest)
      = some (xs.map value, close :: rest) := by
  cases xs with
  | nil => exact run_bind _ (run_optional_of_none empty)
  | cons x xs =>
    obtain ⟨follows, read⟩ := many_lines blank comma xs
      (fun y hy => each y (List.mem_cons_of_mem _ hy)) rest
    have text : lines indent ((x :: xs).map part) ++ close :: rest
        = newline (indent + 1) ++ part x ++
          (xs.flatMap (fun x => ',' :: newline (indent + 1) ++ part x)
            ++ (newline indent ++ close :: rest)) := by
      simp [lines, List.flatMap_map]
    rw [text, separated, run_bind _ (run_optional (each x List.mem_cons_self _ follows))]
    exact run_bind _ read

end Lines

/-! ## Values are read back -/

/-- The text of a value begins with a character that is not blank. -/
theorem exists_print_eq_cons (indent : Nat) (d : Document) :
    ∃ c s, print indent d = c :: s ∧ isBlank c = false := by
  cases d with
  | null => exact ⟨_, _, rfl, rfl⟩
  | bool b => cases b <;> exact ⟨_, _, rfl, rfl⟩
  | nat n =>
    cases split : Nat.toDigits 10 n with
    | nil => exact absurd split Nat.toDigits_ne_nil
    | cons c s =>
      have digit := Nat.isDigit_of_mem_toDigits (b := 10) (n := n) (by decide) (by decide)
        (split ▸ List.mem_cons_self)
      refine ⟨c, s, by rw [print, split], ?_⟩
      simp only [isBlank, Bool.or_eq_false_iff, beq_eq_false_iff_ne]
      refine ⟨⟨⟨?_, ?_⟩, ?_⟩, ?_⟩ <;> rintro rfl <;> exact absurd digit (by decide)
  | string s => exact ⟨_, _, rfl, rfl⟩
  | list items => exact ⟨_, _, print_list indent items, rfl⟩
  | object fields => exact ⟨_, _, print_object indent fields, rfl⟩

/-- A word is not taken off a text that begins differently. -/
theorem literal_cons_of_ne {text : String} {first : Char} {others : List Char}
    (split : text.toList = first :: others) (h : c ≠ first) (s : List Char) :
    literal text (c :: s) = none :=
  literal_of_head_ne split fun same => h (Option.some.inj same)

theorem word_of_head (null : c ≠ 'n') (true : c ≠ 't') (false : c ≠ 'f') (s : List Char) :
    word (c :: s) = none := by
  rw [word, run_orElse_of_none (run_bind_of_none _ (literal_cons_of_ne rfl null s)),
    run_orElse_of_none (run_bind_of_none _ (literal_cons_of_ne rfl true s)),
    run_bind_of_none _ (literal_cons_of_ne rfl false s)]

theorem word_null (rest : List Char) : word ("null".toList ++ rest) = some (.null, rest) :=
  run_orElse (run_bind _ (literal_append _ rest))

theorem word_true (rest : List Char) : word ("true".toList ++ rest) = some (.bool true, rest) := by
  have null : literal "null" ("true".toList ++ rest) = none :=
    literal_cons_of_ne (c := 't') rfl (by decide) _
  rw [word, run_orElse_of_none (run_bind_of_none _ null)]
  exact run_orElse (run_bind _ (literal_append _ rest))

theorem word_false (rest : List Char) :
    word ("false".toList ++ rest) = some (.bool false, rest) := by
  have null : literal "null" ("false".toList ++ rest) = none :=
    literal_cons_of_ne (c := 'f') rfl (by decide) _
  have true : literal "true" ("false".toList ++ rest) = none :=
    literal_cons_of_ne (c := 'f') rfl (by decide) _
  rw [word, run_orElse_of_none (run_bind_of_none _ null),
    run_orElse_of_none (run_bind_of_none _ true)]
  exact run_bind _ (literal_append _ rest)

theorem string_of_head_ne (h : c ≠ '"') (s : List Char) : string (c :: s) = none :=
  run_bind_of_none _ (char_cons_of_ne h)

/-- A line is taken with its value if the value is. -/
theorem takesLine_value {indent levels : Nat} {d : Document}
    (read : ∀ rest, Follows rest →
      value levels (print indent d ++ rest) = some (d.datum, rest)) :
    TakesLine (blanks *> value levels <* blanks) indent (print indent d) d.datum := by
  intro more follows
  obtain ⟨c, s, text, blank⟩ := exists_print_eq_cons indent d
  refine run_seqLeft ?_ (run_blanks more)
  rw [run_seqRight (run_blanks _), List.append_assoc, dropWhile_newline, text,
    dropWhile_of_head blank, ← text]
  exact read more follows

theorem takesLine_field {indent levels : Nat} {f : String × Document}
    (read : ∀ rest, Follows rest →
      value levels (print indent f.2 ++ rest) = some (f.2.datum, rest)) :
    TakesLine (field (value levels)) indent (fieldText indent f) (f.1, f.2.datum) := by
  intro more follows
  obtain ⟨c, s, text, blank⟩ := exists_print_eq_cons indent f.2
  have front : (newline indent ++ fieldText indent f ++ more).dropWhile isBlank
      = quote f.1 ++ (':' :: ' ' :: (print indent f.2 ++ more)) := by
    rw [List.append_assoc, dropWhile_newline]
    simp [fieldText, quote, isBlank]
  have colon : (':' :: ' ' :: (print indent f.2 ++ more)).dropWhile isBlank
      = ':' :: ' ' :: (print indent f.2 ++ more) := rfl
  have behind : (' ' :: (print indent f.2 ++ more)).dropWhile isBlank
      = print indent f.2 ++ more := by
    rw [List.dropWhile_cons_of_pos rfl, text, dropWhile_of_head blank]
  rw [field, run_bind _ (run_blanks _), front, run_bind _ (string_quote _ _),
    run_bind _ (run_blanks _), colon, run_bind _ (char_cons _ _), run_bind _ (run_blanks _),
    behind, run_bind _ (read more follows), run_bind _ (run_blanks _), run_pure]

theorem value_of_head (null : c ≠ 'n') (true : c ≠ 't') (false : c ≠ 'f') (quote : c ≠ '"')
    (levels : Nat) (s : List Char) :
    value (levels + 1) (c :: s)
      = ((do char '['; return .list (← items (value levels)))
        <|> (do char '\x7b'; return .object (← fields (value levels)))
        <|> number : Reader Datum) (c :: s) := by
  rw [value, run_orElse_of_none (word_of_head null true false s),
    run_orElse_of_none (run_bind_of_none _ (string_of_head_ne quote s))]

theorem value_of_isDigit (digit : c.isDigit = true) (levels : Nat) (s : List Char) :
    value (levels + 1) (c :: s) = number (c :: s) := by
  have other {d : Char} (h : d.isDigit = false) : c ≠ d := by
    rintro rfl
    exact absurd digit (by simp [h])
  rw [value_of_head (other rfl) (other rfl) (other rfl) (other rfl),
    run_orElse_of_none (run_bind_of_none _ (char_cons_of_ne (other rfl))),
    run_orElse_of_none (run_bind_of_none _ (char_cons_of_ne (other rfl)))]

/-- No value begins with the closing mark of a list. -/
theorem value_bracket (levels : Nat) (rest : List Char) : value levels (']' :: rest) = none := by
  cases levels with
  | zero => rfl
  | succ levels =>
    have minus : optional (char '-') (']' :: rest) = some (none, ']' :: rest) :=
      run_optional_of_none (char_cons_of_ne (by decide))
    rw [value_of_head (by decide) (by decide) (by decide) (by decide),
      run_orElse_of_none (run_bind_of_none _ (char_cons_of_ne (by decide))),
      run_orElse_of_none (run_bind_of_none _ (char_cons_of_ne (by decide))), number,
      run_bind _ minus]
    exact run_bind_of_none _ (run_bind_of_none _ (one_cons_of_not (by decide)))

theorem items_lines (indent levels : Nat) (rest : List Char) (xs : List Document)
    (each : ∀ x ∈ xs, TakesLine (blanks *> value levels <* blanks) (indent + 1)
      (print (indent + 1) x) x.datum) :
    items (value levels) (lines indent (xs.map (print (indent + 1))) ++ ']' :: rest)
      = some (xs.map Document.datum, rest) := by
  have empty : (blanks *> value levels <* blanks) (']' :: rest) = none :=
    run_bind_of_none _ (value_bracket levels rest)
  have inside := separated_lines (by decide) (by decide) empty xs each
  rw [items, run_bind _ inside, run_bind _ (run_blanks _),
    List.dropWhile_cons_of_neg (by decide), run_bind _ (char_cons _ _), run_pure]

theorem fields_lines (indent levels : Nat) (rest : List Char) (fs : List (String × Document))
    (each : ∀ f ∈ fs, TakesLine (field (value levels)) (indent + 1) (fieldText (indent + 1) f)
      (f.1, f.2.datum)) :
    fields (value levels) (lines indent (fs.map (fieldText (indent + 1))) ++ '\x7d' :: rest)
      = some (fs.map fun f => (f.1, f.2.datum), rest) := by
  have empty : field (value levels) ('\x7d' :: rest) = none :=
    (run_bind _ (run_blanks _)).trans
      (run_bind_of_none _ (string_of_head_ne (c := '\x7d') (by decide) rest))
  have inside := separated_lines (by decide) (by decide) empty fs each
  rw [fields, run_bind _ inside, run_bind _ (run_blanks _),
    List.dropWhile_cons_of_neg (by decide), run_bind _ (char_cons _ _), run_pure]

/-- A value is read from the text that is printed of it, whatever may follow it there. The
induction is on the lists and objects that may still be opened, of which each part needs less. -/
theorem value_print (levels : Nat) : ∀ (d : Document) (indent : Nat) (rest : List Char),
    (print indent d).length ≤ levels → Follows rest →
      value levels (print indent d ++ rest) = some (d.datum, rest) := by
  induction levels with
  | zero =>
    intro d indent rest enough
    obtain ⟨c, s, text, -⟩ := exists_print_eq_cons indent d
    rw [text] at enough
    exact absurd enough (by simp)
  | succ levels ih =>
    intro d indent rest enough follows
    cases d with
    | null => exact run_orElse (word_null rest)
    | bool b =>
      cases b with
      | true => exact run_orElse (word_true rest)
      | false => exact run_orElse (word_false rest)
    | nat n =>
      have read := number_toDigits n follows
      rw [print]
      cases split : Nat.toDigits 10 n with
      | nil => exact absurd split Nat.toDigits_ne_nil
      | cons c s =>
        have digit : c.isDigit = true :=
          Nat.isDigit_of_mem_toDigits (by decide) (by decide) (split ▸ List.mem_cons_self)
        rw [split] at read
        exact (value_of_isDigit digit levels _).trans read
    | string s =>
      have word : word (print indent (.string s) ++ rest) = none :=
        word_of_head (c := '"') (by decide) (by decide) (by decide) _
      rw [value, run_orElse_of_none word]
      exact run_orElse (run_bind _ (string_quote s rest))
    | list xs =>
      rw [print_list] at enough ⊢
      have taken := items_lines indent levels rest xs fun x hx =>
        takesLine_value fun rest => ih x (indent + 1) rest <| by
          have := length_le_length_lines indent
            (List.mem_map_of_mem (f := print (indent + 1)) hx)
          simp only [List.length_cons, List.length_append, List.length_nil] at enough
          omega
      simp only [List.cons_append, List.append_assoc, List.nil_append]
      rw [value_of_head (by decide) (by decide) (by decide) (by decide)]
      refine run_orElse ?_
      rw [run_bind _ (char_cons _ _), run_bind _ taken, run_pure, Document.datum,
        Document.datumOfItems_eq_map]
    | object fs =>
      rw [print_object] at enough ⊢
      have taken := fields_lines indent levels rest fs fun f hf =>
        takesLine_field fun rest => ih f.2 (indent + 1) rest <| by
          have := length_le_length_lines indent
            (List.mem_map_of_mem (f := fieldText (indent + 1)) hf)
          simp only [fieldText, List.length_cons, List.length_append, List.length_nil]
            at this enough
          omega
      simp only [List.cons_append, List.append_assoc, List.nil_append]
      rw [value_of_head (by decide) (by decide) (by decide) (by decide),
        run_orElse_of_none (run_bind_of_none _ (char_cons_of_ne (by decide)))]
      refine run_orElse ?_
      rw [run_bind _ (char_cons _ _), run_bind _ taken, run_pure, Document.datum,
        Document.datumOfFields_eq_map]

/-- The text of a document says what the document says, and nothing more. -/
theorem read?_text (d : Document) : read? (Document.Json.text d) = some d.datum := by
  obtain ⟨c, s, text, blank⟩ := exists_print_eq_cons 0 d
  have follows : Follows ['\n'] := fun c hc => .inr (Option.some.inj hc).symm
  have front : (print 0 d ++ ['\n']).dropWhile isBlank = print 0 d ++ ['\n'] := by
    rw [text, dropWhile_of_head blank]
  have behind : blanks ['\n'] = some ((), []) := rfl
  have ends : atEnd [] = some ((), []) := rfl
  have taken (levels : Nat) (enough : (print 0 d).length ≤ levels) :
      document levels (print 0 d ++ ['\n']) = some (d.datum, []) := by
    refine run_seqLeft (run_seqLeft ?_ behind) ends
    rw [run_seqRight (run_blanks _), front]
    exact value_print levels d 0 _ enough follows
  rw [read?, Document.Json.text, String.toList_ofList, taken _ (by simp; omega)]
  rfl

/-- The bytes of the text are read as the text is. -/
theorem decode?_text (d : Document) :
    decode? (Document.utf8 (Document.Json.text d)) = some d.datum := by
  rw [decode?, Document.fromUTF8?_utf8]
  exact read?_text d

end StoredRoutine.Datum.Json
