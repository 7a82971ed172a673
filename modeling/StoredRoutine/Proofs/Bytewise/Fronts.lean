import StoredRoutine.Declaration.Parser
import StoredRoutine.Proofs.Bytewise.Delimiters
import StoredRoutine.Proofs.Text.Cuts

/-!
# What a declaration begins with, by bytes

Keywords and identifiers are taken off the front of a text, and types are cut from what follows
them, with byte offsets that were measured beforehand: the length of a keyword, the place of a
quote, the first byte that no word has, or where a keyword was found. Each of them is between two
characters for a reason of its own.
-/

namespace StoredRoutine.Bytewise

open Source (byteLength byteLength_append byteLength_asciiLower)
open Text (isWordChar sameLetters trim trimStart)
open Delimited (offsetOf)
open String (utf8EncodeChar)

/-! ## Keywords -/

/-- Takes a keyword off the front, together with the blanks behind it. -/
def takeKeyword? (keyword s : List Char) : Checked (Option (List Char)) :=
  match slice? s 0 (byteLength keyword) with
  | none => return none
  | some front =>
    if sameLetters front keyword then do
      let rest ← sliceFrom s (byteLength keyword)
      if (bytes rest).head?.any fun b => isWordByte b || b == byte '"' then return none
      else return some (trimStart rest)
    else return none

/-- A byte that stands for the first character of a text. -/
theorem any_head?_bytes {test : UInt8 → Bool} {meaning : Char → Bool} (tells : Tells test meaning)
    (s : List Char) : (bytes s).head?.any test = s.head?.any meaning := by
  cases s with
  | nil => rfl
  | cons c s =>
    obtain ⟨b, rest, split, hb⟩ := exists_bytes_eq_cons c s
    rw [split]
    exact tells c b hb

theorem tells_or {test other : UInt8 → Bool} {meaning sense : Char → Bool}
    (h : Tells test meaning) (h' : Tells other sense) :
    Tells (fun b => test b || other b) (fun c => meaning c || sense c) := fun c b hb =>
  show (test b || other b) = (meaning c || sense c) by rw [h c b hb, h' c b hb]

theorem takeKeyword?_eq (keyword s : List Char) :
    takeKeyword? keyword s = .ok (Declaration.takeKeyword? keyword s) := by
  have starts := any_slice?_append [] s keyword
  rw [List.nil_append, Source.byteLength_nil, Nat.zero_add] at starts
  rw [takeKeyword?, Declaration.takeKeyword?, ← starts]
  cases found : slice? s 0 (byteLength keyword) with
  | none => rfl
  | some front =>
    obtain ⟨⟨rest, rfl⟩, size⟩ := (slice?_append [] s (byteLength keyword) front).1 (by
      rwa [List.nil_append, Source.byteLength_nil, Nat.zero_add])
    by_cases same : sameLetters front keyword = true
    · have length : keyword.length = front.length := by
        rw [← Text.length_asciiLower, ← Text.sameLetters_iff.1 same, Text.length_asciiLower]
      have blocked := any_head?_bytes (tells_or tells_word (tells_eq (d := '"') (by decide))) rest
      simp only [same, ↓reduceIte, ← size, sliceFrom_append, ok_bind, blocked, length,
        List.drop_left, Option.any_some, Bool.true_and]
      cases rest.head?.any fun c => isWordChar c || c == '"' <;> rfl
    · simp [same]

/-! ## Identifiers -/

/-- The byte offset of the first occurrence of a character. -/
def charOffset? (c : Char) (s : List Char) : Option Nat :=
  if c ∈ s then some (byteLength (s.takeWhile (· ≠ c))) else none

/-- Is it the byte of a digit? -/
def isDigitByte (b : UInt8) : Bool := byte '0' ≤ b && b ≤ byte '9'

/-- Takes the rest of a quoted identifier, behind its first quote, off the front. -/
def takeQuoted? (s : List Char) : Checked (Option (List Char × List Char)) :=
  match charOffset? '"' s with
  | none => return none
  | some stop =>
    if stop = 0 then return none
    else do
      let name ← sliceTo s stop
      let others ← sliceFrom s (stop + 1)
      return some (name, others)

/-- Takes a run of word characters off the front, unless a digit begins it. -/
def takeRun? (s : List Char) : Checked (Option (List Char × List Char)) := do
  let stop := ((bytes s).findIdx? (!isWordByte ·)).getD (byteLength s)
  if stop = 0 then return none
  else
    let first ← get (bytes s) 0
    if isDigitByte first then return none
    else
      let name ← sliceTo s stop
      let others ← sliceFrom s stop
      return some (name, others)

/-- Takes an identifier off the front: word characters of which the first is no digit, or any
characters between double quotes. -/
def takeIdentifier? (s : List Char) : Checked (Option (List Char × List Char)) :=
  match trimStart s with
  | [] => takeRun? []
  | c :: rest => if c = '"' then takeQuoted? rest else takeRun? (c :: rest)

theorem tells_digit : Tells isDigitByte Char.isDigit := by
  refine tells_of false (by decide) (fun b hb => ?_) (fun c hc => ?_)
  · have large : ¬ b ≤ byte '9' := fun le => by
      have small : b.toNat ≤ (byte '9').toNat := UInt8.le_iff_toNat_le.1 le
      exact absurd (Nat.le_trans hb small) (by decide)
    simp [isDigitByte, large]
  · have large : ¬ c.toNat ≤ '9'.toNat := fun le => absurd (Nat.le_trans hc le) (by decide)
    exact Bool.and_eq_false_imp.2 fun _ => decide_eq_false fun le => large le

theorem byteLength_eq_zero {s : List Char} : byteLength s = 0 ↔ s = [] := by
  cases s with
  | nil => simp
  | cons c s =>
    have positive := c.utf8Size_pos
    rw [Source.byteLength_cons]
    exact ⟨fun h => by omega, fun h => by cases h⟩

/-- The first byte that is no part of a word is behind the characters that are. -/
theorem findIdx?_bytes (s : List Char) :
    ((bytes s).findIdx? (!isWordByte ·)).getD (byteLength s)
      = byteLength (s.takeWhile isWordChar) := by
  rw [← length_bytes s, ← List.findIdx_eq_getD_findIdx?]
  induction s with
  | nil => rfl
  | cons c s ih =>
    by_cases word : isWordChar c = true
    · have all : ∀ b ∈ utf8EncodeChar c, (!isWordByte b) = false := fun b hb => by
        rw [tells_word c b hb, word, Bool.not_true]
      rw [bytes_cons, List.findIdx_append, List.findIdx_eq_length_of_false all,
        if_neg (Nat.lt_irrefl _), ih, List.takeWhile_cons_of_pos word, Source.byteLength_cons,
        String.length_utf8EncodeChar, Nat.add_comm]
    · obtain ⟨b, rest, split, hb⟩ := exists_bytes_eq_cons c s
      rw [split, List.findIdx_cons, tells_word c b hb, eq_false_of_ne_true word,
        List.takeWhile_cons_of_neg word]
      rfl

/-- The first occurrence of a character is behind the others. -/
theorem charOffset?_append {c : Char} {front : List Char} (h : c ∉ front) (back : List Char) :
    charOffset? c (front ++ c :: back) = some (byteLength front) := by
  have others : ∀ d ∈ front, decide (d ≠ c) = true := fun d hd =>
    decide_eq_true (ne_of_mem_of_not_mem hd h)
  rw [charOffset?, if_pos (by simp), List.takeWhile_append_of_pos others,
    List.takeWhile_cons_of_neg (by simp), List.append_nil]

/-- An identifier in quotes ends at the first quote. -/
theorem takeQuoted?_eq (rest : List Char) :
    takeQuoted? rest = .ok (match rest.takeWhile (· ≠ '"'), rest.dropWhile (· ≠ '"') with
      | [], _ | _, [] => none
      | name, _ :: others => some (name, others)) := by
  by_cases closed : '"' ∈ rest
  · obtain ⟨name, others, rfl, inside⟩ := List.eq_append_cons_of_mem closed
    have plain : ∀ c ∈ name, decide (c ≠ '"') = true := fun c hc =>
      decide_eq_true (ne_of_mem_of_not_mem hc inside)
    have behind := sliceFrom_append (name ++ ['"']) others
    rw [byteLength_append, List.append_assoc, List.singleton_append] at behind
    rw [takeQuoted?, charOffset?_append inside, List.takeWhile_append_of_pos plain,
      List.dropWhile_append_of_pos plain, List.takeWhile_cons_of_neg (by simp),
      List.dropWhile_cons_of_neg (by simp), List.append_nil]
    cases name with
    | nil => rfl
    | cons c name =>
      have long : byteLength (c :: name) ≠ 0 := mt byteLength_eq_zero.1 (List.cons_ne_nil _ _)
      simp only [if_neg long, sliceTo_append, ok_bind]
      exact congrArg (· >>= _) behind
  · have all : ∀ c ∈ rest, decide (c ≠ '"') = true := fun c hc =>
      decide_eq_true (ne_of_mem_of_not_mem hc closed)
    have behind : rest.dropWhile (· ≠ '"') = [] := by
      have dropped := @List.dropWhile_append_of_pos _ _ rest [] all
      rwa [List.append_nil] at dropped
    rw [takeQuoted?, charOffset?, if_neg closed, behind]
    cases rest.takeWhile (· ≠ '"') <;> rfl

theorem takeRun?_eq (c : Char) (rest : List Char) :
    takeRun? (c :: rest) = .ok (if isWordChar c && !c.isDigit then
      some (c :: rest.takeWhile isWordChar, rest.dropWhile isWordChar) else none) := by
  rw [takeRun?, findIdx?_bytes]
  by_cases word : isWordChar c = true
  · obtain ⟨b, hb, first⟩ := exists_get_bytes [] c rest
    have front :=
      sliceTo_append ((c :: rest).takeWhile isWordChar) ((c :: rest).dropWhile isWordChar)
    have behind :=
      sliceFrom_append ((c :: rest).takeWhile isWordChar) ((c :: rest).dropWhile isWordChar)
    rw [List.takeWhile_append_dropWhile, List.takeWhile_cons_of_pos word] at front behind
    rw [List.dropWhile_cons_of_pos word] at behind
    have long : byteLength (c :: rest.takeWhile isWordChar) ≠ 0 :=
      mt byteLength_eq_zero.1 (List.cons_ne_nil _ _)
    have here : get (bytes (c :: rest)) 0 = .ok b := first
    simp only [List.takeWhile_cons_of_pos word, if_neg long, here, ok_bind, tells_digit c b hb,
      front, behind, word, Bool.true_and, pure_eq_ok]
    cases c.isDigit <;> rfl
  · rw [List.takeWhile_cons_of_neg word, eq_false_of_ne_true word]
    rfl

theorem takeIdentifier?_eq (s : List Char) :
    takeIdentifier? s = .ok (Declaration.takeIdentifier? s) := by
  rw [takeIdentifier?, Declaration.takeIdentifier?]
  cases trimStart s with
  | nil => rfl
  | cons c rest =>
    by_cases quote : c = '"'
    · subst quote
      exact takeQuoted?_eq rest
    · simp only [if_neg quote]
      exact takeRun?_eq c rest

/-! ## Directions -/

/-- Takes a direction off the front, if one is written there. -/
def takeDirection (s : List Char) : Checked (Option Direction × List Char) := do
  match ← takeKeyword? "in".toList s with
  | some rest =>
    match ← takeKeyword? "out".toList rest with
    | some others => return (some .inOut, others)
    | none => return (some .into, rest)
  | none =>
    match ← takeKeyword? "out".toList s with
    | some rest => return (some .out, rest)
    | none => return (none, s)

theorem takeDirection_eq (s : List Char) :
    takeDirection s = .ok (Declaration.takeDirection s) := by
  rw [takeDirection, Declaration.takeDirection, takeKeyword?_eq, ok_bind]
  cases Declaration.takeKeyword? "in".toList s with
  | some rest =>
    dsimp only
    rw [takeKeyword?_eq, ok_bind]
    cases Declaration.takeKeyword? "out".toList rest <;> rfl
  | none =>
    dsimp only
    rw [takeKeyword?_eq, ok_bind]
    cases Declaration.takeKeyword? "out".toList s <;> rfl

/-! ## Types and expressions -/

/-- The text before a place, and the text behind what begins there and is `size` bytes long, both
trimmed. -/
def cutAt (s : List Char) (place size : Nat) : Checked (List Char × Option (List Char)) := do
  let type ← sliceTo s place
  let value ← sliceFrom s (place + size)
  return (trim type, some (trim value))

/-- The text before the first place where an expression is assigned, and the expression. -/
def splitDefault (s : List Char) : Checked (List Char × Option (List Char)) := do
  let assign := ":=".toList
  let default := "default".toList
  let assigned ← findSequence? s assign
  let defaulted ← findKeyword? s default
  match assigned, defaulted with
  | some i, some j =>
    if i < j then cutAt s i (byteLength assign) else cutAt s j (byteLength default)
  | some i, none => cutAt s i (byteLength assign)
  | none, some j => cutAt s j (byteLength default)
  | none, none => return (trim s, none)

theorem cutAt_offsetOf {s word : List Char} {i : Nat}
    (h : byteLength ((s.drop i).take word.length) = byteLength word) :
    cutAt s (offsetOf s i) (byteLength word)
      = .ok (trim (s.take i), some (trim (s.drop (i + word.length)))) := by
  rw [cutAt, sliceTo_offsetOf, ok_bind, ← h, ← offsetOf_add, sliceFrom_offsetOf]
  rfl

theorem cutAt_of_findSequence? {sequence s : List Char} {i : Nat}
    (h : Text.findSequence? sequence s = some i) :
    cutAt s (offsetOf s i) (byteLength sequence)
      = .ok (trim (s.take i), some (trim (s.drop (i + sequence.length)))) := by
  rw [Text.findSequence?] at h
  split_ifs at h
  obtain ⟨a, c, b, rfl, rfl, -, begins⟩ := Text.exists_of_findFrom h
  apply cutAt_offsetOf
  rw [List.drop_left, ← List.prefix_iff_eq_take.1 (List.isPrefixOf_iff_prefix.1 begins)]

theorem cutAt_of_findKeyword? {keyword s : List Char} {i : Nat}
    (h : Text.findKeyword? keyword s = some i) :
    cutAt s (offsetOf s i) (byteLength keyword)
      = .ok (trim (s.take i), some (trim (s.drop (i + keyword.length)))) := by
  obtain ⟨a, c, b, rfl, rfl, -, whole⟩ := Text.exists_of_findFrom h
  rw [Text.isWholeWord, Bool.and_eq_true, Bool.and_eq_true] at whole
  have letters := Text.sameLetters_iff.1 whole.1.1
  apply cutAt_offsetOf
  rw [List.drop_left, ← byteLength_asciiLower, ← letters, byteLength_asciiLower]

theorem lt_length_of_findFrom {test : Option Char → List Char → Bool} {n : Text.Nesting}
    {left : Option Char} {s : List Char} {i : Nat} (h : Text.findFrom test n left s = some i) :
    i < s.length := by
  obtain ⟨a, c, b, rfl, rfl, -, -⟩ := Text.exists_of_findFrom h
  simp

theorem splitDefault_eq (s : List Char) : splitDefault s = .ok (Declaration.splitDefault s) := by
  have sequence := findSequence?_eq (f := ':') (by decide) ['='] s
  rw [splitDefault, Declaration.splitDefault]
  simp only [findKeyword?_eq, show ":=".toList = [':', '='] from rfl, sequence, ok_bind]
  cases assigned : Text.findSequence? [':', '='] s with
  | none =>
    cases defaulted : Text.findKeyword? "default".toList s with
    | none => rfl
    | some j => exact cutAt_of_findKeyword? defaulted
  | some i =>
    cases defaulted : Text.findKeyword? "default".toList s with
    | none => exact cutAt_of_findSequence? assigned
    | some j =>
      have order : offsetOf s i < offsetOf s j ↔ i < j :=
        offsetOf_lt_iff (lt_length_of_findFrom assigned)
      simp only [Option.map_some, order]
      split_ifs
      · exact cutAt_of_findSequence? assigned
      · exact cutAt_of_findKeyword? defaulted

/-- The text up to the first modifier, trimmed. -/
def withoutModifiers (s : List Char) : Checked (List Char) := do
  let ends ← Declaration.returnModifiers.mapM fun modifier => findKeyword? s modifier.toList
  let type ← sliceTo s ((ends.filterMap id).min?.getD (byteLength s))
  return trim type

theorem mapM_ok {α β : Type} {f : α → Checked β} {g : α → β} (h : ∀ x, f x = .ok (g x))
    (xs : List α) : xs.mapM f = .ok (xs.map g) := by
  induction xs with
  | nil => rfl
  | cons x xs ih => rw [List.mapM_cons, h, ok_bind, ih]; rfl

/-- The first of some places has the least offset. -/
theorem min?_map_offsetOf (s : List Char) (places : List Nat) :
    (places.map (offsetOf s)).min? = places.min?.map (offsetOf s) := by
  have least (i j : Nat) : min (offsetOf s i) (offsetOf s j) = offsetOf s (min i j) := by
    rcases Nat.le_total i j with le | le
    · rw [Nat.min_eq_left le, Nat.min_eq_left (offsetOf_le s le)]
    · rw [Nat.min_eq_right le, Nat.min_eq_right (offsetOf_le s le)]
  induction places with
  | nil => rfl
  | cons i places ih =>
    rw [List.map_cons, List.min?_cons, List.min?_cons, ih]
    cases places.min? with
    | none => rfl
    | some j => exact congrArg some (least i j)

theorem withoutModifiers_eq (s : List Char) :
    withoutModifiers s = .ok (Declaration.withoutModifiers s) := by
  have ends : (Declaration.returnModifiers.map fun modifier =>
        (Text.findKeyword? modifier.toList s).map (offsetOf s)).filterMap id
      = (Declaration.returnModifiers.filterMap fun modifier =>
          Text.findKeyword? modifier.toList s).map (offsetOf s) := by
    rw [List.filterMap_map, List.map_filterMap]
    rfl
  have stop (least : Option Nat) : (least.map (offsetOf s)).getD (byteLength s)
      = offsetOf s (least.getD s.length) := by
    cases least with
    | none => rw [offsetOf, Option.getD_none, List.take_length]; rfl
    | some i => rfl
  have found : (Declaration.returnModifiers.mapM fun modifier => findKeyword? s modifier.toList)
      = .ok (Declaration.returnModifiers.map fun modifier =>
          (Text.findKeyword? modifier.toList s).map (offsetOf s)) :=
    mapM_ok (fun modifier => findKeyword?_eq s (String.toList modifier)) Declaration.returnModifiers
  rw [withoutModifiers, found, ok_bind, ends, min?_map_offsetOf, stop, sliceTo_offsetOf]
  rfl

end StoredRoutine.Bytewise
