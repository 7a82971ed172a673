import StoredRoutine.Proofs.Bytewise.Walk
import StoredRoutine.Proofs.Source.Letters

/-!
# Delimiters by their bytes

What is looked for among the visited bytes is found where it is found character by character. A
place that is found is always between two characters: the first byte of a delimiter is ASCII, and
a keyword is compared with a slice of the text, which there is none of inside of a character.
-/

namespace StoredRoutine.Bytewise

open Source (byteLength byteLength_append byteLength_asciiLower)
open Text (Nesting findFrom isWordChar sameLetters startsWithLetters isWholeWord)
open Delimited (bytesOf offsetOf)
open String (utf8EncodeChar)

/-! ## Balance -/

/-- Do the parentheses outside quotes balance? -/
def isBalanced (s : List Char) : Checked Bool := do
  let visited ← walk s
  return visited.2.isBalanced

theorem isBalanced_eq (s : List Char) : isBalanced s = .ok (Text.isBalanced s) := by
  rw [isBalanced, walk_eq]
  rfl

/-! ## Closing parentheses -/

/-- The offset of the parenthesis that closes the one at the given offset. -/
def matchingParen? (s : List Char) (opening : Nat) : Checked (Option Nat) := do
  let visited ← walk s
  match visited.1.dropWhile fun (i, b, _) => !(i == opening && b == byte '(') with
  | [] => return none
  | (_, _, outer) :: behind =>
    return (behind.find? fun (_, b, depth) => b == byte ')' && depth == outer).map (·.1)

/-! ## Searching -/

/-- The offset of the first visited byte that passes a test. -/
def find (test : Item → Checked Bool) : List Item → Checked (Option Nat)
  | [] => return none
  | item :: items => do
    if ← test item then return some item.1 else find test items

/-- Does the sequence, whose first byte is `first`, begin at a visited byte of depth zero? -/
def beginsHere (s sequence : List Char) (first : UInt8) (item : Item) : Checked Bool :=
  if item.2.2 = 0 ∧ item.2.1 = first then do
    let rest ← sliceFrom s item.1
    return sequence.isPrefixOf rest
  else return false

/-- The offset of the first occurrence of a sequence at depth zero. -/
def findSequence? (s sequence : List Char) : Checked (Option Nat) :=
  match (bytes sequence).head? with
  | none => return none
  | some first => do
    let visited ← walk s
    find (beginsHere s sequence first) visited.1

/-- Is the byte left of the offset no part of a word? -/
def isApart (bs : List UInt8) (i : Nat) : Checked Bool :=
  if i = 0 then return true
  else do
    let b ← get bs (i - 1)
    return !isWordByte b

/-- Is the keyword a whole word at a visited byte of depth zero? -/
def standsHere (s keyword : List Char) (item : Item) : Checked Bool :=
  let stop := item.1 + byteLength keyword
  if item.2.2 = 0 ∧ (slice? s item.1 stop).any (sameLetters · keyword) = true then do
    let apart ← isApart (bytes s) item.1
    return apart && !(bytes s)[stop]?.any isWordByte
  else return false

/-- The offset of the first occurrence of a keyword at depth zero, as a whole word. -/
def findKeyword? (s keyword : List Char) : Checked (Option Nat) := do
  let visited ← walk s
  find (standsHere s keyword) visited.1

/-- The test of visited bytes says at the first byte of a character of the text what the test of
places says of its place, and says no at every further byte. -/
structure Decides (s : List Char) (test : Item → Checked Bool)
    (meaning : Option Char → List Char → Bool) : Prop where
  first {a : List Char} {c : Char} {t : List Char} (split : s = a ++ c :: t) {b : UInt8}
    (hb : b ∈ utf8EncodeChar c) (depth : Int) :
      test (byteLength a, b, depth) = .ok (decide (depth = 0) && meaning a.getLast? (c :: t))
  later {a : List Char} {c : Char} {t : List Char} (split : s = a ++ c :: t) {b : UInt8}
    (hb : b ∈ utf8EncodeChar c) (depth : Int) {k : Nat} (positive : 0 < k)
    (inside : k < c.utf8Size) : test (byteLength a + k, b, depth) = .ok false

theorem find_append {test : Item → Checked Bool} {items : List Item}
    (h : ∀ item ∈ items, test item = .ok false) (others : List Item) :
    find test (items ++ others) = find test others := by
  induction items with
  | nil => rfl
  | cons item items ih =>
    obtain ⟨first, rest⟩ := List.forall_mem_cons.1 h
    rw [List.cons_append, find, first, ok_bind, if_neg (by decide), ih rest]

/-- **Searching among the visited bytes** finds what is found character by character. -/
theorem Decides.find_eq {s : List Char} {test : Item → Checked Bool}
    {meaning : Option Char → List Char → Bool} (h : Decides s test meaning) {a t : List Char}
    (split : s = a ++ t) (n : Nesting) :
    find test (Delimited.walkFrom (byteLength a) n t)
      = .ok ((findFrom meaning n a.getLast? t).map fun i => offsetOf s (a.length + i)) := by
  induction t generalizing a n with
  | nil => rfl
  | cons c t ih =>
    have again : s = (a ++ [c]) ++ t := by rw [split, List.append_assoc, List.singleton_append]
    have rest := ih again (n.step c)
    rw [byteLength_concat, List.getLast?_concat, List.length_append, List.length_singleton] at rest
    rw [findFrom]
    cases hdepth : n.depthAt? c with
    | none =>
      rw [walkFrom_hidden hdepth, rest, if_neg (by simp), Option.map_map,
        offsetOf_comp_succ]
    | some depth =>
      obtain ⟨b, others, encoded, hb⟩ := exists_bytes_eq_cons c []
      rw [bytes_cons, bytes_nil, List.append_nil] at encoded
      have later : ∀ item ∈ (others.zipIdx (byteLength a + 1)).map fun x => (x.2, x.1, depth),
          test item = .ok false := by
        intro item hitem
        obtain ⟨⟨b', i⟩, hmem, rfl⟩ := List.mem_map.1 hitem
        obtain ⟨low, high, value⟩ := List.mem_zipIdx hmem
        have size := String.length_utf8EncodeChar c
        rw [encoded, List.length_cons] at size
        have member : b' ∈ utf8EncodeChar c := by
          rw [encoded, value]
          exact List.mem_cons_of_mem _ (List.getElem_mem _)
        obtain ⟨k, rfl⟩ := Nat.exists_eq_add_of_le (Nat.le_of_succ_le low)
        exact h.later split member depth (by omega) (by omega)
      rw [walkFrom_open hdepth, bytesOf_eq, encoded, List.zipIdx_cons, List.map_cons,
        List.cons_append, find, h.first split hb, ok_bind]
      by_cases found : decide (depth = 0) && meaning a.getLast? (c :: t)
      · rw [if_pos found, if_pos (by simpa using found), split]
        simp [offsetOf]
      · rw [if_neg found, if_neg (by simpa using found), find_append later, rest, Option.map_map,
          offsetOf_comp_succ]

/-! ## Sequences -/

theorem decides_beginsHere {f : Char} (ascii : f.toNat < 0x80) (rest s : List Char) :
    Decides s (beginsHere s (f :: rest) (byte f)) (fun _ => (f :: rest).isPrefixOf) where
  first {a c t} split b hb depth := by
    by_cases here : depth = 0 ∧ b = byte f
    · rw [beginsHere, if_pos here, split, sliceFrom_append, ok_bind, here.1]
      rfl
    · have other : (decide (depth = 0) && (f :: rest).isPrefixOf (c :: t)) = false := by
        by_cases level : depth = 0
        · have differs : f ≠ c := fun same =>
            here ⟨level, (eq_byte_iff ascii hb).2 same.symm⟩
          simp [List.isPrefixOf, differs]
        · simp [level]
      rw [beginsHere, if_neg here, other]
      rfl
  later {a c t} split b hb depth k positive inside := by
    have differs : b ≠ byte f := fun same => by
      obtain rfl := (eq_byte_iff ascii hb).1 same
      rw [utf8Size_of_ascii ascii] at inside
      omega
    rw [beginsHere, if_neg fun here => differs here.2]
    rfl

/-- A sequence that begins with a character of ASCII is found where it is found character by
character. -/
theorem findSequence?_eq {f : Char} (ascii : f.toNat < 0x80) (rest s : List Char) :
    findSequence? s (f :: rest) = .ok ((Text.findSequence? (f :: rest) s).map (offsetOf s)) := by
  have head : (bytes (f :: rest)).head? = some (byte f) := by
    rw [bytes_cons, utf8EncodeChar_of_ascii ascii]
    rfl
  have found := (decides_beginsHere ascii rest s).find_eq (List.nil_append s).symm .start
  rw [Source.byteLength_nil] at found
  rw [findSequence?, head, walk_eq]
  simp only [ok_bind, found]
  simp [Text.findSequence?]

/-! ## Keywords -/

/-- A slice of which the beginning is between two characters. -/
theorem slice?_append (a t : List Char) (n : Nat) (w : List Char) :
    slice? (a ++ t) (byteLength a) (byteLength a + n) = some w ↔ w <+: t ∧ byteLength w = n := by
  constructor
  · intro h
    have found : slice (a ++ t) (byteLength a) (byteLength a + n) = .ok w := by
      rw [slice?] at h
      cases result : slice (a ++ t) (byteLength a) (byteLength a + n) with
      | error e => rw [result] at h; cases h
      | ok w' => rw [result] at h; exact congrArg Except.ok (Option.some.inj h)
    obtain ⟨a', b, split, start, stop⟩ := exists_of_slice found
    -- both are the part of the text before the one offset
    rw [List.append_assoc] at split
    obtain ⟨rfl, rfl⟩ := append_inj_of_byteLength split start.symm
    exact ⟨List.prefix_append w b, by omega⟩
  · rintro ⟨⟨b, rfl⟩, rfl⟩
    rw [slice?, ← List.append_assoc, slice_append]
    rfl

/-- Whether a keyword is where a character begins is told by the slice of its length. -/
theorem any_slice?_append (a t keyword : List Char) :
    (slice? (a ++ t) (byteLength a) (byteLength a + byteLength keyword)).any
        (sameLetters · keyword) = startsWithLetters keyword t := by
  rw [Bool.eq_iff_iff, Option.any_eq_true]
  constructor
  · rintro ⟨w, hw, same⟩
    obtain ⟨⟨rest, rfl⟩, -⟩ := (slice?_append a t _ w).1 hw
    have letters := Text.sameLetters_iff.1 same
    have size : w.length = keyword.length := by
      rw [← Text.length_asciiLower, letters, Text.length_asciiLower]
    rw [startsWithLetters, ← size, List.take_left, Text.sameLetters_comm, same]
  · intro starts
    have letters := Text.sameLetters_iff.1 starts
    refine ⟨t.take keyword.length, (slice?_append a t _ _).2 ⟨List.take_prefix _ _, ?_⟩, ?_⟩
    · rw [← byteLength_asciiLower, ← letters, byteLength_asciiLower]
    · rw [Text.sameLetters_comm]
      exact starts

/-- The byte on the left is part of a word if the character on the left is. -/
theorem isApart_bytes (a t : List Char) :
    isApart (bytes (a ++ t)) (byteLength a) = .ok (!a.getLast?.any isWordChar) := by
  rcases List.eq_nil_or_concat a with rfl | ⟨a, c, rfl⟩
  · rfl
  · have nonempty : utf8EncodeChar c ≠ [] := fun h => by
      have positive := c.utf8Size_pos
      rw [← String.length_utf8EncodeChar, h] at positive
      exact absurd positive (by decide)
    obtain ⟨front, b, encoded⟩ := (List.eq_nil_or_concat (utf8EncodeChar c)).resolve_left nonempty
    have size := String.length_utf8EncodeChar c
    rw [encoded, List.length_concat] at size
    have hb : b ∈ utf8EncodeChar c := by rw [encoded]; simp
    have split : bytes (a ++ [c] ++ t) = (bytes a ++ front) ++ b :: bytes t := by
      rw [bytes_append, bytes_append, bytes_cons, bytes_nil, encoded]
      simp
    have place : byteLength (a ++ [c]) = (bytes a ++ front).length + 1 := by
      rw [byteLength_concat, ← size]
      simp [Nat.add_assoc]
    rw [List.concat_eq_append, isApart, place, if_neg (Nat.succ_ne_zero _), Nat.add_sub_cancel,
      split, get_append, ok_bind, tells_word c b hb, List.getLast?_concat]
    rfl

/-- The byte on the right is part of a word if the character on the right is. -/
theorem any_getElem?_bytes (a t : List Char) :
    (bytes (a ++ t))[byteLength a]?.any isWordByte = t.head?.any isWordChar := by
  cases t with
  | nil => simp
  | cons c t =>
    obtain ⟨b, hb, read⟩ := exists_get_bytes a c t
    rw [get_eq_ok.1 read]
    exact tells_word c b hb

theorem decides_standsHere (s keyword : List Char) :
    Decides s (standsHere s keyword) (isWholeWord keyword) where
  first {a c t} split b hb depth := by
    subst split
    by_cases here : depth = 0 ∧ startsWithLetters keyword (c :: t) = true
    · have letters := Text.sameLetters_iff.1 here.2
      have size : byteLength ((c :: t).take keyword.length) = byteLength keyword := by
        rw [← byteLength_asciiLower, ← letters, byteLength_asciiLower]
      have right := any_getElem?_bytes (a ++ (c :: t).take keyword.length)
        ((c :: t).drop keyword.length)
      rw [List.append_assoc, List.take_append_drop, byteLength_append, size] at right
      rw [standsHere, if_pos (by rwa [any_slice?_append]), isApart_bytes, ok_bind, right,
        here.1, isWholeWord, here.2]
      rfl
    · rw [standsHere, if_neg (by rwa [any_slice?_append]), isWholeWord]
      congr 1
      by_cases level : depth = 0
      · have other : startsWithLetters keyword (c :: t) = false :=
          eq_false_of_ne_true fun starts => here ⟨level, starts⟩
        rw [other]
        simp
      · simp [level]
  later {a c t} split b hb depth k positive inside := by
    have none : slice? s (byteLength a + k) (byteLength a + k + byteLength keyword) = none := by
      rw [slice?, slice, split, indexOf?_inside a c t positive inside]
      rfl
    rw [standsHere, none, if_neg (by simp)]
    rfl

/-- A keyword is found where it is found character by character. -/
theorem findKeyword?_eq (s keyword : List Char) :
    findKeyword? s keyword = .ok ((Text.findKeyword? keyword s).map (offsetOf s)) := by
  have found := (decides_standsHere s keyword).find_eq (List.nil_append s).symm .start
  rw [Source.byteLength_nil] at found
  rw [findKeyword?, walk_eq, ok_bind, found]
  simp [Text.findKeyword?]

/-! ## Groups -/

/-- The end of a group is found where it is found character by character. -/
theorem find?_closing (outer : Int) (a t : List Char) (n : Nesting) :
    ((Delimited.walkFrom (byteLength a) n t).find? fun (_, b, depth) =>
        b == byte ')' && depth == outer).map (·.1)
      = (Text.closingFrom outer n t).map fun i => offsetOf (a ++ t) (a.length + i) := by
  induction t generalizing a n with
  | nil => rfl
  | cons c t ih =>
    have rest := ih (a ++ [c]) (n.step c)
    rw [byteLength_concat, List.append_assoc, List.singleton_append, List.length_append,
      List.length_singleton] at rest
    rw [Text.closingFrom]
    cases hdepth : n.depthAt? c with
    | none =>
      rw [walkFrom_hidden hdepth, rest, if_neg (by simp), Option.map_map, offsetOf_comp_succ]
    | some depth =>
      rw [walkFrom_open hdepth]
      by_cases found : c = ')' ∧ depth = outer
      · obtain ⟨rfl, rfl⟩ := found
        rw [if_pos ⟨rfl, rfl⟩, bytesOf_of_ascii (by decide), List.singleton_append,
          List.find?_cons_of_pos (by simp)]
        simp [offsetOf]
      · have passed : ∀ item ∈ bytesOf (byteLength a) c depth,
            ¬ (item.2.1 == byte ')' && item.2.2 == outer) = true := by
          intro item hitem
          obtain ⟨hb, rfl⟩ := of_mem_bytesOf hitem
          have char : item.2.1 = byte ')' ↔ c = ')' := eq_byte_iff (by decide) hb
          simpa [char] using found
        rw [List.find?_append, List.find?_eq_none.2 passed, Option.none_or, rest,
          if_neg (by simpa using found), Option.map_map, offsetOf_comp_succ]

/-- A group at the beginning of a text is closed where it is character by character. -/
theorem matchingParen?_eq (t : List Char) :
    matchingParen? ('(' :: t) 0
      = .ok ((Text.matchingParen? ('(' :: t) 0).map (offsetOf ('(' :: t))) := by
  have opened : Nesting.start.depthAt? '(' = some 0 := rfl
  have closed := find?_closing 0 ['('] t (Nesting.start.step '(')
  have inner : Text.matchingParen? ('(' :: t) 0
      = (Text.closingFrom 0 (Nesting.start.step '(') t).map (· + 1) := rfl
  rw [matchingParen?, walk_eq, ok_bind, walkFrom_open opened, bytesOf_of_ascii (by decide), inner,
    Option.map_map]
  refine congrArg Except.ok (closed.trans ?_)
  congr 1
  funext i
  rw [Function.comp_apply, Nat.add_comm i]
  rfl

/-! ## Pieces -/

/-- The pieces of a text before the separators among the visited bytes, where a piece begins at
the given offset, and the offset where what follows the last separator begins. -/
def cut (s : List Char) (separator : UInt8) (start : Nat) :
    List Item → Checked (List (List Char) × Nat)
  | [] => return ([], start)
  | (i, b, depth) :: items =>
    if b = separator ∧ depth = 0 then do
      let piece ← slice s start i
      let others ← cut s separator (i + 1) items
      return (Text.trim piece :: others.1, others.2)
    else cut s separator start items

/-- Splits the text at the separators of depth zero and trims the pieces. -/
def split? (separator : Char) (s : List Char) : Checked (Option (List (List Char))) :=
  if Text.isBlankText s then return some []
  else do
    let visited ← walk s
    let pieces ← cut s (byte separator) 0 visited.1
    if visited.2.isBalanced then
      let last ← sliceFrom s pieces.2
      return some (pieces.1 ++ [Text.trim last])
    else return none

theorem cut_append {s : List Char} {separator : UInt8} {items : List Item}
    (h : ∀ item ∈ items, ¬ (item.2.1 = separator ∧ item.2.2 = 0)) (start : Nat)
    (others : List Item) :
    cut s separator start (items ++ others) = cut s separator start others := by
  induction items with
  | nil => rfl
  | cons item items ih =>
    obtain ⟨first, rest⟩ := List.forall_mem_cons.1 h
    rw [List.cons_append, cut, if_neg first, ih rest]

/-- The pieces are those that the text has character by character, the last of which is what the
last slice gives. -/
theorem exists_cut_eq {separator : Char} (ascii : separator.toNat < 0x80) (a piece t : List Char)
    (n : Nesting) : ∃ front last start,
      (Text.pieces separator n t).modifyHead (piece ++ ·) = front ++ [last] ∧
      cut (a ++ piece ++ t) (byte separator) (byteLength a)
          (Delimited.walkFrom (byteLength (a ++ piece)) n t)
        = .ok (front.map Text.trim, start) ∧
      sliceFrom (a ++ piece ++ t) start = .ok last := by
  induction t generalizing a piece n with
  | nil =>
    refine ⟨[], piece, byteLength a, ?_, rfl, ?_⟩
    · simp [Text.pieces]
    · rw [List.append_nil]
      exact sliceFrom_append a piece
  | cons c t ih =>
    by_cases found : c = separator ∧ n.depthAt? c = some 0
    · obtain ⟨rfl, hdepth⟩ := found
      obtain ⟨front, last, start, pieces, cuts, slices⟩ := ih (a ++ piece ++ [c]) [] (n.step c)
      have size := utf8Size_of_ascii ascii
      have here : slice (a ++ piece ++ c :: t) (byteLength a) (byteLength (a ++ piece))
          = .ok piece := by
        rw [byteLength_append]
        exact slice_append a piece (c :: t)
      rw [List.append_nil, List.append_assoc, List.singleton_append] at cuts slices
      rw [byteLength_concat, size] at cuts
      refine ⟨piece :: front, last, start, ?_, ?_, slices⟩
      · rw [Text.pieces, if_pos ⟨rfl, hdepth⟩, List.modifyHead_cons, List.append_nil,
          List.cons_append, ← pieces]
        cases Text.pieces c (n.step c) t <;> rfl
      · rw [walkFrom_open hdepth, bytesOf_of_ascii ascii, size, List.singleton_append, cut,
          if_pos ⟨rfl, rfl⟩, here, ok_bind, cuts]
        rfl
    · -- the piece goes on with the character, whether its bytes are visited or not
      obtain ⟨front, last, start, pieces, cuts, slices⟩ := ih a (piece ++ [c]) (n.step c)
      rw [← List.append_assoc, byteLength_concat, List.append_assoc _ [c], List.singleton_append]
        at cuts
      rw [← List.append_assoc, List.append_assoc _ [c], List.singleton_append] at slices
      refine ⟨front, last, start, ?_, ?_, slices⟩
      · rw [Text.pieces, if_neg found, List.modifyHead_modifyHead, ← pieces]
        congr 1
        funext more
        simp
      · cases hdepth : n.depthAt? c with
        | none => rw [walkFrom_hidden hdepth]; exact cuts
        | some depth =>
          have passed : ∀ item ∈ bytesOf (byteLength (a ++ piece)) c depth,
              ¬ (item.2.1 = byte separator ∧ item.2.2 = 0) := by
            rintro item hitem ⟨same, level⟩
            obtain ⟨hb, rfl⟩ := of_mem_bytesOf hitem
            exact found ⟨(eq_byte_iff ascii hb).1 same, by rw [hdepth, level]⟩
          rw [walkFrom_open hdepth, cut_append passed]
          exact cuts

/-- **A text is split** as it is split character by character. -/
theorem split?_eq {separator : Char} (ascii : separator.toNat < 0x80) (s : List Char) :
    split? separator s = .ok (Text.split? separator s) := by
  obtain ⟨front, last, start, pieces, cuts, slices⟩ := exists_cut_eq ascii [] [] s .start
  have whole : Text.pieces separator .start s = front ++ [last] := by
    rw [← pieces]
    cases Text.pieces separator .start s <;> rfl
  have cutHere : cut s (byte separator) 0 (Delimited.walkFrom 0 .start s)
      = .ok (front.map Text.trim, start) := cuts
  have lastSlice : sliceFrom s start = .ok last := slices
  have level : (Walker.at (byteLength s) (Nesting.start.after s)).isBalanced
      = Text.isBalanced s := rfl
  rw [split?, Text.split?, walk_eq]
  simp only [ok_bind, cutHere, level, lastSlice, whole, List.map_append, List.map_cons,
    List.map_nil, pure_eq_ok]
  split_ifs <;> rfl

end StoredRoutine.Bytewise
