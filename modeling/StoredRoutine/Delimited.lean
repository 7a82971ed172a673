import StoredRoutine.Error
import StoredRoutine.Text.Nesting
import StoredRoutine.Source.Position

/-!
# Delimiters of a text

The rules of `Text.Nesting` for whole texts, with places given as byte offsets of UTF-8: which
bytes stand in the open and at what depth, where a text splits, where a sequence or a keyword is
found, and where a parenthesis is closed.
-/

namespace StoredRoutine.Delimited

/-- The byte offset of the character that `i` characters come before. -/
def offsetOf (s : List Char) (i : Nat) : Nat := Source.byteLength (s.take i)

/-- How many characters come before the byte offset. Nothing, if the offset is inside a
character or behind the text. -/
def indexOf? : List Char → Nat → Option Nat
  | _, 0 => some 0
  | [], _ + 1 => none
  | c :: rest, n + 1 =>
    if c.utf8Size ≤ n + 1 then (indexOf? rest (n + 1 - c.utf8Size)).map (· + 1) else none

/-- The bytes of a character that stands at the given depth, with their offsets. -/
def bytesOf (offset : Nat) (c : Char) (depth : Int) : List (Nat × UInt8 × Int) :=
  (String.utf8EncodeChar c).zipIdx.map fun (byte, i) => (offset + i, byte, depth)

/-- The bytes of `s` outside quotes, each with its offset and its depth, where `offset` is the
offset of the first byte and `n` the nesting there. -/
def walkFrom (offset : Nat) (n : Text.Nesting) : List Char → List (Nat × UInt8 × Int)
  | [] => []
  | c :: rest =>
    (match n.depthAt? c with
      | some depth => bytesOf offset c depth
      | none => []) ++ walkFrom (offset + c.utf8Size) (n.step c) rest

/-- The bytes of the text outside quotes, each with its offset and the depth of parentheses it
stands at. -/
def walk (text : String) : List (Nat × UInt8 × Int) := walkFrom 0 .start text.toList

/-- Do the parentheses outside quotes balance? -/
def isBalanced (text : String) : Bool := Text.isBalanced text.toList

/-- The trimmed pieces of the text between the separators at depth zero. A text whose
parentheses do not balance is refused, unless it is blank. -/
def split (separator : Char) (text : String) : Except Error (List String) :=
  match Text.split? separator text.toList with
  | some pieces => .ok (pieces.map String.ofList)
  | none => .error (.ofCause (.unbalancedParentheses text))

/-- The offset of the parenthesis that closes the one at the given offset. -/
def matchingParen? (text : String) (opening : Nat) : Option Nat := do
  let s := text.toList
  let i ← indexOf? s opening
  let j ← Text.matchingParen? s i
  return offsetOf s j

/-- The offset of the first occurrence of a punctuation sequence at depth zero. -/
def findSequence? (text sequence : String) : Option Nat :=
  (Text.findSequence? sequence.toList text.toList).map (offsetOf text.toList)

/-- The offset of the first occurrence of a keyword at depth zero, as a whole word and in letters
of any case. -/
def findKeyword? (text keyword : String) : Option Nat :=
  (Text.findKeyword? keyword.toList text.toList).map (offsetOf text.toList)

end StoredRoutine.Delimited
