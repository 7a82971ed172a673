import StoredRoutine.Text.Blank
import StoredRoutine.Text.AsciiCase

/-!
# Quotes and parentheses

Punctuation in a declaration means something only outside quotes and at the right depth of
parentheses: the comma in `number(10,2)` does not separate arguments, and the semicolon in
`'a;b'` does not end a constant.

A `Nesting` is what has to be known about the text to the left of a character. Reading a text
character by character through `Nesting.step` gives the nesting at every place, and everything
here is said in terms of it: which characters stand in the open and at what depth, whether the
parentheses balance, where the text splits and where a sequence or a word is found.

A doubled quote inside a quoted section stands for the quote itself. Closing the section and
opening the next one at once leaves the same characters quoted, so no rule is needed for it. A
section that is never closed runs to the end of the text.
-/

namespace StoredRoutine.Text

/-- The two quotes: of string literals and of quoted identifiers. -/
def isQuote (c : Char) : Bool := c == '\'' || c == '"'

/-- The characters of unquoted identifiers: ASCII letters and digits, `_`, `$`, `#`, and every
character beyond ASCII. -/
def isWordChar (c : Char) : Bool :=
  c.isAlphanum || c == '_' || c == '$' || c == '#' || 0x80 ≤ c.toNat

/-! ## The nesting at a place -/

/-- Where a place in a text stands: inside which quote, inside how many parentheses, and whether
a closing parenthesis before it had no partner. The depth has no bound; a signed counter of 32 bits
agrees with it on texts of fewer than `2 ^ 31` characters. -/
structure Nesting where
  quote : Option Char
  depth : Int
  underflow : Bool
  deriving DecidableEq, Repr

namespace Nesting

/-- The nesting at the beginning of a text. -/
def start : Nesting := ⟨none, 0, false⟩

/-- The nesting after one more character. -/
def step (n : Nesting) (c : Char) : Nesting :=
  match n.quote with
  | some q => if c = q then { n with quote := none } else n
  | none =>
    if isQuote c then { n with quote := some c }
    else if c = '(' then { n with depth := n.depth + 1 }
    else if c = ')' then
      { n with depth := n.depth - 1, underflow := n.underflow || decide (n.depth ≤ 0) }
    else n

/-- The nesting after a text. -/
def after (n : Nesting) (s : List Char) : Nesting := s.foldl step n

/-- The depth at which a character stands in the open, or nothing if it is part of a quoted
section. A parenthesis of either kind stands at the depth outside the group it delimits. -/
def depthAt? (n : Nesting) (c : Char) : Option Int :=
  if n.quote.isSome || isQuote c then none
  else if c = ')' then some (n.depth - 1)
  else some n.depth

/-- No group is open, and no parenthesis was closed without having been opened. -/
def isLevel (n : Nesting) : Bool := n.depth == 0 && !n.underflow

@[simp] theorem after_nil (n : Nesting) : n.after [] = n := rfl

@[simp] theorem after_cons (n : Nesting) (c : Char) (s : List Char) :
    n.after (c :: s) = (n.step c).after s := rfl

theorem after_append (n : Nesting) (s t : List Char) : n.after (s ++ t) = (n.after s).after t :=
  List.foldl_append

end Nesting

/-- The depth at which each character of the text stands in the open. -/
def marks (n : Nesting) : List Char → List (Option Int)
  | [] => []
  | c :: rest => n.depthAt? c :: marks (n.step c) rest

/-- Do the parentheses of the text balance, those in quotes left aside? -/
def isBalanced (s : List Char) : Bool := (Nesting.start.after s).isLevel

/-! ## Splitting -/

/-- The pieces of the text between the separators that stand at depth zero. There is one more
piece than there are such separators. -/
def pieces (separator : Char) (n : Nesting) : List Char → List (List Char)
  | [] => [[]]
  | c :: rest =>
    let more := pieces separator (n.step c) rest
    if c = separator ∧ n.depthAt? c = some 0 then [] :: more else more.modifyHead (c :: ·)

/-- Splits the text at the separators of depth zero and trims the pieces. A blank text has no
pieces; an empty piece between two separators is kept. A text whose parentheses do not balance
is not split. -/
def split? (separator : Char) (s : List Char) : Option (List (List Char)) :=
  if isBlankText s then some []
  else if isBalanced s then some ((pieces separator .start s).map trim)
  else none

/-! ## Finding -/

/-- The number of characters before the first place of depth zero that passes the test. The test
is given the character to the left of the place, if there is one, and the text from the place
on. -/
def findFrom (test : Option Char → List Char → Bool) (n : Nesting) (left : Option Char) :
    List Char → Option Nat
  | [] => none
  | c :: rest =>
    if n.depthAt? c = some 0 ∧ test left (c :: rest) then some 0
    else (findFrom test (n.step c) (some c) rest).map (· + 1)

/-- Where the first occurrence of a punctuation sequence at depth zero begins. The empty
sequence occurs nowhere. -/
def findSequence? (sequence s : List Char) : Option Nat :=
  if sequence.isEmpty then none else findFrom (fun _ => sequence.isPrefixOf) .start none s

/-- Is `word`, in letters of any case, at the front of `right` with no word character on either
side of it? -/
def isWholeWord (word : List Char) (left : Option Char) (right : List Char) : Bool :=
  startsWithLetters word right && !left.any isWordChar
    && !(right.drop word.length).head?.any isWordChar

/-- Where the first occurrence of a keyword at depth zero begins. -/
def findKeyword? (keyword s : List Char) : Option Nat :=
  findFrom (isWholeWord keyword) .start none s

/-! ## Matching parentheses -/

/-- The number of characters before the first closing parenthesis that stands at the given
depth. -/
def closingFrom (outer : Int) (n : Nesting) : List Char → Option Nat
  | [] => none
  | c :: rest =>
    if c = ')' ∧ n.depthAt? c = some outer then some 0
    else (closingFrom outer (n.step c) rest).map (· + 1)

/-- Where the group is closed that is opened after the first `i` characters. Nothing, if no
parenthesis is opened there or if it is never closed. -/
def matchingParen? (s : List Char) (i : Nat) : Option Nat :=
  let n := Nesting.start.after (s.take i)
  match s.drop i with
  | [] => none
  | c :: rest =>
    if c = '(' ∧ n.quote = none then (closingFrom n.depth (n.step c) rest).map (· + (i + 1))
    else none

end StoredRoutine.Text
