/-!
# Places in a source

A `Position` counts in three ways what lies before a character: bytes of UTF-8, lines, and
characters on the line. A `Span` is a stretch of the source with the line and column where it
begins.
-/

namespace StoredRoutine.Source

/-- The number of bytes of a text in UTF-8. -/
def byteLength : List Char → Nat
  | [] => 0
  | c :: rest => c.utf8Size + byteLength rest

@[simp] theorem byteLength_nil : byteLength [] = 0 := rfl

@[simp] theorem byteLength_cons (c : Char) (s : List Char) :
    byteLength (c :: s) = c.utf8Size + byteLength s := rfl

theorem byteLength_append (s t : List Char) : byteLength (s ++ t) = byteLength s + byteLength t := by
  induction s with
  | nil => simp
  | cons c s ih => rw [List.cons_append, byteLength_cons, byteLength_cons, ih, Nat.add_assoc]

/-- The place of a character: how many bytes come before it, and its line and column, both
counted from 1. A column is counted in characters. The counts have no bound; counters of 32 bits for
lines and columns agree with them on sources of fewer than `2 ^ 32` characters. -/
structure Position where
  offset : Nat
  line : Nat
  column : Nat
  deriving DecidableEq, Repr

namespace Position

/-- The place of the first character of a source. -/
def start : Position := ⟨0, 1, 1⟩

/-- The place right after the character `c` that stands at `p`. -/
def next (p : Position) (c : Char) : Position :=
  if c = '\n' then ⟨p.offset + c.utf8Size, p.line + 1, 1⟩
  else ⟨p.offset + c.utf8Size, p.line, p.column + 1⟩

/-- The place right after a text that begins at `p`. -/
def after (p : Position) (s : List Char) : Position := s.foldl next p

@[simp] theorem after_nil (p : Position) : p.after [] = p := rfl

@[simp] theorem after_cons (p : Position) (c : Char) (s : List Char) :
    p.after (c :: s) = (p.next c).after s := rfl

theorem after_append (p : Position) (s t : List Char) : p.after (s ++ t) = (p.after s).after t :=
  List.foldl_append

@[simp] theorem offset_next (p : Position) (c : Char) :
    (p.next c).offset = p.offset + c.utf8Size := by
  unfold next; split <;> rfl

theorem offset_after (p : Position) (s : List Char) :
    (p.after s).offset = p.offset + byteLength s := by
  induction s generalizing p with
  | nil => simp
  | cons c s ih => simp [ih, Nat.add_assoc]

end Position

/-- A stretch of a source, from the byte `start` up to the byte `stop`, which begins on the given
line and column. -/
structure Span where
  start : Nat
  stop : Nat
  line : Nat
  column : Nat
  deriving DecidableEq, Repr

namespace Span

/-- The length of the span in bytes. -/
def length (span : Span) : Nat := span.stop - span.start

/-- Does the span hold nothing? -/
def isEmpty (span : Span) : Bool := span.start == span.stop

/-- `dropBytes n s` is what follows the first `n` bytes of `s`; a character that is cut is
dropped. -/
def dropBytes (n : Nat) : List Char → List Char
  | [] => []
  | c :: rest => if n = 0 then c :: rest else dropBytes (n - c.utf8Size) rest

/-- `takeBytes n s` is the characters of `s` that begin within its first `n` bytes. -/
def takeBytes (n : Nat) : List Char → List Char
  | [] => []
  | c :: rest => if n = 0 then [] else c :: takeBytes (n - c.utf8Size) rest

/-- The text of the source that the span covers. -/
def text (span : Span) (source : String) : String :=
  String.ofList (takeBytes span.length (dropBytes span.start source.toList))

end Span

end StoredRoutine.Source
