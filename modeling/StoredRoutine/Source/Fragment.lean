import StoredRoutine.Text.Word
import StoredRoutine.Source.Statement

/-!
# Fragments

The declarations of functions, procedures and constants, cut out of a package specification.
Every other statement (the package header, types, variables, pragmas, `end`) is passed over, and
so is what a statement has before its declaration, such as the header in the first one.
-/

namespace StoredRoutine.Source

/-- What a fragment declares. -/
inductive Kind where
  | function
  | procedure
  | constant
  deriving DecidableEq, Repr

/-- The keyword that gives the kind away. -/
def Kind.keyword : Kind → String
  | .function => "function"
  | .procedure => "procedure"
  | .constant => "constant"

/-- One declaration in normal form: without comments, and outside quotes with single spaces for
blanks. -/
structure Fragment where
  kind : Kind
  /-- From the first word of the declaration through its semicolon. -/
  text : String
  /-- Where the declaration stands in the source. -/
  span : Span
  /-- Whether the declaration ends in its semicolon, and not with the source. -/
  terminated : Bool
  deriving DecidableEq, Repr

/-- The first word that begins a declaration, and what it declares. The keywords `function` and
`procedure` begin one, and so does any word before the keyword `constant`. -/
def declarationStart? : List (Nat × List Char) → Option (Nat × Kind)
  | [] => none
  | (i, word) :: rest =>
    if Text.sameLetters word Kind.function.keyword.toList then some (i, .function)
    else if Text.sameLetters word Kind.procedure.keyword.toList then some (i, .procedure)
    else if rest.head?.any (fun next => Text.sameLetters next.2 Kind.constant.keyword.toList) then
      some (i, .constant)
    else declarationStart? rest

/-- The declaration that a statement holds, if it holds one. -/
def Statement.fragment? (s : Statement) : Option Fragment := do
  let (i, kind) ← declarationStart? (Text.words s.text)
  let first ← s.glyphs[i]?
  return {
    kind
    text := String.ofList (Text.trimEnd (s.text.drop i))
    span := ⟨first.place.offset, s.stop, first.place.line, first.place.column⟩
    terminated := s.terminated
  }

/-- The declarations of a package specification, in order. -/
def scan (source : String) : List Fragment :=
  (statements source.toList).filterMap Statement.fragment?

end StoredRoutine.Source
