import StoredRoutine.Error
import StoredRoutine.Declaration.Basic
import StoredRoutine.Source.Fragment

/-!
# Reading a declaration

A fragment is read from the left: its keyword, its name, and for a routine the argument list,
which is split at its commas, each argument again being read from the left. What is wrong with
a fragment that cannot be read is a `Defect`; the first one met is reported.

Fragments come without comments and with single spaces, but nothing here relies on that.
-/

namespace StoredRoutine

/-- Why a fragment cannot be read as a declaration. -/
inductive Defect where
  | unbalanced
  | noSemicolon
  | keywordExpected (kind : Source.Kind)
  | nameless (kind : Source.Kind)
  | noReturnClause (function : String)
  | noReturnType (function : String)
  | trailingText (text procedure : String)
  | namelessArgument
  | typelessArgument (argument : String)
  | emptyDefault (argument : String)
  | constantExpected (name : String)
  | typelessConstant (constant : String)
  | valuelessConstant (constant : String)
  deriving DecidableEq, Repr

namespace Defect

/-- The wording of a defect. -/
def message : Defect → String
  | unbalanced => "unbalanced parentheses"
  | noSemicolon => "missing terminating semicolon"
  | keywordExpected kind => "expected `" ++ kind.keyword ++ "`"
  | nameless kind => kind.keyword ++ " has no name"
  | noReturnClause function => "function " ++ function ++ " has no return clause"
  | noReturnType function => "function " ++ function ++ " has no return type"
  | trailingText text procedure => "unexpected `" ++ text ++ "` after procedure " ++ procedure
  | namelessArgument => "argument has no name"
  | typelessArgument argument => "argument " ++ argument ++ " has no type"
  | emptyDefault argument => "argument " ++ argument ++ " has an empty default"
  | constantExpected name => "expected `constant` after " ++ name
  | typelessConstant constant => "constant " ++ constant ++ " has no type"
  | valuelessConstant constant => "constant " ++ constant ++ " has no value"

/-- The defect as the cause of an error, given the text of the declaration. -/
def cause (fragment : String) : Defect → Cause
  | unbalanced => .unbalancedParentheses fragment
  | d => .malformedDeclaration d.message fragment

end Defect

namespace Declaration

open Text

/-! ## Words in front -/

/-- Takes a keyword off the front, together with the blanks behind it. The keyword has to be a
whole word, and a quoted identifier must not follow it directly. -/
def takeKeyword? (keyword s : List Char) : Option (List Char) :=
  let rest := s.drop keyword.length
  if startsWithLetters keyword s && !rest.head?.any (fun c => isWordChar c || c == '"') then
    some (trimStart rest)
  else none

/-- Takes an identifier off the front: word characters of which the first is no digit, or any
characters between double quotes. The identifier is given without its quotes. -/
def takeIdentifier? (s : List Char) : Option (List Char × List Char) :=
  match trimStart s with
  | [] => none
  | c :: rest =>
    if c = '"' then
      match rest.takeWhile (· ≠ '"'), rest.dropWhile (· ≠ '"') with
      | [], _ | _, [] => none
      | name, _ :: others => some (name, others)
    else if isWordChar c && !c.isDigit then
      some (c :: rest.takeWhile isWordChar, rest.dropWhile isWordChar)
    else none

/-- Takes a direction off the front, if one is written there. -/
def takeDirection (s : List Char) : Option Direction × List Char :=
  match takeKeyword? "in".toList s with
  | some rest => match takeKeyword? "out".toList rest with
    | some others => (some .inOut, others)
    | none => (some .into, rest)
  | none => match takeKeyword? "out".toList s with
    | some rest => (some .out, rest)
    | none => (none, s)

/-! ## Types and expressions -/

/-- The text before the first place where an expression is assigned, and the expression, both
trimmed. An expression is introduced by `:=` or by the keyword `default`, whichever comes
first. -/
def splitDefault (s : List Char) : List Char × Option (List Char) :=
  let assign := ":=".toList
  let default := "default".toList
  let cut (i : Nat) (introduction : List Char) : List Char × Option (List Char) :=
    (trim (s.take i), some (trim (s.drop (i + introduction.length))))
  match findSequence? assign s, findKeyword? default s with
  | some i, some j => if i < j then cut i assign else cut j default
  | some i, none => cut i assign
  | none, some j => cut j default
  | none, none => (trim s, none)

/-- The keywords that may follow the return type and say nothing about how the function is
called. -/
def returnModifiers : List String :=
  ["deterministic", "pipelined", "parallel_enable", "result_cache"]

/-- The text up to the first modifier, trimmed. -/
def withoutModifiers (s : List Char) : List Char :=
  let ends := returnModifiers.filterMap fun modifier => findKeyword? modifier.toList s
  trim (s.take (ends.min?.getD s.length))

/-! ## Arguments -/

/-- Reads `NAME [in | out | in out] [nocopy] TYPE [:= EXPRESSION]`. -/
def readArgument (s : List Char) : Except Defect Argument := do
  let some (name, rest) := takeIdentifier? s | throw .namelessArgument
  let name := String.ofList name
  let (written, rest) := takeDirection (trimStart rest)
  let direction := written.getD .into
  let rest :=
    if direction.producesOutput then (takeKeyword? "nocopy".toList rest).getD rest else rest
  let (type, default) := splitDefault rest
  if type.isEmpty then throw (.typelessArgument name)
  if default = some [] then throw (.emptyDefault name)
  return {
    name
    direction
    explicitDirection := written.isSome
    typeName := String.ofList type
    defaultValue := default.map String.ofList
  }

/-! ## Declarations -/

/-- The name and the arguments of a routine, and what follows them. -/
structure Signature where
  name : String
  arguments : List Argument
  rest : List Char

/-- Reads the keyword of a routine, its name and its arguments. -/
def readSignature (kind : Source.Kind) (s : List Char) : Except Defect Signature := do
  let some rest := takeKeyword? kind.keyword.toList s | throw (.keywordExpected kind)
  let some (name, rest) := takeIdentifier? rest | throw (.nameless kind)
  let name := String.ofList name
  let rest := trimStart rest
  if rest.head? ≠ some '(' then return ⟨name, [], trim rest⟩
  let some close := matchingParen? rest 0 | throw .unbalanced
  let some params := split? ',' ((rest.take close).drop 1) | throw .unbalanced
  let arguments ← params.mapM readArgument
  return ⟨name, arguments, trim (rest.drop (close + 1))⟩

/-- Reads a function: its signature, and behind the keyword `return` its type. -/
def readFunction (s : List Char) : Except Defect Declaration := do
  let signature ← readSignature .function s
  let some rest := takeKeyword? "return".toList signature.rest
    | throw (.noReturnClause signature.name)
  let type := withoutModifiers rest
  if type.isEmpty then throw (.noReturnType signature.name)
  return .function signature.name signature.arguments (String.ofList type)

/-- Reads a procedure: its signature and nothing else. -/
def readProcedure (s : List Char) : Except Defect Declaration := do
  let signature ← readSignature .procedure s
  if !signature.rest.isEmpty then
    throw (.trailingText (String.ofList signature.rest) signature.name)
  return .procedure signature.name signature.arguments

/-- Reads `NAME constant TYPE := EXPRESSION`. -/
def readConstant (s : List Char) : Except Defect Declaration := do
  let some (name, rest) := takeIdentifier? s | throw (.nameless .constant)
  let name := String.ofList name
  let some rest := takeKeyword? "constant".toList (trimStart rest)
    | throw (.constantExpected name)
  let (type, value) := splitDefault rest
  if type.isEmpty then throw (.typelessConstant name)
  match value with
  | none | some [] => throw (.valuelessConstant name)
  | some value => return .constant name (String.ofList type) (String.ofList value)

/-- The text of a declaration without its semicolon and without blanks around it. -/
def body (s : List Char) : List Char :=
  trim (if s.getLast? = some ';' then s.dropLast else s)

/-- Reads a declaration of the given kind. Parentheses that do not balance come before every
other defect, and a missing semicolon before the rest. -/
def read (kind : Source.Kind) (s : List Char) (terminated : Bool) : Except Defect Declaration := do
  if !isBalanced s then throw .unbalanced
  if !terminated then throw .noSemicolon
  match kind with
  | .function => readFunction (body s)
  | .procedure => readProcedure (body s)
  | .constant => readConstant (body s)

/-- The declaration that a fragment holds. -/
def parse (f : Source.Fragment) : Except Error Declaration :=
  (read f.kind f.text.toList f.terminated).mapError fun d => .ofCause (d.cause f.text)

end Declaration

/-- The argument that a text holds, where `fragment` is the declaration to name in an error. -/
def Argument.parse (fragment text : String) : Except Error Argument :=
  (Declaration.readArgument text.toList).mapError fun d => .ofCause (d.cause fragment)

end StoredRoutine
