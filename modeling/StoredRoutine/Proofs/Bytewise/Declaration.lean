import StoredRoutine.Proofs.Bytewise.Fronts
import StoredRoutine.Proofs.Text.Groups

/-!
# Declarations by their bytes

A declaration is read with slices of its text alone, and none of them fails: read by bytes, every
fragment gives the declaration or the defect that it gives character by character (`parse_eq`).
-/

namespace StoredRoutine.Bytewise

open Source (byteLength)
open Text (trim trimStart)
open Delimited (offsetOf)

/-- Reading that can end in a defect, unless an access breaks a rule. -/
abbrev Reading := ExceptT Defect Checked

/-- The reading that breaks no rule and has the given result. -/
def given {α : Type} (result : Except Defect α) : Reading α := ExceptT.mk (.ok result)

@[simp]
theorem liftM_ok {α : Type} (a : α) : (liftM (Except.ok a : Checked α) : Reading α) = pure a := rfl

theorem given_bind {α β : Type} (result : Except Defect α) (next : α → Except Defect β) :
    given (result >>= next) = given result >>= fun a => given (next a) := by
  cases result <;> rfl

theorem mapM_given {α β : Type} {f : α → Reading β} {g : α → Except Defect β}
    (h : ∀ x, f x = given (g x)) (xs : List α) : xs.mapM f = given (xs.mapM g) := by
  induction xs with
  | nil => rfl
  | cons x xs ih =>
    rw [List.mapM_cons, List.mapM_cons, given_bind, h]
    refine congrArg (given (g x) >>= ·) (funext fun y => ?_)
    rw [given_bind, ih]
    rfl

/-! ## Arguments -/

/-- Takes the keyword `nocopy` off the front, if it is there and an output may have it. -/
def takeNoCopy (direction : Direction) (s : List Char) : Checked (List Char) :=
  if direction.producesOutput then do
    let rest ← takeKeyword? "nocopy".toList s
    return rest.getD s
  else return s

/-- Reads `NAME [in | out | in out] [nocopy] TYPE [:= EXPRESSION]`. -/
def readArgument (s : List Char) : Reading Argument := do
  let some (name, rest) ← takeIdentifier? s | throw .namelessArgument
  let name := String.ofList name
  let (written, rest) ← takeDirection (trimStart rest)
  let direction := written.getD .into
  let rest ← takeNoCopy direction rest
  let (type, default) ← splitDefault rest
  if type.isEmpty then throw (.typelessArgument name)
  if default = some [] then throw (.emptyDefault name)
  return {
    name
    direction
    explicitDirection := written.isSome
    typeName := String.ofList type
    defaultValue := default.map String.ofList
  }

theorem takeNoCopy_eq (direction : Direction) (s : List Char) :
    takeNoCopy direction s = .ok (if direction.producesOutput then
      (Declaration.takeKeyword? "nocopy".toList s).getD s else s) := by
  rw [takeNoCopy, takeKeyword?_eq]
  split_ifs <;> rfl

theorem readArgument_eq (s : List Char) :
    readArgument s = given (Declaration.readArgument s) := by
  rw [readArgument, Declaration.readArgument, takeIdentifier?_eq]
  cases Declaration.takeIdentifier? s with
  | none => rfl
  | some taken =>
    obtain ⟨name, rest⟩ := taken
    simp only [liftM_ok, pure_bind, takeDirection_eq, takeNoCopy_eq, splitDefault_eq]
    split_ifs <;> rfl

/-! ## Signatures -/

/-- Reads the keyword of a routine, its name and its arguments. -/
def readSignature (kind : Source.Kind) (s : List Char) : Reading Declaration.Signature := do
  let some rest ← takeKeyword? kind.keyword.toList s | throw (.keywordExpected kind)
  let some (name, rest) ← takeIdentifier? rest | throw (.nameless kind)
  let name := String.ofList name
  let rest := trimStart rest
  if rest.head? ≠ some '(' then return ⟨name, [], trim rest⟩
  let some close ← matchingParen? rest 0 | throw .unbalanced
  let inner ← slice rest 1 close
  let some params ← split? ',' inner | throw .unbalanced
  let arguments ← params.mapM readArgument
  let behind ← sliceFrom rest (close + 1)
  return ⟨name, arguments, trim behind⟩

/-- What is between a parenthesis and the one that closes it, and what is behind. -/
theorem slices_of_matchingParen? {t : List Char} {close : Nat}
    (h : Text.matchingParen? ('(' :: t) 0 = some close) :
    slice ('(' :: t) 1 (offsetOf ('(' :: t) close)
        = .ok ((('(' :: t).take close).drop 1) ∧
      sliceFrom ('(' :: t) (offsetOf ('(' :: t) close + 1)
        = .ok (('(' :: t).drop (close + 1)) := by
  have closing : Text.matchingParen? ('(' :: t) 0
      = (Text.closingFrom 0 (Text.Nesting.start.step '(') t).map (· + 1) := rfl
  obtain ⟨i, found, rfl⟩ := Option.map_eq_some_iff.1 (closing.symm.trans h)
  obtain ⟨inner, behind, rfl, rfl, -, -⟩ := Text.exists_of_closingFrom found
  have place : offsetOf ('(' :: (inner ++ ')' :: behind)) (inner.length + 1)
      = byteLength ['('] + byteLength inner := by
    rw [offsetOf, List.take_succ_cons, List.take_left]
    rfl
  have last : (('(' :: (inner ++ ')' :: behind)).drop (inner.length + 1)).take 1 = [')'] := by
    rw [List.drop_succ_cons, List.drop_left]
    rfl
  constructor
  · rw [place, List.take_succ_cons, List.take_left]
    exact slice_append ['('] inner (')' :: behind)
  · have rest := sliceFrom_offsetOf ('(' :: (inner ++ ')' :: behind)) (inner.length + 1 + 1)
    rw [offsetOf_add, last] at rest
    exact rest

theorem readSignature_eq (kind : Source.Kind) (s : List Char) :
    readSignature kind s = given (Declaration.readSignature kind s) := by
  rw [readSignature, Declaration.readSignature, takeKeyword?_eq]
  cases Declaration.takeKeyword? kind.keyword.toList s with
  | none => rfl
  | some rest =>
    simp only [liftM_ok, pure_bind, takeIdentifier?_eq]
    cases Declaration.takeIdentifier? rest with
    | none => rfl
    | some taken =>
      obtain ⟨name, rest⟩ := taken
      dsimp only
      generalize trimStart rest = text
      by_cases group : text.head? = some '('
      · obtain ⟨t, rfl⟩ : ∃ t, text = '(' :: t := by
          cases text with
          | nil => cases group
          | cons c t => exact ⟨t, by rw [Option.some.inj group]⟩
        simp only [matchingParen?_eq, liftM_ok, pure_bind]
        cases found : Text.matchingParen? ('(' :: t) 0 with
        | none => rfl
        | some close =>
          obtain ⟨inner, behind⟩ := slices_of_matchingParen? found
          have split (piece : List Char) : split? ',' piece = .ok (Text.split? ',' piece) :=
            split?_eq (by decide) piece
          simp only [Option.map_some, inner, behind, split,
            liftM_ok, pure_bind]
          cases Text.split? ',' ((('(' :: t).take close).drop 1) with
          | none => rfl
          | some params =>
            simp only [mapM_given readArgument_eq params]
            cases params.mapM Declaration.readArgument <;> rfl
      · simp only [group, ne_eq, not_false_eq_true, ↓reduceIte]
        rfl

/-! ## Declarations -/

/-- Reads a function: its signature, and behind the keyword `return` its type. -/
def readFunction (s : List Char) : Reading Declaration := do
  let signature ← readSignature .function s
  let some rest ← takeKeyword? "return".toList signature.rest
    | throw (.noReturnClause signature.name)
  let type ← withoutModifiers rest
  if type.isEmpty then throw (.noReturnType signature.name)
  return .function signature.name signature.arguments (String.ofList type)

/-- Reads a procedure: its signature and nothing else. -/
def readProcedure (s : List Char) : Reading Declaration := do
  let signature ← readSignature .procedure s
  if !signature.rest.isEmpty then
    throw (.trailingText (String.ofList signature.rest) signature.name)
  return .procedure signature.name signature.arguments

/-- Reads `NAME constant TYPE := EXPRESSION`. -/
def readConstant (s : List Char) : Reading Declaration := do
  let some (name, rest) ← takeIdentifier? s | throw (.nameless .constant)
  let name := String.ofList name
  let some rest ← takeKeyword? "constant".toList (trimStart rest)
    | throw (.constantExpected name)
  let (type, value) ← splitDefault rest
  if type.isEmpty then throw (.typelessConstant name)
  match value with
  | none | some [] => throw (.valuelessConstant name)
  | some value => return .constant name (String.ofList type) (String.ofList value)

/-- Reads a declaration of the given kind. -/
def read (kind : Source.Kind) (s : List Char) (terminated : Bool) : Reading Declaration := do
  if !(← isBalanced s) then throw .unbalanced
  if !terminated then throw .noSemicolon
  match kind with
  | .function => readFunction (Declaration.body s)
  | .procedure => readProcedure (Declaration.body s)
  | .constant => readConstant (Declaration.body s)

/-- The declaration that a fragment holds. -/
def parse (f : Source.Fragment) : Checked (Except Error Declaration) := do
  let result ← (read f.kind f.text.toList f.terminated).run
  return result.mapError fun d => .ofCause (d.cause f.text)

theorem readFunction_eq (s : List Char) :
    readFunction s = given (Declaration.readFunction s) := by
  rw [readFunction, Declaration.readFunction, given_bind, readSignature_eq]
  refine congrArg (given _ >>= ·) (funext fun signature => ?_)
  simp only [takeKeyword?_eq, liftM_ok, pure_bind]
  cases Declaration.takeKeyword? "return".toList signature.rest with
  | none => rfl
  | some rest =>
    simp only [withoutModifiers_eq, liftM_ok, pure_bind]
    split_ifs <;> rfl

theorem readProcedure_eq (s : List Char) :
    readProcedure s = given (Declaration.readProcedure s) := by
  rw [readProcedure, Declaration.readProcedure, given_bind, readSignature_eq]
  refine congrArg (given _ >>= ·) (funext fun signature => ?_)
  split_ifs <;> rfl

theorem readConstant_eq (s : List Char) :
    readConstant s = given (Declaration.readConstant s) := by
  rw [readConstant, Declaration.readConstant, takeIdentifier?_eq]
  cases Declaration.takeIdentifier? s with
  | none => rfl
  | some taken =>
    obtain ⟨name, rest⟩ := taken
    simp only [liftM_ok, pure_bind, takeKeyword?_eq]
    cases Declaration.takeKeyword? "constant".toList (trimStart rest) with
    | none => rfl
    | some rest =>
      simp only [splitDefault_eq, liftM_ok, pure_bind]
      obtain ⟨type, value⟩ := Declaration.splitDefault rest
      dsimp only
      split_ifs
      · rfl
      · rcases value with _ | _ | ⟨c, value⟩ <;> rfl

theorem read_eq (kind : Source.Kind) (s : List Char) (terminated : Bool) :
    read kind s terminated = given (Declaration.read kind s terminated) := by
  unfold read Declaration.read
  simp only [isBalanced_eq, liftM_ok, pure_bind]
  split_ifs
  · rfl
  · rfl
  · rfl
  · cases kind with
    | function => exact readFunction_eq _
    | procedure => exact readProcedure_eq _
    | constant => exact readConstant_eq _

/-- **Reading a fragment by bytes** breaks no rule, whatever its kind and its text are. -/
theorem parse_eq (f : Source.Fragment) : parse f = .ok (Declaration.parse f) := by
  rw [parse, read_eq]
  rfl

end StoredRoutine.Bytewise
