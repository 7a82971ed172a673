import StoredRoutine.Declaration.Parser
import StoredRoutine.Proofs.Package.Outcomes
import StoredRoutine.Proofs.Source.Letters

/-!
# Declarations in small letters

What is read from a text in small letters is what is read from the text, in small letters, and
what is wrong with the one is wrong with the other (`parse_small`). Keywords are recognized in any
letters, and everything else that the reader looks for is no letter.

`small` turns the ASCII capitals in the texts of a record into small letters and keeps everything
else.
-/

namespace StoredRoutine

open Text

/-! ## Records in small letters -/

/-- The argument in small letters. -/
def Argument.small (a : Argument) : Argument :=
  { a with
    name := StoredRoutine.small a.name
    typeName := StoredRoutine.small a.typeName
    defaultValue := a.defaultValue.map StoredRoutine.small }

/-- The declaration in small letters. -/
def Declaration.small : Declaration → Declaration
  | function name arguments returnType =>
    function (StoredRoutine.small name) (arguments.map Argument.small)
      (StoredRoutine.small returnType)
  | procedure name arguments =>
    procedure (StoredRoutine.small name) (arguments.map Argument.small)
  | constant name typeName value =>
    constant (StoredRoutine.small name) (StoredRoutine.small typeName) (StoredRoutine.small value)

/-- The defect in small letters. -/
def Defect.small : Defect → Defect
  | unbalanced => unbalanced
  | noSemicolon => noSemicolon
  | keywordExpected kind => keywordExpected kind
  | nameless kind => nameless kind
  | noReturnClause function => noReturnClause (StoredRoutine.small function)
  | noReturnType function => noReturnType (StoredRoutine.small function)
  | trailingText text procedure =>
    trailingText (StoredRoutine.small text) (StoredRoutine.small procedure)
  | namelessArgument => namelessArgument
  | typelessArgument argument => typelessArgument (StoredRoutine.small argument)
  | emptyDefault argument => emptyDefault (StoredRoutine.small argument)
  | constantExpected name => constantExpected (StoredRoutine.small name)
  | typelessConstant constant => typelessConstant (StoredRoutine.small constant)
  | valuelessConstant constant => valuelessConstant (StoredRoutine.small constant)

/-- The cause in small letters. -/
def Cause.small : Cause → Cause
  | malformedDeclaration problem fragment =>
    malformedDeclaration (StoredRoutine.small problem) (StoredRoutine.small fragment)
  | unbalancedParentheses fragment => unbalancedParentheses (StoredRoutine.small fragment)
  | unknownDataType name => unknownDataType (StoredRoutine.small name)
  | notARoutine name => notARoutine (StoredRoutine.small name)
  | arityMismatch expected actual => arityMismatch expected actual
  | protocolMismatch argument expected actual =>
    protocolMismatch (StoredRoutine.small argument) expected (StoredRoutine.small actual)
  | driver problem => driver (StoredRoutine.small problem)
  | config problem => config (StoredRoutine.small problem)
  | io problem => io (StoredRoutine.small problem)
  | serialization problem => serialization (StoredRoutine.small problem)

/-- The error with its cause and the text of the declaration in small letters. -/
def Error.small (e : Error) : Error where
  cause := e.cause.small
  context := e.context.map fun c => { c with fragment := c.fragment.map StoredRoutine.small }

/-- A defect is worded in small letters. -/
theorem Defect.message_small (d : Defect) : d.small.message = StoredRoutine.small d.message := by
  have hkeyword (kind : Source.Kind) : StoredRoutine.small kind.keyword = kind.keyword := by
    cases kind <;> simp (disch := decide) only [Source.Kind.keyword, small_eq_self]
  cases d with
  | keywordExpected kind | nameless kind =>
    simp (disch := decide) only [small, message.eq_def, small_append, hkeyword, small_eq_self]
  | _ => simp (disch := decide) only [small, message.eq_def, small_append, small_eq_self]

theorem Defect.cause_small (d : Defect) (fragment : String) :
    d.small.cause (StoredRoutine.small fragment) = (d.cause fragment).small := by
  cases d with
  | unbalanced => rfl
  | _ => exact congrArg (Cause.malformedDeclaration · _) (message_small _)

namespace Declaration

/-! ## Words in front -/

theorem takeKeyword?_asciiLower (keyword s : List Char) :
    takeKeyword? keyword (asciiLower s) = (takeKeyword? keyword s).map asciiLower := by
  have hnext (c : Char) : (isWordChar c.toLower || c.toLower == '"') = (isWordChar c || c == '"') :=
    apply_toLower (fun c => isWordChar c || c == '"') (by decide) c
  have hbehind := @any_head?_asciiLower (fun c => isWordChar c || c == '"') hnext
  simp only [takeKeyword?, startsWithLetters_asciiLower, drop_asciiLower, hbehind,
    trimStart_asciiLower]
  split <;> rfl

theorem takeIdentifier?_asciiLower (s : List Char) :
    takeIdentifier? (asciiLower s) =
      (takeIdentifier? s).map fun (name, rest) => (asciiLower name, asciiLower rest) := by
  have hquote (c : Char) : c.toLower = '"' ↔ c = '"' := toLower_eq_iff rfl c
  have hinside (c : Char) : decide (c.toLower ≠ '"') = decide (c ≠ '"') := by
    simp only [ne_eq, hquote]
  rw [takeIdentifier?, takeIdentifier?, trimStart_asciiLower]
  cases trimStart s with
  | nil => rfl
  | cons c rest =>
    simp only [asciiLower_cons, hquote, isWordChar_toLower, isDigit_toLower,
      @takeWhile_asciiLower (fun c => decide (c ≠ '"')) hinside,
      @dropWhile_asciiLower (fun c => decide (c ≠ '"')) hinside,
      takeWhile_asciiLower isWordChar_toLower, dropWhile_asciiLower isWordChar_toLower]
    by_cases hc : c = '"'
    · rw [if_pos hc, if_pos hc]
      cases rest.takeWhile (fun c => decide (c ≠ '"')) with
      | nil => rfl
      | cons d name => cases rest.dropWhile (fun c => decide (c ≠ '"')) <;> rfl
    · rw [if_neg hc, if_neg hc]
      split <;> rfl

theorem takeDirection_asciiLower (s : List Char) :
    takeDirection (asciiLower s) = ((takeDirection s).1, asciiLower (takeDirection s).2) := by
  unfold takeDirection
  rw [takeKeyword?_asciiLower]
  cases takeKeyword? "in".toList s with
  | some rest =>
    rw [Option.map_some]
    dsimp only
    rw [takeKeyword?_asciiLower]
    cases takeKeyword? "out".toList rest <;> rfl
  | none =>
    rw [Option.map_none]
    dsimp only
    rw [takeKeyword?_asciiLower]
    cases takeKeyword? "out".toList s <;> rfl

/-! ## Types and expressions -/

theorem splitDefault_asciiLower (s : List Char) :
    splitDefault (asciiLower s) =
      (asciiLower (splitDefault s).1, (splitDefault s).2.map asciiLower) := by
  have hsequence : ∀ c ∈ ":=".toList, c.isAlpha = false :=
    List.forall_mem_cons.mpr ⟨rfl, List.forall_mem_singleton.mpr rfl⟩
  have hassign := findSequence?_asciiLower hsequence s
  simp only [splitDefault, hassign, findKeyword?_asciiLower, take_asciiLower, drop_asciiLower,
    trim_asciiLower]
  cases findSequence? ":=".toList s with
  | none => cases findKeyword? "default".toList s <;> rfl
  | some i =>
    cases findKeyword? "default".toList s with
    | none => rfl
    | some j =>
      dsimp only
      split <;> rfl

theorem withoutModifiers_asciiLower (s : List Char) :
    withoutModifiers (asciiLower s) = asciiLower (withoutModifiers s) := by
  simp only [withoutModifiers, findKeyword?_asciiLower, length_asciiLower, take_asciiLower,
    trim_asciiLower]

/-! ## Arguments -/

theorem map_asciiLower_eq_some_nil (default : Option (List Char)) :
    default.map asciiLower = some [] ↔ default = some [] := by
  cases default with
  | none => simp
  | some value => cases value <;> simp

theorem map_ofList_asciiLower (default : Option (List Char)) :
    (default.map asciiLower).map String.ofList =
      (default.map String.ofList).map StoredRoutine.small := by
  cases default with
  | none => rfl
  | some value => exact congrArg some (small_ofList value).symm

theorem readArgument_asciiLower (s : List Char) :
    readArgument (asciiLower s) = mapBoth Defect.small Argument.small (readArgument s) := by
  unfold readArgument
  rw [takeIdentifier?_asciiLower]
  cases takeIdentifier? s with
  | none => rfl
  | some found =>
    obtain ⟨name, rest⟩ := found
    simp only [Option.map_some, trimStart_asciiLower, takeDirection_asciiLower]
    obtain ⟨written, rest⟩ := takeDirection (trimStart rest)
    -- the keyword is dropped from both or from neither
    have hnocopy : (if (written.getD .into).producesOutput = true then
          (takeKeyword? "nocopy".toList (asciiLower rest)).getD (asciiLower rest)
        else asciiLower rest) =
        asciiLower (if (written.getD .into).producesOutput = true then
          (takeKeyword? "nocopy".toList rest).getD rest
        else rest) := by
      rw [takeKeyword?_asciiLower]
      split
      · cases takeKeyword? "nocopy".toList rest <;> rfl
      · rfl
    simp only [hnocopy, splitDefault_asciiLower, isEmpty_asciiLower, map_asciiLower_eq_some_nil,
      map_ofList_asciiLower, ← small_ofList]
    generalize (if (written.getD .into).producesOutput = true then _ else rest) = rest
    split
    · rfl
    · split <;> rfl

/-! ## Declarations -/

/-- The signature in small letters. -/
def Signature.small (signature : Signature) : Signature where
  name := StoredRoutine.small signature.name
  arguments := signature.arguments.map Argument.small
  rest := asciiLower signature.rest

theorem readSignature_asciiLower (kind : Source.Kind) (s : List Char) :
    readSignature kind (asciiLower s) =
      mapBoth Defect.small Signature.small (readSignature kind s) := by
  unfold readSignature
  rw [takeKeyword?_asciiLower]
  cases takeKeyword? kind.keyword.toList s with
  | none => rfl
  | some rest =>
    simp only [Option.map_some, takeIdentifier?_asciiLower]
    cases takeIdentifier? rest with
    | none => rfl
    | some found =>
      obtain ⟨name, rest⟩ := found
      simp only [Option.map_some, trimStart_asciiLower, head?_asciiLower, ne_eq,
        map_toLower_eq_some (d := '(') rfl, matchingParen?_asciiLower, take_asciiLower,
        drop_asciiLower, trim_asciiLower, ← small_ofList]
      by_cases hopen : ¬ (trimStart rest).head? = some '('
      · rw [if_pos hopen, if_pos hopen]
        rfl
      · rw [if_neg hopen, if_neg hopen]
        cases matchingParen? (trimStart rest) 0 with
        | none => rfl
        | some close =>
          dsimp only
          -- the group is closed at the same place, and split at the same commas
          rw [split?_asciiLower (by decide)]
          cases split? ',' (((trimStart rest).take close).drop 1) with
          | none => rfl
          | some params =>
            rw [Option.map_some]
            dsimp only
            rw [mapM_map readArgument_asciiLower]
            exact mapBoth_bind fun _ => rfl

theorem readFunction_asciiLower (s : List Char) :
    readFunction (asciiLower s) = mapBoth Defect.small small (readFunction s) := by
  unfold readFunction
  rw [readSignature_asciiLower]
  refine mapBoth_bind fun signature => ?_
  simp only [Signature.small, takeKeyword?_asciiLower]
  cases takeKeyword? "return".toList signature.rest with
  | none => rfl
  | some rest =>
    simp only [Option.map_some, withoutModifiers_asciiLower, isEmpty_asciiLower, ← small_ofList]
    split <;> rfl

theorem readProcedure_asciiLower (s : List Char) :
    readProcedure (asciiLower s) = mapBoth Defect.small small (readProcedure s) := by
  unfold readProcedure
  rw [readSignature_asciiLower]
  refine mapBoth_bind fun signature => ?_
  simp only [Signature.small, isEmpty_asciiLower, ← small_ofList]
  split <;> rfl

theorem readConstant_asciiLower (s : List Char) :
    readConstant (asciiLower s) = mapBoth Defect.small small (readConstant s) := by
  unfold readConstant
  rw [takeIdentifier?_asciiLower]
  cases takeIdentifier? s with
  | none => rfl
  | some found =>
    obtain ⟨name, rest⟩ := found
    simp only [Option.map_some, trimStart_asciiLower, takeKeyword?_asciiLower, ← small_ofList]
    cases takeKeyword? "constant".toList (trimStart rest) with
    | none => rfl
    | some rest =>
      simp only [Option.map_some, splitDefault_asciiLower, isEmpty_asciiLower, ← small_ofList]
      by_cases htype : (splitDefault rest).1.isEmpty = true
      · rw [if_pos htype, if_pos htype]
        rfl
      · rw [if_neg htype, if_neg htype]
        cases (splitDefault rest).2 with
        | none => rfl
        | some value =>
          cases value with
          | nil => rfl
          | cons c value =>
            -- the reader looks whether there is a first character, so the value is opened up
            have hvalue : String.ofList (asciiLower (c :: value)) =
                StoredRoutine.small (String.ofList (c :: value)) := (small_ofList _).symm
            rw [Option.map_some, asciiLower_cons]
            dsimp only
            rw [← asciiLower_cons, hvalue]
            rfl

theorem body_asciiLower (s : List Char) : body (asciiLower s) = asciiLower (body s) := by
  have hlast : (asciiLower s).getLast? = some ';' ↔ s.getLast? = some ';' := by
    rw [asciiLower, List.getLast?_map, map_toLower_eq_some rfl]
  have hfront : (asciiLower s).dropLast = asciiLower s.dropLast := List.map_dropLast.symm
  simp only [body, hlast, hfront]
  rw [← trim_asciiLower]
  split <;> rfl

/-- **Reading small letters** gives what reading gives, in small letters. -/
theorem read_asciiLower (kind : Source.Kind) (s : List Char) (terminated : Bool) :
    read kind (asciiLower s) terminated = mapBoth Defect.small small (read kind s terminated) := by
  unfold read
  rw [isBalanced_asciiLower, body_asciiLower, readFunction_asciiLower, readProcedure_asciiLower,
    readConstant_asciiLower]
  dsimp only
  split
  · rfl
  · split
    · rfl
    · cases kind <;> rfl

/-- **Parsing small letters** gives what parsing gives, in small letters. -/
theorem parse_small (f : Source.Fragment) :
    parse f.small = mapBoth Error.small small (parse f) := by
  have hread : read f.small.kind f.small.text.toList f.small.terminated =
      mapBoth Defect.small small (read f.kind f.text.toList f.terminated) := by
    rw [← read_asciiLower, ← toList_small]
    rfl
  rw [parse, hread, parse]
  cases read f.kind f.text.toList f.terminated with
  | ok d => rfl
  | error d => exact congrArg (fun cause => Except.error (Error.ofCause cause)) (d.cause_small f.text)

end Declaration

end StoredRoutine
