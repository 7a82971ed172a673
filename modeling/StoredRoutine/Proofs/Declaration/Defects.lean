import StoredRoutine.Proofs.Declaration.Accepted

/-!
# What is wrong with a declaration

A defect is known by its wording: no other one is worded as a keyword that is missing in front
(`Defect.eq_keywordExpected`), as a constant without a name (`Defect.eq_nameless`) or as a missing
keyword `constant` (`Defect.exists_constantExpected`). And each of them is found in one place only,
so that a fragment fails with it exactly if the reader stops there (`failsWith_keywordExpected`,
`failsWith_nameless`, `failsWith_constantExpected`).
-/

namespace StoredRoutine

open Text

/-! ## Wordings -/

namespace Defect

/-- A missing keyword is worded as no other defect is, but for the one of a constant. -/
theorem eq_keywordExpected {d : Defect} {kind : Source.Kind} (hkind : kind ≠ .constant)
    (h : d.message = (keywordExpected kind).message) : d = .keywordExpected kind := by
  have hchars := congrArg (fun s : String => s.toList.take 11) h
  cases d with
  | keywordExpected k =>
    obtain rfl : k = kind := by
      cases k <;> cases kind <;> first | rfl | exact absurd h (by decide)
    rfl
  | nameless k =>
    have hne : (nameless k).message ≠ (keywordExpected kind).message := by
      cases k <;> cases kind <;> decide
    exact absurd h hne
  | constantExpected name =>
    cases kind with
    | constant => exact absurd rfl hkind
    | _ => simp [message.eq_def, Source.Kind.keyword] at hchars
  | _ => simp [message.eq_def] at hchars

/-- A constant without a name is worded as no other defect is. -/
theorem eq_nameless {d : Defect} (h : d.message = (nameless .constant).message) :
    d = .nameless .constant := by
  have hfirst := congrArg (fun s : String => s.toList.head?) h
  have hlast := congrArg (fun s : String => s.toList.reverse.take 2) h
  cases d with
  | keywordExpected k =>
    have hne : (keywordExpected k).message ≠ (nameless .constant).message := by
      cases k <;> decide
    exact absurd h hne
  | nameless k =>
    obtain rfl : k = .constant := by
      cases k <;> first | rfl | exact absurd h (by decide)
    rfl
  | typelessConstant name | valuelessConstant name =>
    simp [message.eq_def, Source.Kind.keyword] at hlast
  | _ => simp [message.eq_def, Source.Kind.keyword] at hfirst

/-- A missing `constant` is worded as no other defect is, whatever the name. -/
theorem exists_constantExpected {d : Defect} {other : String}
    (h : d.message = (constantExpected other).message) : ∃ name, d = .constantExpected name := by
  have hchars := congrArg (fun s : String => s.toList.take 20) h
  cases d with
  | constantExpected name => exact ⟨name, rfl⟩
  | keywordExpected k => cases k <;> simp [message.eq_def, Source.Kind.keyword] at hchars
  | nameless k => cases k <;> simp [message.eq_def, Source.Kind.keyword] at hchars
  | _ => simp [message.eq_def] at hchars

end Defect

namespace Declaration

/-! ## Readers -/

/-- What can be wrong with an argument. -/
theorem of_readArgument_eq_error {s : List Char} {d : Defect} (h : readArgument s = .error d) :
    d = .namelessArgument ∨ (∃ name, d = .typelessArgument name) ∨
      ∃ name, d = .emptyDefault name := by
  unfold readArgument at h
  cases hident : takeIdentifier? s with
  | none =>
    rw [hident] at h
    cases h
    exact .inl rfl
  | some found =>
    rw [hident] at h
    dsimp only at h
    cases hdirection : takeDirection (trimStart found.2) with
    | mk written others =>
      rw [hdirection] at h
      dsimp only at h
      cases hsplit : splitDefault (if (written.getD .into).producesOutput then
          (takeKeyword? "nocopy".toList others).getD others else others) with
      | mk type value? =>
        rw [hsplit] at h
        dsimp only at h
        by_cases htype : type.isEmpty = true
        · rw [if_pos htype] at h
          cases h
          exact .inr (.inl ⟨_, rfl⟩)
        · by_cases hvalue : value? = some []
          · rw [if_neg htype, if_pos hvalue] at h
            cases h
            exact .inr (.inr ⟨_, rfl⟩)
          · rw [if_neg htype, if_neg hvalue] at h
            cases h

/-- **What can be wrong with a signature**, in the order in which it is found out. -/
theorem of_readSignature_eq_error {kind : Source.Kind} {s : List Char} {d : Defect}
    (h : readSignature kind s = .error d) :
    takeKeyword? kind.keyword.toList s = none ∧ d = .keywordExpected kind ∨ d = .nameless kind ∨
      (d = .unbalanced ∧ ∃ rest name others, takeKeyword? kind.keyword.toList s = some rest ∧
        takeIdentifier? rest = some (name, others) ∧ (trimStart others).head? = some '(' ∧
        ∀ close params, matchingParen? (trimStart others) 0 = some close →
          split? ',' (((trimStart others).take close).drop 1) ≠ some params) ∨
      ∃ param, readArgument param = .error d := by
  unfold readSignature at h
  cases hkeyword : takeKeyword? kind.keyword.toList s with
  | none =>
    rw [hkeyword] at h
    cases h
    exact .inl ⟨rfl, rfl⟩
  | some rest =>
    rw [hkeyword] at h
    dsimp only at h
    refine .inr ?_
    cases hident : takeIdentifier? rest with
    | none =>
      rw [hident] at h
      cases h
      exact .inl rfl
    | some found =>
      obtain ⟨name, others⟩ := found
      rw [hident] at h
      dsimp only at h
      refine .inr ?_
      by_cases hopen : (trimStart others).head? = some '('
      · rw [if_neg (not_not_intro hopen)] at h
        cases hmatching : matchingParen? (trimStart others) 0 with
        | none =>
          rw [hmatching] at h
          cases h
          refine .inl ⟨rfl, rest, name, others, rfl, hident, hopen, fun close params hclose => ?_⟩
          rw [hmatching] at hclose
          cases hclose
        | some close =>
          rw [hmatching] at h
          dsimp only at h
          cases hsplit : split? ',' (((trimStart others).take close).drop 1) with
          | none =>
            rw [hsplit] at h
            cases h
            refine .inl ⟨rfl, rest, name, others, rfl, hident, hopen, fun close' params hclose => ?_⟩
            rw [hmatching] at hclose
            obtain rfl := Option.some.inj hclose
            rw [hsplit]
            exact (Option.some_ne_none params).symm
          | some params =>
            rw [hsplit] at h
            rcases bind_eq_error.mp h with h | ⟨arguments, -, h⟩
            · obtain ⟨-, param, -, -, -, hparam⟩ := mapM_eq_error.mp h
              exact .inr ⟨param, hparam⟩
            · cases h
      · rw [if_pos hopen] at h
        cases h

/-- What can be wrong with a function but for its signature. -/
theorem of_readFunction_eq_error {s : List Char} {d : Defect} (h : readFunction s = .error d) :
    readSignature .function s = .error d ∨ (∃ name, d = .noReturnClause name) ∨
      ∃ name, d = .noReturnType name := by
  rw [readFunction, bind_eq_error] at h
  rcases h with h | ⟨signature, -, h⟩
  · exact .inl h
  · cases hreturn : takeKeyword? "return".toList signature.rest with
    | none =>
      rw [hreturn] at h
      cases h
      exact .inr (.inl ⟨_, rfl⟩)
    | some rest =>
      rw [hreturn] at h
      dsimp only at h
      by_cases hempty : (withoutModifiers rest).isEmpty = true
      · rw [if_pos hempty] at h
        cases h
        exact .inr (.inr ⟨_, rfl⟩)
      · rw [if_neg hempty] at h
        cases h

/-- What can be wrong with a procedure but for its signature. -/
theorem of_readProcedure_eq_error {s : List Char} {d : Defect} (h : readProcedure s = .error d) :
    readSignature .procedure s = .error d ∨ ∃ text name, d = .trailingText text name := by
  rw [readProcedure, bind_eq_error] at h
  rcases h with h | ⟨signature, -, h⟩
  · exact .inl h
  · by_cases hempty : (!signature.rest.isEmpty) = true
    · rw [if_pos hempty] at h
      cases h
      exact .inr ⟨_, _, rfl⟩
    · rw [if_neg hempty] at h
      cases h

/-- **The keyword is missed in one place.** -/
theorem readSignature_eq_keywordExpected {kind other : Source.Kind} {s : List Char} :
    readSignature kind s = .error (.keywordExpected other) ↔
      takeKeyword? kind.keyword.toList s = none ∧ kind = other := by
  constructor
  · intro h
    rcases of_readSignature_eq_error h with ⟨hnone, h⟩ | h | ⟨h, -⟩ | ⟨param, hparam⟩
    · cases h
      exact ⟨hnone, rfl⟩
    · cases h
    · cases h
    · -- the defects of the arguments are others
      rcases of_readArgument_eq_error hparam with h | ⟨name, h⟩ | ⟨name, h⟩ <;> cases h
  · rintro ⟨hnone, rfl⟩
    unfold readSignature
    rw [hnone]
    rfl

theorem readFunction_eq_keywordExpected {kind : Source.Kind} {s : List Char} :
    readFunction s = .error (.keywordExpected kind) ↔
      takeKeyword? Source.Kind.function.keyword.toList s = none ∧ .function = kind := by
  rw [← readSignature_eq_keywordExpected]
  constructor
  · intro h
    rcases of_readFunction_eq_error h with h | ⟨name, h⟩ | ⟨name, h⟩
    · exact h
    · cases h
    · cases h
  · exact fun h => bind_eq_error.mpr (.inl h)

theorem readProcedure_eq_keywordExpected {kind : Source.Kind} {s : List Char} :
    readProcedure s = .error (.keywordExpected kind) ↔
      takeKeyword? Source.Kind.procedure.keyword.toList s = none ∧ .procedure = kind := by
  rw [← readSignature_eq_keywordExpected]
  constructor
  · intro h
    rcases of_readProcedure_eq_error h with h | ⟨text, name, h⟩
    · exact h
    · cases h
  · exact fun h => bind_eq_error.mpr (.inl h)

/-- **What can be wrong with a constant**, in the order in which it is found out. -/
theorem of_readConstant_eq_error {s : List Char} {d : Defect} (h : readConstant s = .error d) :
    takeIdentifier? s = none ∧ d = .nameless .constant ∨
      ∃ name rest, takeIdentifier? s = some (name, rest) ∧
        (takeKeyword? Source.Kind.constant.keyword.toList (trimStart rest) = none ∧
            d = .constantExpected (String.ofList name) ∨
          takeKeyword? Source.Kind.constant.keyword.toList (trimStart rest) ≠ none ∧
            (d = .typelessConstant (String.ofList name) ∨
              d = .valuelessConstant (String.ofList name))) := by
  unfold readConstant at h
  cases hident : takeIdentifier? s with
  | none =>
    rw [hident] at h
    cases h
    exact .inl ⟨rfl, rfl⟩
  | some found =>
    obtain ⟨name, rest⟩ := found
    rw [hident] at h
    dsimp only at h
    refine .inr ⟨name, rest, rfl, ?_⟩
    cases hconstant : takeKeyword? Source.Kind.constant.keyword.toList (trimStart rest) with
    | none =>
      rw [Source.Kind.keyword] at hconstant
      rw [hconstant] at h
      cases h
      exact .inl ⟨rfl, rfl⟩
    | some others =>
      rw [Source.Kind.keyword] at hconstant
      rw [hconstant] at h
      dsimp only at h
      refine .inr ⟨Option.some_ne_none others, ?_⟩
      by_cases htype : (splitDefault others).1.isEmpty = true
      · rw [if_pos htype] at h
        cases h
        exact .inl rfl
      · rw [if_neg htype] at h
        cases hvalue : (splitDefault others).2 with
        | none =>
          rw [hvalue] at h
          cases h
          exact .inr rfl
        | some value =>
          rw [hvalue] at h
          cases value with
          | nil =>
            cases h
            exact .inr rfl
          | cons c value => cases h

theorem readConstant_eq_nameless {s : List Char} :
    readConstant s = .error (.nameless .constant) ↔ takeIdentifier? s = none := by
  constructor
  · intro h
    rcases of_readConstant_eq_error h with ⟨hnone, -⟩ | ⟨name, rest, -, ⟨-, h⟩ | ⟨-, h | h⟩⟩
    · exact hnone
    · cases h
    · cases h
    · cases h
  · intro hnone
    unfold readConstant
    rw [hnone]
    rfl

theorem readConstant_eq_constantExpected {s : List Char} :
    (∃ name, readConstant s = .error (.constantExpected name)) ↔
      ∃ name rest, takeIdentifier? s = some (name, rest) ∧
        takeKeyword? Source.Kind.constant.keyword.toList (trimStart rest) = none := by
  constructor
  · rintro ⟨name, h⟩
    rcases of_readConstant_eq_error h with ⟨-, h⟩ | ⟨name', rest, hident, ⟨hnone, -⟩ | ⟨-, h | h⟩⟩
    · cases h
    · exact ⟨name', rest, hident, hnone⟩
    · cases h
    · cases h
  · rintro ⟨name, rest, hident, hnone⟩
    rw [Source.Kind.keyword] at hnone
    refine ⟨String.ofList name, ?_⟩
    unfold readConstant
    rw [hident]
    dsimp only
    rw [hnone]
    rfl

/-! ## Fragments -/

/-- The reader of a kind of declaration. -/
def readBody : Source.Kind → List Char → Except Defect Declaration
  | .function => readFunction
  | .procedure => readProcedure
  | .constant => readConstant

/-- What is wrong with the declaration itself comes to light if its parentheses balance and it has
its semicolon. -/
theorem read_eq_error {kind : Source.Kind} {s : List Char} {terminated : Bool} {d : Defect}
    (hd : d ≠ .unbalanced) (hd' : d ≠ .noSemicolon) :
    read kind s terminated = .error d ↔
      isBalanced s = true ∧ terminated = true ∧ readBody kind (body s) = .error d := by
  unfold read
  by_cases hbalanced : (!isBalanced s) = true
  · have hfalse : isBalanced s = false := by simpa using hbalanced
    rw [if_pos hbalanced, hfalse]
    refine ⟨fun h => ?_, fun ⟨h, _⟩ => by cases h⟩
    cases h
    exact absurd rfl hd
  · have htrue : isBalanced s = true := by simpa using hbalanced
    rw [if_neg hbalanced, htrue]
    cases terminated with
    | false =>
      refine ⟨fun h => ?_, fun ⟨_, h, _⟩ => by cases h⟩
      cases h
      exact absurd rfl hd'
    | true =>
      refine ⟨fun h => ⟨rfl, rfl, ?_⟩, fun ⟨_, _, h⟩ => ?_⟩
      · cases kind <;> exact h
      · cases kind <;> exact h

/-- Reading the fragment fails, and this is what is said to be wrong with it. -/
def FailsWith (f : Source.Fragment) (problem : String) : Prop :=
  parse f = .error (.ofCause (.malformedDeclaration problem f.text))

theorem failsWith_iff {f : Source.Fragment} {problem : String} :
    FailsWith f problem ↔ ∃ d, d ≠ .unbalanced ∧ d.message = problem ∧
      read f.kind f.text.toList f.terminated = .error d := by
  unfold FailsWith parse
  cases hread : read f.kind f.text.toList f.terminated with
  | ok d =>
    refine ⟨fun h => (by cases h), ?_⟩
    rintro ⟨d, -, -, h⟩
    cases h
  | error d =>
    constructor
    · intro h
      have hcause : d.cause f.text = .malformedDeclaration problem f.text :=
        congrArg Error.cause (Except.error.inj h)
      cases d with
      | unbalanced => cases hcause
      | _ => exact ⟨_, (fun h => by cases h), (Cause.malformedDeclaration.inj hcause).1, rfl⟩
    · rintro ⟨d', hd', rfl, h⟩
      cases h
      cases d with
      | unbalanced => exact absurd rfl hd'
      | _ => rfl

variable {f : Source.Fragment}

/-- **Where the keyword of a routine is missed**: only that of its own kind is looked for. -/
theorem failsWith_keywordExpected (hkind : f.kind ≠ .constant) {kind : Source.Kind}
    (hother : kind ≠ .constant) :
    FailsWith f ("expected `" ++ kind.keyword ++ "`") ↔
      f.kind = kind ∧ isBalanced f.text.toList = true ∧ f.terminated = true ∧
        takeKeyword? f.kind.keyword.toList (body f.text.toList) = none := by
  have hbody : readBody f.kind (body f.text.toList) = .error (.keywordExpected kind) ↔
      takeKeyword? f.kind.keyword.toList (body f.text.toList) = none ∧ f.kind = kind := by
    generalize body f.text.toList = s
    cases hk : f.kind with
    | function => exact readFunction_eq_keywordExpected
    | procedure => exact readProcedure_eq_keywordExpected
    | constant => exact absurd hk hkind
  have hread : read f.kind f.text.toList f.terminated = .error (.keywordExpected kind) ↔ _ :=
    read_eq_error (by simp) (by simp)
  rw [hbody] at hread
  constructor
  · intro h
    obtain ⟨d, -, hmessage, h⟩ := failsWith_iff.mp h
    rw [Defect.eq_keywordExpected hother hmessage] at h
    obtain ⟨hbalanced, hterminated, hnone, hsame⟩ := hread.mp h
    exact ⟨hsame, hbalanced, hterminated, hnone⟩
  · rintro ⟨hsame, hbalanced, hterminated, hnone⟩
    exact failsWith_iff.mpr ⟨.keywordExpected kind, by simp, rfl,
      hread.mpr ⟨hbalanced, hterminated, hnone, hsame⟩⟩

/-- **Where the name of a constant is missed.** -/
theorem failsWith_nameless (hkind : f.kind = .constant) :
    FailsWith f "constant has no name" ↔
      isBalanced f.text.toList = true ∧ f.terminated = true ∧
        takeIdentifier? (body f.text.toList) = none := by
  rw [← readConstant_eq_nameless]
  constructor
  · intro h
    obtain ⟨d, hd, hmessage, h⟩ := failsWith_iff.mp h
    obtain rfl := Defect.eq_nameless hmessage
    obtain ⟨hbalanced, hterminated, h⟩ := (read_eq_error hd (by simp)).mp h
    rw [hkind] at h
    exact ⟨hbalanced, hterminated, h⟩
  · rintro ⟨hbalanced, hterminated, h⟩
    refine failsWith_iff.mpr ⟨.nameless .constant, by simp, rfl, ?_⟩
    refine (read_eq_error (by simp) (by simp)).mpr ⟨hbalanced, hterminated, ?_⟩
    rw [hkind]
    exact h

/-- **Where the keyword `constant` is missed.** -/
theorem failsWith_constantExpected (hkind : f.kind = .constant) :
    (∃ other, FailsWith f ("expected `constant` after " ++ other)) ↔
      isBalanced f.text.toList = true ∧ f.terminated = true ∧
        ∃ name rest, takeIdentifier? (body f.text.toList) = some (name, rest) ∧
          takeKeyword? Source.Kind.constant.keyword.toList (trimStart rest) = none := by
  rw [← readConstant_eq_constantExpected]
  constructor
  · rintro ⟨other, h⟩
    obtain ⟨d, hd, hmessage, h⟩ := failsWith_iff.mp h
    obtain ⟨name, rfl⟩ := Defect.exists_constantExpected hmessage
    obtain ⟨hbalanced, hterminated, h⟩ := (read_eq_error hd (by simp)).mp h
    rw [hkind] at h
    exact ⟨hbalanced, hterminated, name, h⟩
  · rintro ⟨hbalanced, hterminated, name, h⟩
    refine ⟨name, failsWith_iff.mpr ⟨.constantExpected name, by simp, rfl, ?_⟩⟩
    refine (read_eq_error (by simp) (by simp)).mpr ⟨hbalanced, hterminated, ?_⟩
    rw [hkind]
    exact h

end Declaration

end StoredRoutine
