import StoredRoutine.Package
import StoredRoutine.Proofs.Declaration.Letters

/-!
# The case of letters does not matter

Two sources that differ in the case of ASCII letters only are processed alike. Each has the small
form of the other, and a source in small letters comes to what the source comes to, in small letters
(`Report.outcomes_small`): the types that it uses are found in the table under the same names, and
everything else is taken over as it was read.
-/

namespace StoredRoutine

open Text

/-! ## Types -/

namespace TypeTable

theorem outsideParentheses_asciiLower (depth : Nat) (name : List Char) :
    outsideParentheses depth (asciiLower name) = asciiLower (outsideParentheses depth name) := by
  induction name generalizing depth with
  | nil => rfl
  | cons c rest ih =>
    simp only [asciiLower_cons, outsideParentheses, toLower_eq_iff (d := '(') rfl,
      toLower_eq_iff (d := ')') rfl, ih]
    split
    · rfl
    · split
      · rfl
      · split <;> rfl

/-- **A type is known by one name**, whatever letters it is written in. -/
theorem normalize_small (name : String) : normalize (small name) = normalize name := by
  rw [normalize, normalizeChars, toList_small, outsideParentheses_asciiLower,
    blankWords_asciiLower, intercalate_asciiLower, lower_asciiLower, normalize, normalizeChars]

theorem classify_small (types : TypeTable) (name : String) :
    types.classify (small name) = mapBoth Error.small id (types.classify name) := by
  have hfind : types.find? (small name) = types.find? name := by
    rw [find?, normalize_small, find?]
  rw [classify, classify, hfind]
  cases types.find? name with
  | some mapping => rfl
  | none =>
    dsimp only
    rw [toList_small, trim_asciiLower, ← small_ofList]
    rfl

end TypeTable

/-! ## Members -/

/-- The binding with its argument in small letters. -/
def Binding.small (b : Binding) : Binding := { b with argument := b.argument.small }

/-- The call model in small letters. -/
def CallModel.small (m : CallModel) : CallModel where
  name := StoredRoutine.small m.name
  arguments := m.arguments.map Binding.small
  returnValue := m.returnValue.map Binding.small
  declaration := m.declaration.small

/-- The member in small letters. -/
def Member.small : Member → Member
  | routine model => routine model.small
  | constant name typeName value =>
    constant (StoredRoutine.small name) (StoredRoutine.small typeName) (StoredRoutine.small value)

theorem Binding.ofArgument_small (types : TypeTable) (argument : Argument) :
    ofArgument types argument.small =
      mapBoth Error.small Binding.small (ofArgument types argument) := by
  have htype : argument.small.typeName = StoredRoutine.small argument.typeName := rfl
  rw [ofArgument, htype, TypeTable.classify_small, ofArgument]
  cases types.classify argument.typeName <;> rfl

theorem CallModel.returnArgument_small (typeName : String) :
    returnArgument (StoredRoutine.small typeName) = (returnArgument typeName).small := by
  have hname : StoredRoutine.small "return_value" = "return_value" := small_eq_self (by decide)
  exact congrArg (fun name => Argument.mk name .out true (StoredRoutine.small typeName) none)
    hname.symm

theorem CallModel.ofDeclaration_small (types : TypeTable) (d : Declaration) :
    ofDeclaration types d.small = mapBoth Error.small CallModel.small (ofDeclaration types d) := by
  have harguments (arguments : List Argument) :
      (arguments.map Argument.small).mapM (Binding.ofArgument types) =
        mapBoth Error.small (List.map Binding.small)
          (arguments.mapM (Binding.ofArgument types)) :=
    mapM_map (Binding.ofArgument_small types) arguments
  cases d with
  | function name arguments returnType =>
    rw [Declaration.small, ofDeclaration, ofDeclaration, harguments]
    refine mapBoth_bind fun bindings => ?_
    rw [returnArgument_small, Binding.ofArgument_small]
    exact mapBoth_bind fun returned => rfl
  | procedure name arguments =>
    rw [Declaration.small, ofDeclaration, ofDeclaration, harguments]
    exact mapBoth_bind fun bindings => rfl
  | constant name typeName value => rfl

theorem Member.ofDeclaration_small (types : TypeTable) (d : Declaration) :
    ofDeclaration types d.small = mapBoth Error.small Member.small (ofDeclaration types d) := by
  have hroutine : (CallModel.ofDeclaration types d.small).map routine =
      mapBoth Error.small Member.small ((CallModel.ofDeclaration types d).map routine) := by
    rw [CallModel.ofDeclaration_small]
    cases CallModel.ofDeclaration types d <;> rfl
  cases d with
  | constant name typeName value => rfl
  | function name arguments returnType => exact hroutine
  | procedure name arguments => exact hroutine

/-! ## Reports -/

namespace Report

open Source

theorem memberOf_small (types : TypeTable) (f : Fragment) :
    memberOf types f.small = mapBoth Error.small Member.small (memberOf types f) := by
  rw [memberOf, Declaration.parse_small, memberOf]
  exact mapBoth_bind (Member.ofDeclaration_small types)

/-- **What a source in small letters comes to**, fragment by fragment. -/
theorem outcomes_small (types : TypeTable) (name source : String) :
    outcomes types name (small source) =
      (outcomes types name source).map (mapBoth Error.small Member.small) := by
  rw [outcomes, scan_small, List.map_map, outcomes, List.map_map]
  refine List.map_congr_left fun f _ => ?_
  rw [Function.comp_apply, Function.comp_apply, memberOf_small]
  cases memberOf types f <;> rfl

/-! ## Main statement -/

/-- **The case of letters does not matter.** Sources that differ in the case of ASCII letters only
have the same fragments at the same places, and each of them comes to the same member or to the same
error, but for the case of the letters in their texts. Everything else is equal: the kind of a
member and the number of its arguments, directions and whether they are written, tokens, families
and strategies, and which arguments have a default; the kind of an error, and its line and its
column. -/
theorem small_ofSource_of_sameName {source source' : String}
    (h : sameName source source' = true) (types : TypeTable) (name : String) :
    let report := ofSource types name source
    let report' := ofSource types name source'
    (scan source).map Fragment.small = (scan source').map Fragment.small ∧
      (outcomes types name source).map (mapBoth Error.small Member.small) =
        (outcomes types name source').map (mapBoth Error.small Member.small) ∧
      report.package.members.map Member.small = report'.package.members.map Member.small ∧
      report.errors.map Error.small = report'.errors.map Error.small := by
  intro report report'
  rw [sameName_iff] at h
  have houtcomes : (outcomes types name source).map (mapBoth Error.small Member.small) =
      (outcomes types name source').map (mapBoth Error.small Member.small) := by
    rw [← outcomes_small, ← outcomes_small, h]
  exact ⟨by rw [← scan_small, ← scan_small, h], houtcomes, map_eq_of_outcomes houtcomes⟩

/-- Keywords, types, names and literals in letters of either case, and a type that is not known. -/
theorem small_ofSource_of_two_spellings :
    let source := "x Constant A := 'Bc'; function F(a In Out nocopy NUMBER) Return d;"
    let source' := "X CONSTANT a := 'bC'; Function f(A IN out NOCOPY Number) RETURN D;"
    let report := ofSource .oracle "P" source
    let report' := ofSource .oracle "P" source'
    sameName source source' = true ∧
      report.package.members.map Member.small = report'.package.members.map Member.small ∧
      report.errors.map Error.small = report'.errors.map Error.small ∧
      report'.package.members = [.constant "X" "a" "'bC'"] ∧
      report'.errors.map (·.cause) = [.unknownDataType "D"] := by
  intro source source' report report'
  have hsame : sameName source source' = true := by decide +kernel
  obtain ⟨-, -, hmembers, herrors⟩ := small_ofSource_of_sameName hsame .oracle "P"
  refine ⟨hsame, hmembers, herrors, ?_, ?_⟩
  · decide +kernel
  · decide +kernel

end Report

end StoredRoutine
