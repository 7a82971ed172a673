import StoredRoutine.Package
import StoredRoutine.Proofs.CallModel
import StoredRoutine.Proofs.Declaration.Accepted

/-!
# Every fragment is accounted for

Each fragment of a specification is read and resolved by itself, and comes to one member or to one
error. The members and the errors of a report are therefore the fragments of its source, sorted into
two lists without a change of order (`Accounted`).

What kind of member a fragment comes to is known from the fragment (`Report.kind_of_memberOf`). What
can go wrong with it is its own fault: it cannot be read, and then the error holds its text, or it
uses a type that is not known (`Report.blames_of_memberOf`).
-/

namespace StoredRoutine

/-! ## Errors of a declaration -/

/-- The declaration with the given text is to blame: it cannot be read, and this is the text that
is reported, or it uses an unknown type. -/
inductive Blames (text : String) : Cause → Prop where
  | malformed (problem : String) : Blames text (.malformedDeclaration problem text)
  | unbalanced : Blames text (.unbalancedParentheses text)
  | unknown (typeName : String) : Blames text (.unknownDataType typeName)

theorem Blames.isDeclarationError {text : String} {cause : Cause} (h : Blames text cause) :
    cause.isDeclarationError = true := by
  cases h <;> rfl

theorem Blames.ne_notARoutine {text : String} {cause : Cause} (h : Blames text cause)
    (name : String) : cause ≠ .notARoutine name := by
  rintro rfl
  cases h

/-- A defect is reported with the text of the declaration. -/
theorem Defect.blames_cause (d : Defect) (text : String) : Blames text (d.cause text) := by
  cases d with
  | unbalanced => exact .unbalanced
  | _ => exact .malformed _

namespace Declaration

theorem blames_of_parse {f : Source.Fragment} {e : Error} (h : parse f = .error e) :
    Blames f.text e.cause := by
  unfold parse at h
  cases hread : read f.kind f.text.toList f.terminated with
  | error defect =>
    rw [hread] at h
    cases h
    exact defect.blames_cause f.text
  | ok d =>
    rw [hread] at h
    cases h

end Declaration

/-- The only thing wrong with a type can be that it is not known. -/
theorem TypeTable.blames_of_classify {types : TypeTable} {typeName : String} {e : Error}
    (h : types.classify typeName = .error e) (text : String) : Blames text e.cause := by
  unfold classify at h
  cases hfind : types.find? typeName with
  | none =>
    rw [hfind] at h
    cases h
    exact .unknown _
  | some mapping =>
    rw [hfind] at h
    cases h

/-- A routine that was read is resolved, unless it uses an unknown type. -/
theorem CallModel.blames_of_ofDeclaration {types : TypeTable} {d : Declaration} {e : Error}
    (hd : d.isRoutine = true) (h : ofDeclaration types d = .error e) (text : String) :
    Blames text e.cause := by
  obtain ⟨-, a, -, -, -, ha⟩ := (ofDeclaration_eq_error hd).mp h
  exact TypeTable.blames_of_classify ha text

namespace Member

/-- A routine is a member as soon as it is resolved. -/
theorem ofDeclaration_of_isRoutine {d : Declaration} (hd : d.isRoutine = true)
    (types : TypeTable) :
    ofDeclaration types d = (CallModel.ofDeclaration types d).map .routine := by
  cases d with
  | function name arguments returnType => rfl
  | procedure name arguments => rfl
  | constant name typeName value => cases hd

theorem blames_of_ofDeclaration {types : TypeTable} {d : Declaration} {e : Error}
    (h : ofDeclaration types d = .error e) (text : String) : Blames text e.cause := by
  cases hd : d.isRoutine with
  | true =>
    rw [ofDeclaration_of_isRoutine hd] at h
    cases hmodel : CallModel.ofDeclaration types d with
    | ok model =>
      rw [hmodel] at h
      cases h
    | error e' =>
      rw [hmodel] at h
      cases h
      exact CallModel.blames_of_ofDeclaration hd hmodel text
  | false =>
    cases d with
    | constant name typeName value => cases h
    | function name arguments returnType => cases hd
    | procedure name arguments => cases hd

/-! ## Kinds -/

/-- What a member is. -/
def kind : Member → Source.Kind
  | routine model => if model.isFunction then .function else .procedure
  | constant .. => .constant

/-- A declaration becomes a member of its own kind. -/
theorem kind_of_ofDeclaration {types : TypeTable} {d : Declaration} {m : Member}
    (h : ofDeclaration types d = .ok m) : m.kind = d.kind := by
  cases d with
  | function name arguments returnType =>
    cases hmodel : CallModel.ofDeclaration types (.function name arguments returnType) with
    | error e =>
      rw [ofDeclaration_of_isRoutine rfl, hmodel] at h
      cases h
    | ok model =>
      rw [ofDeclaration_of_isRoutine rfl, hmodel] at h
      cases h
      obtain ⟨bindings, -, hmodel⟩ := bind_eq_ok.mp hmodel
      obtain ⟨returned, -, hmodel⟩ := bind_eq_ok.mp hmodel
      cases hmodel
      rfl
  | procedure name arguments =>
    cases hmodel : CallModel.ofDeclaration types (.procedure name arguments) with
    | error e =>
      rw [ofDeclaration_of_isRoutine rfl, hmodel] at h
      cases h
    | ok model =>
      rw [ofDeclaration_of_isRoutine rfl, hmodel] at h
      cases h
      obtain ⟨bindings, -, hmodel⟩ := bind_eq_ok.mp hmodel
      cases hmodel
      rfl
  | constant name typeName value =>
    cases h
    rfl

end Member

namespace Declaration

theorem kind_of_readFunction {s : List Char} {d : Declaration} (h : readFunction s = .ok d) :
    d.kind = .function := by
  unfold readFunction at h
  obtain ⟨signature, -, h⟩ := bind_eq_ok.mp h
  cases hreturn : takeKeyword? "return".toList signature.rest with
  | none =>
    rw [hreturn] at h
    cases h
  | some rest =>
    rw [hreturn] at h
    dsimp only at h
    by_cases hempty : (withoutModifiers rest).isEmpty = true
    · rw [if_pos hempty] at h
      cases h
    · rw [if_neg hempty] at h
      cases h
      rfl

theorem kind_of_readProcedure {s : List Char} {d : Declaration} (h : readProcedure s = .ok d) :
    d.kind = .procedure := by
  unfold readProcedure at h
  obtain ⟨signature, -, h⟩ := bind_eq_ok.mp h
  by_cases hrest : (!signature.rest.isEmpty) = true
  · rw [if_pos hrest] at h
    cases h
  · rw [if_neg hrest] at h
    cases h
    rfl

theorem kind_of_readConstant {s : List Char} {d : Declaration} (h : readConstant s = .ok d) :
    d.kind = .constant := by
  obtain ⟨name, _, _, type, value, -, -, -, -, -, rfl⟩ := exists_of_readConstant h
  rfl

/-- What is read is what the fragment was taken for. -/
theorem kind_of_parse {f : Source.Fragment} {d : Declaration} (h : parse f = .ok d) :
    d.kind = f.kind := by
  obtain ⟨-, -, h⟩ := of_read (read_of_parse h)
  cases hkind : f.kind with
  | function =>
    rw [hkind] at h
    exact kind_of_readFunction h
  | procedure =>
    rw [hkind] at h
    exact kind_of_readProcedure h
  | constant =>
    rw [hkind] at h
    exact kind_of_readConstant h

end Declaration

/-- Every member is counted once. -/
theorem Package.functions_add_procedures_add_constants (p : Package) :
    p.functions + p.procedures + p.constants = p.members.length := by
  have honce : ∀ m : Member, (if m.routine?.any (·.isFunction) then 1 else 0) +
      (if m.routine?.any (!·.isFunction) then 1 else 0) +
      (if m.routine?.isNone then 1 else 0) = 1 := by
    intro m
    cases m with
    | routine model => cases h : model.isFunction <;> simp [Member.routine?, h]
    | constant name typeName value => rfl
  obtain ⟨name, members⟩ := p
  unfold functions procedures constants
  induction members with
  | nil => rfl
  | cons m rest ih =>
    have hm := honce m
    dsimp only at ih ⊢
    rw [List.countP_cons, List.countP_cons, List.countP_cons, List.length_cons]
    omega

namespace Report

open Source

variable {types : TypeTable}

/-- What goes wrong with a fragment is its own fault. -/
theorem blames_of_memberOf {f : Fragment} {e : Error} (h : memberOf types f = .error e) :
    Blames f.text e.cause := by
  rcases bind_eq_error.mp h with hparse | ⟨d, -, hmember⟩
  · exact Declaration.blames_of_parse hparse
  · exact Member.blames_of_ofDeclaration hmember f.text

/-- A fragment becomes a member of its own kind. -/
theorem kind_of_memberOf {f : Fragment} {m : Member} (h : memberOf types f = .ok m) :
    m.kind = f.kind := by
  obtain ⟨d, hparse, hmember⟩ := bind_eq_ok.mp h
  rw [Member.kind_of_ofDeclaration hmember, Declaration.kind_of_parse hparse]

/-! ## Accounts -/

/-- The fragments of a package are sorted, in order, into those that came to the members and those
that came to the errors. -/
inductive Accounted (types : TypeTable) (package : String) :
    List Fragment → List Member → List Error → Prop where
  | nil : Accounted types package [] [] []
  /-- The first fragment is built, by itself, into a member of its own kind. -/
  | member {f : Fragment} {m : Member} {fs : List Fragment} {ms : List Member} {es : List Error}
    (built : memberOf types f = .ok m) (kind : m.kind = f.kind)
    (rest : Accounted types package fs ms es) :
    Accounted types package (f :: fs) (m :: ms) es
  /-- The first fragment fails, by itself and by its own fault, and the error says where it
  stands. -/
  | error {f : Fragment} {e : Error} {fs : List Fragment} {ms : List Member} {es : List Error}
    (failed : memberOf types f = .error e) (blames : Blames f.text e.cause)
    (rest : Accounted types package fs ms es) :
    Accounted types package (f :: fs) ms (e.within (contextOf package f) :: es)

namespace Accounted

variable {package : String} {fs : List Fragment} {ms : List Member} {es : List Error}

theorem length_add_length (h : Accounted types package fs ms es) :
    ms.length + es.length = fs.length := by
  induction h with
  | nil => rfl
  | member _ _ _ ih =>
    rw [List.length_cons, List.length_cons]
    omega
  | error _ _ _ ih =>
    rw [List.length_cons, List.length_cons]
    omega

/-- Every error is that of one of the fragments. -/
theorem exists_of_mem_errors (h : Accounted types package fs ms es) :
    ∀ e ∈ es, ∃ f ∈ fs, e.context = some (contextOf package f) ∧ Blames f.text e.cause := by
  induction h with
  | nil => simp
  | member _ _ _ ih =>
    intro e he
    obtain ⟨f, hf, h⟩ := ih e he
    exact ⟨f, List.mem_cons_of_mem _ hf, h⟩
  | @error f first fs ms es _ hblames _ ih =>
    intro e he
    rcases List.mem_cons.mp he with rfl | he
    · exact ⟨f, List.mem_cons_self, rfl, hblames⟩
    · obtain ⟨f, hf, h⟩ := ih e he
      exact ⟨f, List.mem_cons_of_mem _ hf, h⟩

end Accounted

/-- What comes of some fragments, one after the other, is an account of them. -/
theorem accounted_map (types : TypeTable) (package : String) (fs : List Fragment) :
    Accounted types package fs
      ((fs.map fun f => (memberOf types f).mapError (·.within (contextOf package f))).filterMap
        Except.toOption)
      ((fs.map fun f => (memberOf types f).mapError (·.within (contextOf package f))).filterMap
        fun
        | .ok _ => none
        | .error e => some e) := by
  induction fs with
  | nil => exact .nil
  | cons f fs ih =>
    rw [List.map_cons]
    cases hmember : memberOf types f with
    | ok m => exact .member hmember (kind_of_memberOf hmember) ih
    | error e => exact .error hmember (blames_of_memberOf hmember) ih

/-! ## Main statement -/

/-- **Every fragment is accounted for, once.** The members and the errors of a package are its
fragments in order, each of which comes to a member of its own kind or to an error that holds its
text and its place and for which it is to blame itself; so every error is one of a declaration, and
none that a constant cannot be called. Every member is counted as a function, a procedure or a
constant. -/
theorem accounted_ofSource (types : TypeTable) (name source : String) :
    let report := ofSource types name source
    Accounted types name (scan source) report.package.members report.errors ∧
      report.package.members.length + report.errors.length = (scan source).length ∧
      (∀ e ∈ report.errors, e.isDeclarationError = true ∧
        (∀ constant, e.cause ≠ .notARoutine constant) ∧
        ∃ f ∈ scan source, e.context = some (contextOf name f) ∧ Blames f.text e.cause) ∧
      report.package.functions + report.package.procedures + report.package.constants =
        report.package.members.length := by
  intro report
  have haccounted : Accounted types name (scan source) report.package.members report.errors :=
    accounted_map types name (scan source)
  refine ⟨haccounted, haccounted.length_add_length, fun e he => ?_,
    report.package.functions_add_procedures_add_constants⟩
  obtain ⟨f, hf, hcontext, hblames⟩ := haccounted.exists_of_mem_errors e he
  exact ⟨hblames.isDeclarationError, hblames.ne_notARoutine, f, hf, hcontext, hblames⟩

end Report

end StoredRoutine
