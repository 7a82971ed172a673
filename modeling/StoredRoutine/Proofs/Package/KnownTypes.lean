import Mathlib.Data.List.Forall2
import StoredRoutine.Catalog.Basic
import StoredRoutine.Proofs.Package.Accounting

/-!
# A type more

A configuration can put a type into the table that was not there before. Then a declaration that was
built is built as it was, and one that cannot be read still cannot. What may change is a declaration
for which the type was unknown: it is built now, or another type that it uses is unknown, since only
the first of them is reported. `Eased` says so of one outcome, and holds of steps in sequence if it
holds of each of them (`Eased.bind`).

With and without the type, the members and the errors of a package are the same fragments sorted in
two ways, so the two runs can be followed side by side (`Report.Compared`), and so can two catalogs
(`Catalog.Compared`). All that is promised of the catalog with the type is read off from that
(`Catalog.generate_adds`).
-/

namespace StoredRoutine

/-! ## Tables -/

namespace TypeTable

/-- The error that the type is not known. Blanks around its name are left out. -/
def unknown (written : String) : Error :=
  .ofCause (.unknownDataType (String.ofList (Text.trim written.toList)))

/-- `types'` is the table `types` with the type `name` added. -/
structure Adds (types : TypeTable) (name : String) (types' : TypeTable) : Prop where
  new : types.contains name = false
  known : types'.contains name = true
  others : ∀ written, normalize written ≠ normalize name →
    types'.find? written = types.find? written

theorem find?_insert (types : TypeTable) (name : String) (mapping : Mapping) (written : String) :
    (types.insert name mapping).find? written =
      if normalize written = normalize name then some mapping else types.find? written := by
  split
  · next h =>
    rw [find?, h]
    exact lookup_put_self _ _ _
  · next h => exact lookup_put_of_ne h _ _

theorem insertAll_append (types : TypeTable) (before after : List (String × Mapping)) :
    types.insertAll (before ++ after) = (types.insertAll before).insertAll after :=
  List.foldl_append

theorem insertAll_cons (types : TypeTable) (name : String) (mapping : Mapping)
    (after : List (String × Mapping)) :
    types.insertAll ((name, mapping) :: after) = (types.insert name mapping).insertAll after := rfl

/-- What is put into two tables does not make them differ. -/
theorem find?_insertAll_congr {types types' : TypeTable} {written : String}
    (h : types'.find? written = types.find? written) (entries : List (String × Mapping)) :
    (types'.insertAll entries).find? written = (types.insertAll entries).find? written := by
  induction entries generalizing types types' with
  | nil => exact h
  | cons entry entries ih =>
    refine ih ?_
    rw [find?_insert, find?_insert, h]

/-- Nothing is taken out of a table. -/
theorem contains_insertAll {types : TypeTable} {written : String}
    (h : types.contains written = true) (entries : List (String × Mapping)) :
    (types.insertAll entries).contains written = true := by
  induction entries generalizing types with
  | nil => exact h
  | cons entry entries ih =>
    refine ih ?_
    rw [contains, find?_insert]
    split
    · rfl
    · exact h

/-- **A new entry adds a type**, wherever it stands among the others. -/
theorem adds_insertAll {types : TypeTable} {before after : List (String × Mapping)} {name : String}
    (hnew : (types.insertAll (before ++ after)).contains name = false) (mapping : Mapping) :
    Adds (types.insertAll (before ++ after)) name
      (types.insertAll (before ++ (name, mapping) :: after)) := by
  rw [insertAll_append types before after] at hnew ⊢
  rw [insertAll_append, insertAll_cons]
  refine ⟨hnew, contains_insertAll ?_ after, fun written hwritten => ?_⟩
  · rw [contains, find?_insert, if_pos rfl]
    rfl
  · refine find?_insertAll_congr ?_ after
    rw [find?_insert, if_neg hwritten]

end TypeTable

open TypeTable (unknown normalize)

/-! ## Outcomes -/

/-- **What a type more makes of an outcome**, where `types'` is the table with it. -/
inductive Eased (types' : TypeTable) (name : String) {α : Type} :
    Except Error α → Except Error α → Prop
  /-- A success stays. -/
  | known (a : α) : Eased types' name (.ok a) (.ok a)
  /-- A type that is still not known -/
  | unknown {written : String} (h : types'.find? written = none) :
    Eased types' name (.error (unknown written)) (.error (unknown written))
  /-- The type was unknown, and no other is. -/
  | resolved {written : String} (h : normalize written = normalize name) (a : α) :
    Eased types' name (.error (TypeTable.unknown written)) (.ok a)
  /-- The type was unknown, and another is. -/
  | renamed {written other : String} (h : normalize written = normalize name)
      (hother : types'.find? other = none) :
    Eased types' name (.error (TypeTable.unknown written)) (.error (TypeTable.unknown other))

namespace Eased

variable {types' : TypeTable} {name : String} {α β : Type}

/-- **Two steps in sequence.** -/
theorem bind {x x' : Except Error α} {f f' : α → Except Error β} (h : Eased types' name x x')
    (hf : ∀ a, Eased types' name (f a) (f' a)) : Eased types' name (x >>= f) (x' >>= f') := by
  cases h with
  | known a => exact hf a
  | unknown hunknown => exact .unknown hunknown
  | renamed hname hother => exact .renamed hname hother
  | resolved hname a =>
    -- now the second step is what counts
    have hnext := hf a
    change Eased types' name (.error _) (f' a)
    generalize f a = y at hnext
    generalize f' a = y' at hnext ⊢
    cases hnext with
    | known b => exact .resolved hname b
    | unknown hunknown => exact .renamed hname hunknown
    | resolved _ b => exact .resolved hname b
    | renamed _ hother => exact .renamed hname hother

theorem map {x x' : Except Error α} (h : Eased types' name x x') (g : α → β) :
    Eased types' name (x.map g) (x'.map g) := by
  cases h with
  | known a => exact .known (g a)
  | unknown hunknown => exact .unknown hunknown
  | resolved hname a => exact .resolved hname (g a)
  | renamed hname hother => exact .renamed hname hother

theorem mapM {γ : Type} {step step' : γ → Except Error α}
    (h : ∀ c, Eased types' name (step c) (step' c)) (items : List γ) :
    Eased types' name (items.mapM step) (items.mapM step') := by
  induction items with
  | nil => exact .known []
  | cons c items ih =>
    rw [List.mapM_cons, List.mapM_cons]
    exact (h c).bind fun a => ih.bind fun as => .known (a :: as)

end Eased

namespace TypeTable.Adds

variable {types types' : TypeTable} {name : String} (h : types.Adds name types')

include h

theorem eased_classify (written : String) :
    Eased types' name (types.classify written) (types'.classify written) := by
  unfold classify
  by_cases hwritten : normalize written = normalize name
  · have hold : types.find? written = none := by
      rw [find?, hwritten]
      exact Option.isNone_iff_eq_none.mp (Option.isSome_eq_false_iff.mp h.new)
    obtain ⟨mapping, hmapping⟩ := Option.isSome_iff_exists.mp h.known
    have hnew : types'.find? written = some mapping := by
      rw [find?, hwritten]
      exact hmapping
    rw [hold, hnew]
    exact .resolved hwritten mapping
  · have hsame := h.others written hwritten
    rw [hsame]
    cases hfind : types.find? written with
    | none => exact .unknown (hsame.trans hfind)
    | some mapping => exact .known mapping

theorem eased_ofArgument (argument : Argument) :
    Eased types' name (Binding.ofArgument types argument) (Binding.ofArgument types' argument) :=
  (h.eased_classify argument.typeName).map _

/-- **A declaration** is resolved argument by argument, and a function's value after them. -/
theorem eased_ofDeclaration (d : Declaration) :
    Eased types' name (Member.ofDeclaration types d) (Member.ofDeclaration types' d) := by
  cases d with
  | constant constant typeName value => exact .known _
  | procedure routine arguments =>
    refine Eased.map (.bind (.mapM h.eased_ofArgument arguments) fun bindings => ?_) Member.routine
    exact .known _
  | function routine arguments returnType =>
    refine Eased.map (.bind (.mapM h.eased_ofArgument arguments) fun bindings => ?_) Member.routine
    exact .bind (h.eased_ofArgument _) fun returned => .known _

end TypeTable.Adds

/-! ## Reports -/

namespace Report

open Source

/-- **A package with and without the type**: its fragments are sorted, in order, into members and
errors in two ways, first without the type and then with it. -/
inductive Compared (types types' : TypeTable) (name package : String) :
    List Fragment → List Member → List Error → List Member → List Error → Prop where
  | nil : Compared types types' name package [] [] [] [] []
  /-- A fragment that was built is built as it was. -/
  | built {f : Fragment} {m : Member} {fs : List Fragment} {ms ms' : List Member}
    {es es' : List Error} (before : memberOf types f = .ok m) (after : memberOf types' f = .ok m)
    (rest : Compared types types' name package fs ms es ms' es') :
    Compared types types' name package (f :: fs) (m :: ms) es (m :: ms') es'
  /-- A fragment is rejected as it was. -/
  | rejected {f : Fragment} {e : Error} {fs : List Fragment} {ms ms' : List Member}
    {es es' : List Error} (before : memberOf types f = .error e)
    (after : memberOf types' f = .error e)
    (rest : Compared types types' name package fs ms es ms' es') :
    Compared types types' name package (f :: fs) ms (e.within (contextOf package f) :: es) ms'
      (e.within (contextOf package f) :: es')
  /-- A fragment was rejected because the type was unknown, and is built in its place now. -/
  | resolved {f : Fragment} {written : String} {m : Member} {fs : List Fragment}
    {ms ms' : List Member} {es es' : List Error} (spelling : normalize written = normalize name)
    (before : memberOf types f = .error (unknown written)) (after : memberOf types' f = .ok m)
    (rest : Compared types types' name package fs ms es ms' es') :
    Compared types types' name package (f :: fs) ms
      ((unknown written).within (contextOf package f) :: es) (m :: ms') es'
  /-- A fragment was rejected because the type was unknown, and is rejected because of another
  unknown type now. -/
  | renamed {f : Fragment} {written other : String} {fs : List Fragment} {ms ms' : List Member}
    {es es' : List Error} (spelling : normalize written = normalize name)
    (unknown_other : types'.find? other = none)
    (before : memberOf types f = .error (unknown written))
    (after : memberOf types' f = .error (unknown other))
    (rest : Compared types types' name package fs ms es ms' es') :
    Compared types types' name package (f :: fs) ms
      ((unknown written).within (contextOf package f) :: es) ms'
      ((unknown other).within (contextOf package f) :: es')

namespace Compared

variable {types types' : TypeTable} {name package : String} {fs : List Fragment}
  {ms ms' : List Member} {es es' : List Error}

/-- Every member is there as it was, and in the same order. -/
theorem members_sublist (h : Compared types types' name package fs ms es ms' es') :
    ms.Sublist ms' := by
  induction h with
  | nil => exact .slnil
  | built _ _ _ ih => exact ih.cons_cons _
  | rejected _ _ _ ih => exact ih
  | resolved _ _ _ _ ih => exact ih.cons _
  | renamed _ _ _ _ _ ih => exact ih

/-- What is rejected was rejected before, in the same order. -/
theorem contexts_sublist (h : Compared types types' name package fs ms es ms' es') :
    (es'.map (·.context)).Sublist (es.map (·.context)) := by
  induction h with
  | nil => exact .slnil
  | built _ _ _ ih => exact ih
  | rejected _ _ _ ih => exact ih.cons_cons _
  | resolved _ _ _ _ ih => exact ih.cons _
  | renamed _ _ _ _ _ ih => exact ih.cons_cons _

/-- An error that is not there any more said that the type was unknown. -/
theorem exists_of_notMem (h : Compared types types' name package fs ms es ms' es') :
    ∀ e ∈ es, e ∉ es' →
      ∃ written, normalize written = normalize name ∧ e.cause = (unknown written).cause := by
  induction h with
  | nil => simp
  | built _ _ _ ih => exact ih
  | rejected _ _ _ ih =>
    intro e he hnot
    rcases List.mem_cons.mp he with rfl | he
    · exact absurd List.mem_cons_self hnot
    · exact ih e he fun hmem => hnot (List.mem_cons_of_mem _ hmem)
  | resolved spelling _ _ _ ih =>
    intro e he hnot
    rcases List.mem_cons.mp he with rfl | he
    · exact ⟨_, spelling, rfl⟩
    · exact ih e he hnot
  | renamed spelling _ _ _ _ ih =>
    intro e he hnot
    rcases List.mem_cons.mp he with rfl | he
    · exact ⟨_, spelling, rfl⟩
    · exact ih e he fun hmem => hnot (List.mem_cons_of_mem _ hmem)

end Compared

/-- **Each fragment by itself** is built or rejected as it was, or the type was unknown. -/
theorem eased_memberOf {types types' : TypeTable} {name : String} (h : types.Adds name types')
    (f : Fragment) :
    (∃ e, memberOf types f = .error e ∧ memberOf types' f = .error e) ∨
      Eased types' name (memberOf types f) (memberOf types' f) := by
  unfold memberOf
  cases Declaration.parse f with
  | error e => exact .inl ⟨e, rfl, rfl⟩
  | ok d => exact .inr (h.eased_ofDeclaration d)

/-- What comes of some fragments, one after the other, with and without the type. -/
theorem compared_map {types types' : TypeTable} {name : String} (h : types.Adds name types')
    (package : String) (fs : List Fragment) :
    let outcomes (types : TypeTable) := fs.map fun f =>
      (memberOf types f).mapError (·.within (contextOf package f))
    let errors (types : TypeTable) := (outcomes types).filterMap fun
      | .ok _ => none
      | .error e => some e
    Compared types types' name package fs ((outcomes types).filterMap Except.toOption)
      (errors types) ((outcomes types').filterMap Except.toOption) (errors types') := by
  induction fs with
  | nil => exact .nil
  | cons f fs ih =>
    rcases eased_memberOf h f with ⟨e, hbefore, hafter⟩ | heased
    · simp only [List.map_cons, hbefore, hafter]
      exact .rejected hbefore hafter ih
    · generalize hbefore : memberOf types f = before at heased
      generalize hafter : memberOf types' f = after at heased
      simp only [List.map_cons, hbefore, hafter]
      cases heased with
      | known m => exact .built hbefore hafter ih
      | unknown _ => exact .rejected hbefore hafter ih
      | resolved spelling m => exact .resolved spelling hbefore hafter ih
      | renamed spelling hother => exact .renamed spelling hother hbefore hafter ih

theorem compared_ofSource {types types' : TypeTable} {name : String} (h : types.Adds name types')
    (package source : String) :
    let report := ofSource types package source
    let report' := ofSource types' package source
    Compared types types' name package (scan source) report.package.members report.errors
      report'.package.members report'.errors :=
  compared_map h package (scan source)

/-! ## Batches -/

theorem flatten_batches {α : Type} (size : Nat) (items : List α) :
    (batches size items).flatten = items := by
  fun_induction batches size items with
  | case1 => rfl
  | case2 first rest ih =>
    rw [List.flatten_cons, ih, List.cons_append, List.take_append_drop]

/-- It does not matter which specifications are worked on side by side. -/
theorem ofSources_eq_map (workers : Nat) (types : TypeTable) (inputs : List (String × String)) :
    ofSources workers types inputs =
      inputs.map fun (name, source) => ofSource types name source := by
  have hbatch : ofBatch types = List.map fun (name, source) => ofSource types name source := by
    funext batch
    exact List.map_map
  rw [ofSources, hbatch, List.flatMap_def, ← List.map_flatten, flatten_batches]

end Report

/-- Where a rejected declaration stands: its package, its text, its line and its column. -/
def Diagnostic.place (d : Diagnostic) : Option String × Option String × Option Nat × Option Nat :=
  (d.package, d.fragment, d.line, d.column)

namespace Catalog

/-! ## Catalogs -/

/-- **A catalog with and without the type**: package by package, the fragments of the specification
are sorted into members and errors in two ways. -/
inductive Compared (types types' : TypeTable) (name : String) :
    List Specification → List Package → List Diagnostic → List Package → List Diagnostic →
      Prop where
  | nil : Compared types types' name [] [] [] [] []
  | specification {s : Specification} {ms ms' : List Member} {es es' : List Error}
    {specifications : List Specification} {ps ps' : List Package} {ds ds' : List Diagnostic}
    (first : Report.Compared types types' name s.name (Source.scan s.text) ms es ms' es')
    (rest : Compared types types' name specifications ps ds ps' ds') :
    Compared types types' name (s :: specifications) (⟨s.name, ms⟩ :: ps)
      (es.map .ofError ++ ds) (⟨s.name, ms'⟩ :: ps') (es'.map .ofError ++ ds')

namespace Compared

variable {types types' : TypeTable} {name : String} {specifications : List Specification}
  {ps ps' : List Package} {ds ds' : List Diagnostic}

/-- Every package has its members as they were, and in the same order. -/
theorem packages_forall₂ (h : Compared types types' name specifications ps ds ps' ds') :
    List.Forall₂ (fun p p' => p.name = p'.name ∧ p.members.Sublist p'.members) ps ps' := by
  induction h with
  | nil => exact .nil
  | specification first _ ih => exact .cons ⟨rfl, first.members_sublist⟩ ih

/-- What is rejected was rejected before, at the same place and in the same order. -/
theorem places_sublist (h : Compared types types' name specifications ps ds ps' ds') :
    (ds'.map Diagnostic.place).Sublist (ds.map Diagnostic.place) := by
  induction h with
  | nil => exact .slnil
  | specification first _ ih =>
    have hplace : ∀ es : List Error, (es.map Diagnostic.ofError).map Diagnostic.place =
        (es.map (·.context)).map fun context =>
          let context := context.getD .empty
          (context.package, context.fragment, context.line, context.column) := by
      intro es
      rw [List.map_map, List.map_map]
      rfl
    rw [List.map_append, List.map_append, hplace, hplace]
    exact (first.contexts_sublist.map _).append ih

/-- A diagnostic that is not there any more said that the type was unknown. -/
theorem exists_of_notMem (h : Compared types types' name specifications ps ds ps' ds') :
    ∀ d ∈ ds, d ∉ ds' →
      ∃ written, normalize written = normalize name ∧ d.message = (unknown written).message := by
  induction h with
  | nil => simp
  | specification first _ ih =>
    intro d hd hnot
    rw [List.mem_append, not_or] at hnot
    rcases List.mem_append.mp hd with hd | hd
    · obtain ⟨e, he, rfl⟩ := List.mem_map.mp hd
      obtain ⟨written, hwritten, hcause⟩ :=
        first.exists_of_notMem e he fun hmem => hnot.1 (List.mem_map_of_mem hmem)
      exact ⟨written, hwritten, congrArg Cause.message hcause⟩
    · exact ih d hd hnot.2

end Compared

theorem compared_ofReports {types types' : TypeTable} {name : String} (h : types.Adds name types')
    (schema : Option String) (selected : List Specification) :
    let catalog (types : TypeTable) :=
      ofReports schema (selected.map fun s => Report.ofSource types s.name s.text)
    Compared types types' name selected (catalog types).packages (catalog types).diagnostics
      (catalog types').packages (catalog types').diagnostics := by
  induction selected with
  | nil => exact .nil
  | cons s selected ih => exact .specification (Report.compared_ofSource h s.name s.text) ih

/-- A catalog is made of one specification after the other. -/
theorem generate_eq (workers : Nat) (c : Config) (specifications : List Specification) :
    generate workers c specifications = ofReports c.schema
      ((specifications.filter fun s => c.includes s.name).map fun s =>
        Report.ofSource c.typeTable s.name s.text) := by
  rw [generate, Report.ofSources_eq_map, List.map_map]
  rfl

/-! ## Main statement -/

/-- **Adding a type never hurts.** A type that the table of a configuration does not have is put
among the types of the configuration. Then the two catalogs are about the same fragments, one by
one: what was built is built as it was, in the same order; what is rejected was rejected before, at
the same place; and what is not rejected as it was had been rejected because the type was
unknown. -/
theorem generate_adds (workers : Nat) (c : Config) {before after : List (String × Mapping)}
    (htypes : c.types = before ++ after) {name : String}
    (hnew : c.typeTable.contains name = false) (mapping : Mapping)
    (specifications : List Specification) :
    let c' : Config := { c with types := before ++ (name, mapping) :: after }
    let without := generate workers c specifications
    let extended := generate workers c' specifications
    Compared c.typeTable c'.typeTable name (specifications.filter fun s => c.includes s.name)
        without.packages without.diagnostics extended.packages extended.diagnostics ∧
      extended.schema = without.schema ∧
      List.Forall₂ (fun p p' => p.name = p'.name ∧ p.members.Sublist p'.members)
        without.packages extended.packages ∧
      (extended.diagnostics.map Diagnostic.place).Sublist
        (without.diagnostics.map Diagnostic.place) ∧
      ∀ d ∈ without.diagnostics, d ∉ extended.diagnostics →
        ∃ written, normalize written = normalize name ∧ d.message = (unknown written).message := by
  intro c' without extended
  have hadds : c.typeTable.Adds name c'.typeTable := by
    rw [Config.typeTable, htypes] at hnew
    rw [Config.typeTable, htypes]
    exact TypeTable.adds_insertAll hnew mapping
  have hcompared := compared_ofReports hadds c.schema
    (specifications.filter fun s => c.includes s.name)
  have hwithout : without = _ := generate_eq workers c specifications
  have hextended : extended = _ := generate_eq workers c' specifications
  rw [hwithout, hextended]
  exact ⟨hcompared, rfl, hcompared.packages_forall₂, hcompared.places_sublist,
    hcompared.exists_of_notMem⟩

/-- A procedure that can be built with the type, and a function that needs another type as well. -/
theorem generate_adds_xmltype :
    let boolean : String × Mapping := ("boolean", ⟨"BOOLEAN", .scalar⟩)
    let c : Config := ⟨["p"], some "S", .json, [boolean]⟩
    let c' : Config := { c with types := [("XMLType", ⟨"CLOB", .largeObject⟩), boolean] }
    let s : Specification := ⟨"P", "procedure A; procedure B(x xmltype);
      function C(x XmlType (4)) return json; procedure D("⟩
    let summary (c : Config) : List (List String) × List (Option Nat × String) :=
      ((generate 2 c [s]).packages.map fun p => p.members.map Member.name,
        (generate 2 c [s]).diagnostics.map fun d => (d.line, d.message))
    c.typeTable.contains "XMLType" = false ∧
      summary c = ([["A"]], [(some 1, "unknown data type: xmltype"),
        (some 2, "unknown data type: XmlType (4)"),
        (some 2, "unbalanced parentheses in `procedure D(`")]) ∧
      summary c' = ([["A", "B"]], [(some 2, "unknown data type: json"),
        (some 2, "unbalanced parentheses in `procedure D(`")]) ∧
      ((generate 2 c' [s]).diagnostics.map Diagnostic.place).Sublist
        ((generate 2 c [s]).diagnostics.map Diagnostic.place) := by
  intro boolean c c' s summary
  have hnew : c.typeTable.contains "XMLType" = false := by decide +kernel
  have htypes : c.types = [] ++ [boolean] := rfl
  obtain ⟨-, -, -, hplaces, -⟩ := generate_adds 2 c htypes hnew ⟨"CLOB", .largeObject⟩ [s]
  have hsummary : ∀ c : Config, summary c =
      let catalog := ofReports c.schema
        (([s].filter fun s => c.includes s.name).map fun s =>
          Report.ofSource c.typeTable s.name s.text)
      (catalog.packages.map fun p => p.members.map Member.name,
        catalog.diagnostics.map fun d => (d.line, d.message)) := by
    intro c
    rw [← generate_eq]
  refine ⟨hnew, ?_, ?_, hplaces⟩
  · rw [hsummary]
    decide +kernel
  · rw [hsummary]
    decide +kernel

end Catalog

end StoredRoutine
