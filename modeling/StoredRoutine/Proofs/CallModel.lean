import StoredRoutine.CallModel

/-!
# Call models that were resolved

A declaration is resolved by looking up one type after the other: those of its arguments in order,
and then that of the value it returns, which is treated like an argument of its own
(`Declaration.returned`). So a routine is resolved exactly if all its types are known, and if not,
the first type that is not known is reported (`CallModel.ofDeclaration_faithful`).

A `Binding` could hold any strategy. Those of a call model that was made from a declaration hold
the one that belongs to their family and direction (`CallModel.arguments_resolved`), and the value
of a function comes back like an `out` argument (`CallModel.returnValue_resolved`). With such a
strategy an argument has a placeholder if and only if it comes back, which is what a call relies on
(`Binding.IsFaithful`).
-/

namespace StoredRoutine

/-- The argument in whose place the value of a function comes back. A procedure has none. -/
def Declaration.returned : Declaration → List Argument
  | function _ _ returnType => [CallModel.returnArgument returnType]
  | procedure .. | constant .. => []

theorem Declaration.mem_returned {d : Declaration} {a : Argument} : a ∈ d.returned ↔
    ∃ name arguments returnType, d = .function name arguments returnType ∧
      a = CallModel.returnArgument returnType := by
  cases d with
  | function name arguments returnType =>
    rw [returned, List.mem_singleton]
    constructor
    · rintro rfl
      exact ⟨name, arguments, returnType, rfl, rfl⟩
    · rintro ⟨name', arguments', returnType', h, ha⟩
      cases h
      exact ha
  | procedure name arguments => simp [returned]
  | constant name typeName value => simp [returned]

/-- The strategy is the one for the family and the direction. -/
def Binding.Resolved (b : Binding) : Prop :=
  b.strategy = .forParameter b.family b.argument.direction

instance (b : Binding) : Decidable b.Resolved :=
  inferInstanceAs (Decidable (b.strategy = .forParameter b.family b.argument.direction))

namespace Binding

/-! ## One argument -/

section Resolved

variable {b : Binding} (hb : b.Resolved)

include hb

/-- Something is extracted exactly if the argument comes back. -/
theorem Resolved.extract_eq_nothing_iff :
    b.strategy.extract = .nothing ↔ b.producesOutput = false := by
  rw [hb, producesOutput]
  generalize b.argument.direction = direction
  generalize b.family = family
  cases direction <;> cases family <;> decide

/-- A placeholder is bound exactly if the argument comes back. -/
theorem Resolved.usesPlaceholder_eq : b.strategy.usesPlaceholder = b.producesOutput := by
  rw [hb, producesOutput]
  generalize b.argument.direction = direction
  generalize b.family = family
  cases direction <;> cases family <;> decide

/-- A placeholder is seeded exactly if the argument goes both ways, except for cursors. -/
theorem Resolved.prepare_eq_seed_iff :
    b.strategy.prepare = .allocateAndSeed ↔
      b.argument.direction = .inOut ∧ b.family ≠ .cursor := by
  rw [hb]
  generalize b.argument.direction = direction
  generalize b.family = family
  cases direction <;> cases family <;> decide

end Resolved

variable {types : TypeTable} {argument : Argument} {b : Binding} {e : Error}

/-- **A binding** is its argument with what is known of its type. -/
theorem ofArgument_eq_ok : ofArgument types argument = .ok b ↔
    b.argument = argument ∧ types.classify argument.typeName = .ok ⟨b.token, b.family⟩ ∧
      b.Resolved := by
  rw [ofArgument, Resolved]
  cases types.classify argument.typeName with
  | error e =>
    refine ⟨fun h => (by cases h), ?_⟩
    rintro ⟨-, h, -⟩
    cases h
  | ok mapping =>
    constructor
    · intro h
      cases h
      exact ⟨rfl, rfl, rfl⟩
    · rintro ⟨rfl, h, hstrategy⟩
      cases h
      obtain ⟨argument, token, family, strategy⟩ := b
      obtain rfl : strategy = .forParameter family argument.direction := hstrategy
      rfl

theorem ofArgument_eq_error :
    ofArgument types argument = .error e ↔ types.classify argument.typeName = .error e :=
  map_eq_error_iff _

theorem exists_ofArgument_iff : (∃ b, ofArgument types argument = .ok b) ↔
    ∃ mapping, types.classify argument.typeName = .ok mapping :=
  exists_map_eq_ok_iff _

/-- **What a call relies on** for an argument or the value that is returned. -/
structure IsFaithful (types : TypeTable) (b : Binding) : Prop where
  /-- Token and family are those of its own type. -/
  mapping : types.classify b.argument.typeName = .ok ⟨b.token, b.family⟩
  strategy : b.strategy = .forParameter b.family b.argument.direction
  placeholder : b.strategy.usesPlaceholder = true ↔ b.producesOutput = true
  extract : b.strategy.extract = .nothing ↔ b.producesOutput = false
  seeded : b.strategy.prepare = .allocateAndSeed ↔
    b.argument.direction = .inOut ∧ b.family ≠ .cursor

theorem isFaithful_of_ofArgument (h : ofArgument types argument = .ok b) :
    b.IsFaithful types := by
  obtain ⟨rfl, hmapping, hb⟩ := ofArgument_eq_ok.mp h
  exact ⟨hmapping, hb, by rw [hb.usesPlaceholder_eq], hb.extract_eq_nothing_iff,
    hb.prepare_eq_seed_iff⟩

/-! ## Many arguments -/

variable {arguments : List Argument} {bindings : List Binding}

/-- Each argument has its binding, in order. -/
theorem map_argument_of_mapM (h : arguments.mapM (ofArgument types) = .ok bindings) :
    bindings.map (·.argument) = arguments := by
  rw [mapM_eq_ok] at h
  induction arguments generalizing bindings with
  | nil =>
    obtain rfl := List.map_eq_nil_iff.mp h.symm
    rfl
  | cons argument arguments ih =>
    obtain ⟨b, bs, rfl, hb, hbs⟩ := List.map_eq_cons_iff.mp h.symm
    rw [List.map_cons, (ofArgument_eq_ok.mp hb.symm).1, ih hbs.symm]

theorem isFaithful_of_mapM (h : arguments.mapM (ofArgument types) = .ok bindings) :
    ∀ b ∈ bindings, b.IsFaithful types := by
  intro b hb
  obtain ⟨argument, -, hargument⟩ := exists_of_mem_of_mapM h hb
  exact isFaithful_of_ofArgument hargument

end Binding

namespace CallModel

variable {types : TypeTable} {declaration : Declaration} {m : CallModel}

/-! ## Declarations -/

/-- **The types are looked up in one go**: those of the arguments, and then the one of the value
that is returned. -/
theorem map_ofDeclaration (h : declaration.isRoutine = true) :
    (ofDeclaration types declaration).map (fun m => m.arguments ++ m.returnValue.toList) =
      (declaration.arguments ++ declaration.returned).mapM (Binding.ofArgument types) := by
  cases declaration with
  | function name arguments returnType =>
    rw [Declaration.arguments, Declaration.returned, List.mapM_append, List.mapM_cons,
      List.mapM_nil, ofDeclaration]
    cases arguments.mapM (Binding.ofArgument types) with
    | error e => rfl
    | ok bindings => cases Binding.ofArgument types (returnArgument returnType) <;> rfl
  | procedure name arguments =>
    rw [Declaration.arguments, Declaration.returned, List.append_nil, ofDeclaration]
    cases arguments.mapM (Binding.ofArgument types) with
    | error e => rfl
    | ok bindings => exact congrArg Except.ok (List.append_nil bindings)
  | constant name typeName value => cases h

/-- What a call model consists of. -/
theorem of_ofDeclaration_eq_ok (h : ofDeclaration types declaration = .ok m) :
    m.name = declaration.name ∧ m.declaration = declaration ∧
      declaration.arguments.mapM (Binding.ofArgument types) = .ok m.arguments ∧
      declaration.returned.mapM (Binding.ofArgument types) = .ok m.returnValue.toList := by
  cases declaration with
  | function name arguments returnType =>
    obtain ⟨bindings, hbindings, h⟩ := bind_eq_ok.mp h
    obtain ⟨returned, hreturned, h⟩ := bind_eq_ok.mp h
    cases h
    refine ⟨rfl, rfl, hbindings, ?_⟩
    rw [Declaration.returned, List.mapM_cons, hreturned]
    rfl
  | procedure name arguments =>
    obtain ⟨bindings, hbindings, h⟩ := bind_eq_ok.mp h
    cases h
    exact ⟨rfl, rfl, hbindings, rfl⟩
  | constant name typeName value => cases h

theorem exists_ofDeclaration_iff (h : declaration.isRoutine = true) :
    (∃ m, ofDeclaration types declaration = .ok m) ↔
      ∀ a ∈ declaration.arguments ++ declaration.returned,
        ∃ mapping, types.classify a.typeName = .ok mapping := by
  rw [← exists_map_eq_ok_iff, map_ofDeclaration h, exists_mapM_eq_ok]
  simp only [Binding.exists_ofArgument_iff]

/-- The first type that is not known is reported. -/
theorem ofDeclaration_eq_error (h : declaration.isRoutine = true) {e : Error} :
    ofDeclaration types declaration = .error e ↔
      ∃ front a back, declaration.arguments ++ declaration.returned = front ++ a :: back ∧
        (∀ b ∈ front, ∃ mapping, types.classify b.typeName = .ok mapping) ∧
        types.classify a.typeName = .error e := by
  rw [← map_eq_error_iff, map_ofDeclaration h, mapM_eq_error]
  simp only [Binding.exists_ofArgument_iff, Binding.ofArgument_eq_error]

section Resolved

variable (h : ofDeclaration types declaration = .ok m)

include h

theorem isFaithful_of_ofDeclaration :
    ∀ b ∈ m.arguments ++ m.returnValue.toList, b.IsFaithful types := by
  obtain ⟨-, -, harguments, hreturned⟩ := of_ofDeclaration_eq_ok h
  exact List.forall_mem_append.mpr
    ⟨Binding.isFaithful_of_mapM harguments, Binding.isFaithful_of_mapM hreturned⟩

theorem arguments_resolved : ∀ b ∈ m.arguments, b.Resolved :=
  fun b hb => (isFaithful_of_ofDeclaration h b (List.mem_append_left _ hb)).strategy

/-- There is a binding for each argument of the declaration, in order. -/
theorem map_argument_arguments : m.arguments.map (·.argument) = declaration.arguments :=
  Binding.map_argument_of_mapM (of_ofDeclaration_eq_ok h).2.2.1

/-- There is a binding for what is returned. -/
theorem map_argument_returnValue :
    m.returnValue.toList.map (·.argument) = declaration.returned :=
  Binding.map_argument_of_mapM (of_ofDeclaration_eq_ok h).2.2.2

theorem exists_of_mem_returnValue : ∀ b ∈ m.returnValue, ∃ name arguments returnType,
    declaration = .function name arguments returnType ∧
      b.argument = returnArgument returnType := by
  intro b hb
  rw [← Declaration.mem_returned, ← map_argument_returnValue h]
  exact List.mem_map_of_mem (Option.mem_toList.mpr hb)

theorem returnValue_resolved : ∀ b ∈ m.returnValue, b.Resolved ∧ b.argument.direction = .out := by
  intro b hb
  have hmem := List.mem_append_right m.arguments (Option.mem_toList.mpr hb)
  obtain ⟨name, arguments, returnType, -, hargument⟩ := exists_of_mem_returnValue h b hb
  exact ⟨(isFaithful_of_ofDeclaration h b hmem).strategy, by rw [hargument]; rfl⟩

/-- What is returned comes back, like an `out` argument. -/
theorem producesOutput_of_mem_returnValue : ∀ b ∈ m.returnValue, b.producesOutput = true := by
  intro b hb
  rw [Binding.producesOutput, (returnValue_resolved h b hb).2]
  rfl

/-- A value is returned exactly if the declaration is that of a function. -/
theorem isFunction_iff : m.isFunction = true ↔
    ∃ name arguments returnType, declaration = .function name arguments returnType := by
  rw [isFunction, Option.isSome_iff_exists]
  constructor
  · rintro ⟨b, hb⟩
    obtain ⟨name, arguments, returnType, hd, -⟩ := exists_of_mem_returnValue h b hb
    exact ⟨name, arguments, returnType, hd⟩
  · rintro ⟨name, arguments, returnType, rfl⟩
    have hreturned := map_argument_returnValue h
    obtain ⟨b, bs, hb, -⟩ := List.map_eq_cons_iff.mp hreturned
    exact ⟨b, Option.mem_toList.mp (by rw [hb]; exact List.mem_cons_self)⟩

/-- The outputs have the names of the `out` and `in out` arguments of the declaration. -/
theorem map_name_outputs : m.outputs.map (·.name) =
    (declaration.arguments.filter (·.direction.producesOutput)).map (·.name) := by
  rw [← map_argument_arguments h, List.filter_map, List.map_map]
  rfl

/-- The caller supplies the `in` and `in out` arguments. -/
theorem inputArity_eq : m.inputArity =
    declaration.arguments.countP fun a => a.direction = .into ∨ a.direction = .inOut := by
  rw [← map_argument_arguments h, List.countP_map, inputArity, inputs,
    ← List.countP_eq_length_filter]
  congr 1
  funext b
  rw [Function.comp_apply, Binding.takesInput]
  cases b.argument.direction <;> decide

/-- What is returned and the `out` and `in out` arguments come back. -/
theorem resultArity_eq : m.resultArity = (if m.isFunction then 1 else 0) +
    declaration.arguments.countP fun a => a.direction = .out ∨ a.direction = .inOut := by
  rw [← map_argument_arguments h, List.countP_map, resultArity, Option.length_toList, isFunction,
    outputs, ← List.countP_eq_length_filter]
  congr 2
  funext b
  rw [Function.comp_apply, Binding.producesOutput]
  cases b.argument.direction <;> decide

end Resolved

/-! ## Main statement -/

/-- **The call model of a declaration.** -/
structure IsFaithful (types : TypeTable) (d : Declaration) (m : CallModel) : Prop where
  name : m.name = d.name
  declaration : m.declaration = d
  /-- The arguments are taken over as they are, in order. -/
  arguments : m.arguments.map (·.argument) = d.arguments
  /-- A function, and nothing else, has a value to return, -/
  isFunction : m.isFunction = true ↔
    ∃ name arguments returnType, d = .function name arguments returnType
  /-- which is passed like an argument. -/
  returned : ∀ b ∈ m.returnValue, ∃ name arguments returnType,
    d = .function name arguments returnType ∧ b.name = "return_value" ∧
      b.argument.direction = .out ∧ b.argument.typeName = returnType
  bindings : ∀ b ∈ m.arguments ++ m.returnValue.toList, b.IsFaithful types
  inputArity : m.inputArity =
    d.arguments.countP fun a => a.direction = .into ∨ a.direction = .inOut
  resultArity : m.resultArity = (if m.isFunction then 1 else 0) +
    d.arguments.countP fun a => a.direction = .out ∨ a.direction = .inOut

theorem isFaithful (h : ofDeclaration types declaration = .ok m) :
    m.IsFaithful types declaration := by
  obtain ⟨hname, hdeclaration, -, -⟩ := of_ofDeclaration_eq_ok h
  refine {
    name := hname
    declaration := hdeclaration
    arguments := map_argument_arguments h
    isFunction := isFunction_iff h
    returned := fun b hb => ?_
    bindings := isFaithful_of_ofDeclaration h
    inputArity := inputArity_eq h
    resultArity := resultArity_eq h
  }
  obtain ⟨name, arguments, returnType, hd, hargument⟩ := exists_of_mem_returnValue h b hb
  refine ⟨name, arguments, returnType, hd, ?_, ?_, ?_⟩
  · rw [Binding.name, hargument]
    rfl
  · rw [hargument]
    rfl
  · rw [hargument]
    rfl

/-- **Resolving is faithful, and fails at the first type that is not known.** A constant is refused.
A routine is resolved exactly if the types of its arguments and of what it returns are all known;
otherwise the error is that of the first one in this order. What it is resolved to is the
declaration itself, with what the table says of each type. -/
theorem ofDeclaration_faithful (types : TypeTable) (d : Declaration) :
    (d.isRoutine = false → ofDeclaration types d = .error (.ofCause (.notARoutine d.name))) ∧
    (d.isRoutine = true →
      ((∃ m, ofDeclaration types d = .ok m) ↔ ∀ a ∈ d.arguments ++ d.returned,
        ∃ mapping, types.classify a.typeName = .ok mapping) ∧
      ∀ e, ofDeclaration types d = .error e ↔
        ∃ front a back, d.arguments ++ d.returned = front ++ a :: back ∧
          (∀ b ∈ front, ∃ mapping, types.classify b.typeName = .ok mapping) ∧
          types.classify a.typeName = .error e) ∧
    ∀ m, ofDeclaration types d = .ok m → m.IsFaithful types d := by
  refine ⟨fun h => ?_, fun h => ?_, fun m h => isFaithful h⟩
  · cases d with
    | constant name typeName value => rfl
    | function name arguments returnType => cases h
    | procedure name arguments => cases h
  · exact ⟨exists_ofDeclaration_iff h, fun e => ofDeclaration_eq_error h⟩

/-- The second of three types is not known, and is reported without the blanks around it. -/
theorem ofDeclaration_of_unknown_types :
    let a : Argument := ⟨"a", .inOut, true, "Number(10)", none⟩
    let b : Argument := ⟨"b", .into, false, " XmlType ", none⟩
    let d : Declaration := .function "F" [a, b] "boolean"
    d.isRoutine = true ∧
      ofDeclaration .oracle d = .error (.ofCause (.unknownDataType "XmlType")) := by
  have hknown : TypeTable.oracle.classify "Number(10)" = .ok ⟨"NUMBER", .scalar⟩ := by rfl
  have hunknown : TypeTable.oracle.classify " XmlType " =
      .error (.ofCause (.unknownDataType "XmlType")) := by rfl
  intro a b d
  obtain ⟨-, hroutine, -⟩ := ofDeclaration_faithful .oracle d
  exact ⟨rfl, ((hroutine rfl).2 _).mpr ⟨[a], b, [returnArgument "boolean"], rfl,
    List.forall_mem_singleton.mpr ⟨_, hknown⟩, hunknown⟩⟩

end CallModel

end StoredRoutine
