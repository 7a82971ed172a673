import StoredRoutine.Declaration.Basic
import StoredRoutine.TypeTable

/-!
# Call models

A `CallModel` is a routine with everything resolved that is needed to call it: for each argument
the driver's token, the family of its type, and the strategy by which it is passed. The value
that a function returns is passed like an `out` argument of its own, which is kept apart from
the arguments and comes first in the result.

A package has `Member`s: call models, and constants, which are taken over as they are written.
-/

namespace StoredRoutine

/-- An argument resolved against a type table. -/
structure Binding where
  argument : Argument
  /-- What a driver allocates the placeholder with. -/
  token : String
  family : Family
  strategy : Strategy
  deriving DecidableEq, Repr

namespace Binding

/-- The name of the argument. -/
def name (b : Binding) : String := b.argument.name

/-- Does the caller supply a value? -/
def takesInput (b : Binding) : Bool := b.argument.direction.takesInput

/-- Does the argument come back in the result? -/
def producesOutput (b : Binding) : Bool := b.argument.direction.producesOutput

/-- Must the caller supply a value? -/
def isRequiredInput (b : Binding) : Bool := b.argument.isRequiredInput

/-- Resolves an argument against the table. -/
def ofArgument (types : TypeTable) (argument : Argument) : Except Error Binding :=
  (types.classify argument.typeName).map fun mapping => {
    argument
    token := mapping.token
    family := mapping.family
    strategy := .forParameter mapping.family argument.direction
  }

end Binding

/-- A routine ready to be called. -/
structure CallModel where
  name : String
  /-- The arguments in the order in which they are declared. -/
  arguments : List Binding
  /-- The value that is returned; a procedure has none. -/
  returnValue : Option Binding
  declaration : Declaration
  deriving DecidableEq, Repr

namespace CallModel

/-- Is a value returned? -/
def isFunction (m : CallModel) : Bool := m.returnValue.isSome

/-- The arguments that the caller supplies, in order. -/
def inputs (m : CallModel) : List Binding := m.arguments.filter (·.takesInput)

/-- The arguments that come back in the result, in order. -/
def outputs (m : CallModel) : List Binding := m.arguments.filter (·.producesOutput)

/-- The number of values that the caller supplies. -/
def inputArity (m : CallModel) : Nat := m.inputs.length

/-- The number of values in the result. -/
def resultArity (m : CallModel) : Nat := m.returnValue.toList.length + m.outputs.length

/-- Does an argument or the returned value belong to the family? -/
def usesFamily (m : CallModel) (family : Family) : Bool :=
  (m.arguments ++ m.returnValue.toList).any (·.family = family)

/-- Can a call hand out rows? -/
def returnsRows (m : CallModel) : Bool := m.usesFamily .cursor

/-- The argument in whose place the value of a function is returned. -/
def returnArgument (typeName : String) : Argument where
  name := "return_value"
  direction := .out
  explicitDirection := true
  typeName := typeName
  defaultValue := none

/-- Resolves a routine against the table: its arguments in order, and then what it returns. -/
def ofDeclaration (types : TypeTable) (d : Declaration) : Except Error CallModel := do
  match d with
  | .function name arguments returnType =>
    let arguments ← arguments.mapM (Binding.ofArgument types)
    let returnValue ← Binding.ofArgument types (returnArgument returnType)
    return ⟨name, arguments, some returnValue, d⟩
  | .procedure name arguments =>
    let arguments ← arguments.mapM (Binding.ofArgument types)
    return ⟨name, arguments, none, d⟩
  | .constant name _ _ => throw (.ofCause (.notARoutine name))

end CallModel

/-- A member of a package. -/
inductive Member where
  | routine (model : CallModel)
  | constant (name typeName value : String)
  deriving DecidableEq, Repr

namespace Member

/-- The name of the member. -/
def name : Member → String
  | routine model => model.name
  | constant name _ _ => name

/-- The call model, if the member can be called. -/
def routine? : Member → Option CallModel
  | routine model => some model
  | constant .. => none

/-- Resolves a declaration against the table. The type of a constant is not looked up. -/
def ofDeclaration (types : TypeTable) (d : Declaration) : Except Error Member :=
  match d with
  | .constant name typeName value => .ok (.constant name typeName value)
  | d => (CallModel.ofDeclaration types d).map .routine

end Member

end StoredRoutine
