import StoredRoutine.Passing

/-!
# Declarations

The members of a package specification: functions, procedures and constants. Types, default
expressions and constant values are kept as they are written.

`Declaration.render` writes a declaration in its shortest form, on one line and without a
semicolon.
-/

namespace StoredRoutine

/-- An argument of a routine. -/
structure Argument where
  name : String
  /-- Which way the argument goes; `in`, if the declaration does not say. -/
  direction : Direction
  /-- Whether the declaration says which way. -/
  explicitDirection : Bool
  /-- The data type, which may have a precision as in `number(10,2)`. -/
  typeName : String
  /-- The default expression, if there is one. -/
  defaultValue : Option String
  deriving DecidableEq, Repr

namespace Argument

/-- Must the caller supply a value? -/
def isRequiredInput (a : Argument) : Bool := a.direction.takesInput && a.defaultValue.isNone

/-- The argument as it stands in a declaration. -/
def render (a : Argument) : String :=
  a.name ++ (if a.explicitDirection then " " ++ a.direction.keywords else "") ++ " " ++ a.typeName
    ++ (match a.defaultValue with
      | some value => " := " ++ value
      | none => "")

/-- The arguments in parentheses; nothing, if there are none. -/
def renderList : List Argument → String
  | [] => ""
  | arguments => "(" ++ ", ".intercalate (arguments.map render) ++ ")"

end Argument

/-- A member of a package specification. -/
inductive Declaration where
  | function (name : String) (arguments : List Argument) (returnType : String)
  | procedure (name : String) (arguments : List Argument)
  | constant (name typeName value : String)
  deriving DecidableEq, Repr

namespace Declaration

/-- The declared name. -/
def name : Declaration → String
  | function name .. | procedure name _ | constant name .. => name

/-- The arguments; a constant has none. -/
def arguments : Declaration → List Argument
  | function _ arguments _ | procedure _ arguments => arguments
  | constant .. => []

/-- Can the member be called? -/
def isRoutine : Declaration → Bool
  | function .. | procedure .. => true
  | constant .. => false

/-- The declaration on one line. -/
def render : Declaration → String
  | function name arguments returnType =>
    "function " ++ name ++ Argument.renderList arguments ++ " return " ++ returnType
  | procedure name arguments => "procedure " ++ name ++ Argument.renderList arguments
  | constant name typeName value => name ++ " constant " ++ typeName ++ " := " ++ value

end Declaration

end StoredRoutine
