import StoredRoutine.CallModel
import StoredRoutine.Declaration.Parser

/-!
# Packages

A specification is processed declaration by declaration: each fragment is read and resolved on
its own, so that one that fails does not keep the others from being built. A `Report` holds what
was built and, for every fragment that failed, an error that says where.

Several specifications are processed side by side, a batch of them at a time, and reported in
their order.
-/

namespace StoredRoutine

/-- What was built from a specification. -/
structure Package where
  name : String
  /-- The members in the order of the source. -/
  members : List Member
  deriving DecidableEq, Repr

namespace Package

/-- The name of the module for the package: its name in small letters. -/
def moduleName (p : Package) : String := String.ofList (Text.lower p.name.toList)

/-- The number of functions. -/
def functions (p : Package) : Nat := p.members.countP fun m => m.routine?.any (·.isFunction)

/-- The number of procedures. -/
def procedures (p : Package) : Nat := p.members.countP fun m => m.routine?.any (!·.isFunction)

/-- The number of constants. -/
def constants (p : Package) : Nat := p.members.countP (·.routine?.isNone)

/-- The first member of the name, which is compared without regard to case. -/
def find? (p : Package) (name : String) : Option Member :=
  p.members.find? fun m => sameName m.name name

end Package

/-! ## Reports -/

/-- An error laid out for output. -/
structure Diagnostic where
  package : Option String
  line : Option Nat
  column : Option Nat
  fragment : Option String
  message : String
  deriving DecidableEq, Repr

/-- Lays out an error. What is not known of its place is left out. -/
def Diagnostic.ofError (e : Error) : Diagnostic :=
  let context := e.context.getD .empty
  { package := context.package
    line := context.line
    column := context.column
    fragment := context.fragment
    message := e.message }

/-- What came of a specification: the package with the members that could be built, and one
error for each declaration that could not. -/
structure Report where
  package : Package
  errors : List Error
  deriving DecidableEq, Repr

namespace Report

/-- Was every declaration built? -/
def isClean (r : Report) : Bool := r.errors.isEmpty

/-- The errors laid out for output. -/
def diagnostics (r : Report) : List Diagnostic := r.errors.map .ofError

/-- The member that a fragment declares. -/
def memberOf (types : TypeTable) (f : Source.Fragment) : Except Error Member := do
  Member.ofDeclaration types (← Declaration.parse f)

/-- Where a fragment of the package stands. -/
def contextOf (package : String) (f : Source.Fragment) : Context where
  package := some package
  fragment := some f.text
  line := some f.span.line
  column := some f.span.column

/-- What comes of each fragment of a specification, in order. -/
def outcomes (types : TypeTable) (name source : String) : List (Except Error Member) :=
  (Source.scan source).map fun f =>
    (memberOf types f).mapError (·.within (contextOf name f))

/-- Processes the specification of a package. -/
def ofSource (types : TypeTable) (name source : String) : Report where
  package := ⟨name, (outcomes types name source).filterMap Except.toOption⟩
  errors := (outcomes types name source).filterMap fun
    | .ok _ => none
    | .error e => some e

/-! ## Batches -/

/-- The list cut into batches of `size`, the last of which may be smaller. -/
def batches {α : Type} (size : Nat) (items : List α) : List (List α) :=
  match items with
  | [] => []
  | first :: rest => (first :: rest.take (size - 1)) :: batches size (rest.drop (size - 1))
termination_by items.length
decreasing_by simp only [List.length_cons, List.length_drop]; omega

/-- Processes the specifications of a batch side by side. -/
def ofBatch (types : TypeTable) (batch : List (String × String)) : List Report :=
  (batch.map fun (name, source) => Task.spawn fun _ => ofSource types name source).map Task.get

/-- Processes specifications, each given with the name of its package, with at most `workers` of
them being worked on at any time. -/
def ofSources (workers : Nat) (types : TypeTable) (inputs : List (String × String)) :
    List Report :=
  (batches workers inputs).flatMap (ofBatch types)

end Report

end StoredRoutine
