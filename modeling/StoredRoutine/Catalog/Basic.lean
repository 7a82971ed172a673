import StoredRoutine.Config
import StoredRoutine.Package
import StoredRoutine.Source.Header

/-!
# Catalogs

What a run makes of specifications: a model of each package that the configuration includes, and
a diagnostic for each declaration that was rejected.
-/

namespace StoredRoutine

/-- The specification of a package: its name and its text. -/
structure Specification where
  name : String
  text : String
  deriving DecidableEq, Repr

/-- A specification under the name in its header, or, if it has none, under another. -/
def Specification.ofText (otherwise text : String) : Specification :=
  ⟨(Source.packageName? text).getD otherwise, text⟩

/-- Everything that a run makes. -/
structure Catalog where
  /-- the label of the configuration -/
  schema : Option String
  /-- the packages, in the order of the specifications -/
  packages : List Package
  /-- what is wrong with rejected declarations, in the same order -/
  diagnostics : List Diagnostic
  deriving DecidableEq, Repr

namespace Catalog

/-- Was every declaration built? -/
def isClean (c : Catalog) : Bool := c.diagnostics.isEmpty

/-- The catalog of the reports. -/
def ofReports (schema : Option String) (reports : List Report) : Catalog where
  schema := schema
  packages := reports.map (·.package)
  diagnostics := reports.flatMap (·.diagnostics)

/-- Processes the specifications that the configuration includes, with at most `workers` of them
being worked on at any time. -/
def generate (workers : Nat) (config : Config) (specifications : List Specification) : Catalog :=
  let selected := specifications.filter fun s => config.includes s.name
  ofReports config.schema
    (Report.ofSources workers config.typeTable (selected.map fun s => (s.name, s.text)))

end Catalog

end StoredRoutine
