import StoredRoutine.Catalog.Basic
import StoredRoutine.Document.Json
import StoredRoutine.Document.MessagePack

/-!
# Encoding catalogs

How a catalog is laid out as a document, and written in one of the output formats. Every field
is there even if it is empty.
-/

namespace StoredRoutine

open Document (ofOption)

/-- The direction of an argument in output. -/
def Direction.document : Direction → Document
  | .into => .string "in"
  | .out => .string "out"
  | .inOut => .string "in_out"

/-- The family of a type in output. -/
def Family.document : Family → Document
  | .scalar => .string "scalar"
  | .largeObject => .string "large_object"
  | .cursor => .string "cursor"

/-- The first half of a strategy in output. -/
def Prepare.document : Prepare → Document
  | .passValue => .string "pass_value"
  | .allocate => .string "allocate"
  | .allocateAndSeed => .string "allocate_and_seed"

/-- The second half of a strategy in output. -/
def Extract.document : Extract → Document
  | .nothing => .string "nothing"
  | .readValue => .string "read_value"
  | .materialize => .string "materialize"
  | .wrapRows => .string "wrap_rows"

/-- A strategy in output. -/
def Strategy.document (s : Strategy) : Document :=
  .object [("prepare", s.prepare.document), ("extract", s.extract.document)]

/-- An argument in output, with what it was resolved to. -/
def Binding.document (b : Binding) : Document :=
  .object
    [ ("name", .string b.argument.name),
      ("direction", b.argument.direction.document),
      ("explicit_direction", .bool b.argument.explicitDirection),
      ("type_name", .string b.argument.typeName),
      ("default_value", ofOption .string b.argument.defaultValue),
      ("token", .string b.token),
      ("family", b.family.document),
      ("strategy", b.strategy.document) ]

/-- A member in output. -/
def Member.document : Member → Document
  | .routine m =>
    .object
      [ ("member", .string "routine"),
        ("kind", .string (if m.isFunction then "function" else "procedure")),
        ("name", .string m.name),
        ("arguments", .list (m.arguments.map (·.document))),
        ("return_value", ofOption (·.document) m.returnValue) ]
  | .constant name typeName value =>
    .object
      [ ("member", .string "constant"),
        ("name", .string name),
        ("type_name", .string typeName),
        ("value", .string value) ]

/-- A package in output. -/
def Package.document (p : Package) : Document :=
  .object
    [ ("name", .string p.name),
      ("module", .string p.moduleName),
      ("members", .list (p.members.map (·.document))) ]

/-- A diagnostic in output. -/
def Diagnostic.document (d : Diagnostic) : Document :=
  .object
    [ ("package", ofOption .string d.package),
      ("line", ofOption .nat d.line),
      ("column", ofOption .nat d.column),
      ("fragment", ofOption .string d.fragment),
      ("message", .string d.message) ]

namespace Catalog

/-- A catalog in output. -/
def document (c : Catalog) : Document :=
  .object
    [ ("schema", ofOption .string c.schema),
      ("packages", .list (c.packages.map (·.document))),
      ("diagnostics", .list (c.diagnostics.map (·.document))) ]

/-- The bytes of a catalog in a format. -/
def encode (format : OutputFormat) (c : Catalog) : List UInt8 :=
  match format with
  | .json => Document.utf8 (Document.Json.text c.document)
  | .messagePack => Document.MessagePack.encode c.document

end Catalog

end StoredRoutine
