import StoredRoutine.Text.AsciiCase
import StoredRoutine.TypeTable
import StoredRoutine.Toml.Document

/-!
# Configurations

What a run is told beside the specifications: which packages to take, a label for the schema,
the format of the output, and data types to put into the Oracle table, in place of its own or
beside them.

A configuration is read from a TOML document, where every key has a value if it is left out and
no other key is allowed. In the entries of `types`, keys without a meaning are passed over.
-/

namespace StoredRoutine

/-- The formats of the output. -/
inductive OutputFormat where
  | json
  | messagePack
  deriving DecidableEq, Repr

namespace OutputFormat

/-- The name of the format. -/
def name : OutputFormat → String
  | json => "json"
  | messagePack => "msgpack"

/-- The format of a name in small letters. MessagePack has two names. -/
def ofName? (name : String) : Option OutputFormat :=
  if name = "json" then some json
  else if name = "msgpack" ∨ name = "messagepack" then some messagePack
  else none

/-- The format of a name, whatever the case of its ASCII letters. -/
def parse (text : String) : Except Error OutputFormat :=
  let name := String.ofList (Text.asciiLower text.toList)
  match ofName? name with
  | some format => .ok format
  | none => .error (.ofCause (.config ("unknown output format: " ++ name)))

end OutputFormat

/-- What a run is told beside the specifications. -/
structure Config where
  /-- the packages to take; all, if none is named -/
  packages : List String
  /-- a label for the schema, which goes into the output as it is -/
  schema : Option String
  format : OutputFormat
  /-- types to put into the table, in order -/
  types : List (String × Mapping)
  deriving DecidableEq, Repr

namespace Config

/-- The configuration that says nothing. -/
def default : Config := ⟨[], none, .json, []⟩

/-- Is the package to be taken? Names are compared without regard to case. -/
def includes (c : Config) (package : String) : Bool :=
  c.packages.isEmpty || c.packages.any fun p => sameName p package

/-- The table of the Oracle dialect with the types of the configuration put in. -/
def typeTable (c : Config) : TypeTable := TypeTable.oracle.insertAll c.types

/-! ## Reading -/

section Reading

open Toml

/-- A text. -/
def readText? : Toml.Value → Option String
  | .string s => some s
  | _ => none

/-- A list of values that are read alike. -/
def readList? {α : Type} (read : Toml.Value → Option α) : Toml.Value → Option (List α)
  | .array _ items => items.mapM read
  | _ => none

/-- Has the value nothing in it? -/
def isEmptyValue : Toml.Value → Bool
  | .array _ [] | .table _ [] => true
  | _ => false

/-- One of several names. It may also be given as the only key of a table, with nothing in its
value. -/
def readName? : Toml.Value → Option String
  | .string s => some s
  | .table _ [(key, value)] => if isEmptyValue value then some key else none
  | _ => none

/-- The family of a name. -/
def familyOfName? (name : String) : Option Family :=
  if name = "scalar" then some .scalar
  else if name = "large_object" then some .largeObject
  else if name = "cursor" then some .cursor
  else none

/-- The entry of a type, from the values of its name, token and family. -/
def readMapping? (name token family : Toml.Value) : Option (String × Mapping) := do
  return (← readText? name, ⟨← readText? token, ← familyOfName? (← readName? family)⟩)

/-- A type for the table: its name, token and family, under their keys or in this order. -/
def readType? : Toml.Value → Option (String × Mapping)
  | .table _ entries => do
    readMapping? (← entries.lookup "name") (← entries.lookup "token") (← entries.lookup "family")
  | .array _ (name :: token :: family :: _) => readMapping? name token family
  | _ => none

/-- The configuration with what a key says. -/
def readEntry? (c : Config) : String × Toml.Value → Option Config
  | ("packages", value) => do return { c with packages := ← readList? readText? value }
  | ("schema", value) => do return { c with schema := some (← readText? value) }
  | ("format", value) => do return { c with format := ← OutputFormat.ofName? (← readName? value) }
  | ("types", value) => do return { c with types := ← readList? readType? value }
  | _ => none

/-- The configuration that a TOML document holds. -/
def ofToml? (text : String) : Option Config := do
  (← Toml.parse? text).foldlM readEntry? default

/-- The configuration that a TOML document holds; an error, if the document is not valid or holds
something else. -/
def parse (text : String) : Except Error Config :=
  match ofToml? text with
  | some c => .ok c
  | none => .error (.ofCause (.config "the document is not a valid configuration"))

end Reading

end Config

end StoredRoutine
