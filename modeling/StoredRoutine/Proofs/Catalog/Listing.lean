import StoredRoutine.Catalog.Encoding
import StoredRoutine.Proofs.Document.Json
import StoredRoutine.Proofs.Document.MessagePack

/-!
# What an output carries

A `Listing` is all that output says of a catalog. It has the kind of every routine and the module
of every package as data of their own, so that there are more listings than catalogs.

Both formats carry a listing whole: readers that know the format alone accept what is written and
make the same tree of it, in which no object has two fields of one name, and the listing can be
read back from that tree (`output_carries_listing`).
-/

namespace StoredRoutine

open Document (ofOption)

/-! ## Listings -/

/-- A member of a package as it is listed. -/
inductive Listing.Member where
  | routine (isFunction : Bool) (name : String) (arguments : List Binding)
    (returnValue : Option Binding)
  | constant (name typeName value : String)
  deriving DecidableEq, Repr

/-- A package as it is listed. -/
structure Listing.Package where
  name : String
  moduleName : String
  members : List Listing.Member
  deriving DecidableEq, Repr

/-- Everything that is listed. -/
structure Listing where
  schema : Option String
  packages : List Listing.Package
  diagnostics : List Diagnostic
  deriving DecidableEq, Repr

namespace Listing

/-- A listed member in output. -/
def Member.document : Listing.Member → Document
  | .routine isFunction name arguments returnValue =>
    .object
      [ ("member", .string "routine"),
        ("kind", .string (if isFunction then "function" else "procedure")),
        ("name", .string name),
        ("arguments", .list (arguments.map (·.document))),
        ("return_value", ofOption (·.document) returnValue) ]
  | .constant name typeName value =>
    .object
      [ ("member", .string "constant"),
        ("name", .string name),
        ("type_name", .string typeName),
        ("value", .string value) ]

/-- A listed package in output. -/
def Package.document (p : Listing.Package) : Document :=
  .object
    [ ("name", .string p.name),
      ("module", .string p.moduleName),
      ("members", .list (p.members.map (·.document))) ]

/-- A listing in output. -/
def document (o : Listing) : Document :=
  .object
    [ ("schema", ofOption .string o.schema),
      ("packages", .list (o.packages.map (·.document))),
      ("diagnostics", .list (o.diagnostics.map (·.document))) ]

/-- The bytes of a listing in a format. -/
def encode (format : OutputFormat) (o : Listing) : List UInt8 :=
  match format with
  | .json => Document.utf8 (Document.Json.text o.document)
  | .messagePack => Document.MessagePack.encode o.document

/-- Every size in the listing is below `2 ^ 32`. -/
def Fits (o : Listing) : Prop := o.document.Fits

end Listing

/-- A member with what is listed of it. -/
def Member.listing : Member → Listing.Member
  | .routine m => .routine m.isFunction m.name m.arguments m.returnValue
  | .constant name typeName value => .constant name typeName value

/-- A package with what is listed of it. -/
def Package.listing (p : Package) : Listing.Package :=
  ⟨p.name, p.moduleName, p.members.map (·.listing)⟩

/-- A catalog with what is listed of it. -/
def Catalog.listing (c : Catalog) : Listing :=
  ⟨c.schema, c.packages.map (·.listing), c.diagnostics⟩

theorem Member.document_listing (m : Member) : m.listing.document = m.document := by
  cases m <;> rfl

theorem Package.document_listing (p : Package) : p.listing.document = p.document := by
  simp [listing, document, Listing.Package.document, Member.document_listing]

theorem Catalog.document_listing (c : Catalog) : c.listing.document = c.document := by
  simp [listing, document, Listing.document, Package.document_listing]

/-- A catalog is written by what is listed of it. -/
theorem Catalog.encode_eq_encode_listing (format : OutputFormat) (c : Catalog) :
    c.encode format = c.listing.encode format := by
  cases format <;> simp only [encode, Listing.encode, document_listing]

/-! ## Reading listings -/

/-- The direction that a datum says. -/
def Direction.ofDatum? : Datum → Option Direction
  | .string "in" => some .into
  | .string "out" => some .out
  | .string "in_out" => some .inOut
  | _ => none

/-- The family that a datum says. -/
def Family.ofDatum? : Datum → Option Family
  | .string "scalar" => some .scalar
  | .string "large_object" => some .largeObject
  | .string "cursor" => some .cursor
  | _ => none

/-- The first half of a strategy that a datum says. -/
def Prepare.ofDatum? : Datum → Option Prepare
  | .string "pass_value" => some .passValue
  | .string "allocate" => some .allocate
  | .string "allocate_and_seed" => some .allocateAndSeed
  | _ => none

/-- The second half of a strategy that a datum says. -/
def Extract.ofDatum? : Datum → Option Extract
  | .string "nothing" => some .nothing
  | .string "read_value" => some .readValue
  | .string "materialize" => some .materialize
  | .string "wrap_rows" => some .wrapRows
  | _ => none

/-- The strategy that a datum says. -/
def Strategy.ofDatum? (d : Datum) : Option Strategy := do
  let prepare ← Prepare.ofDatum? (← d.field? "prepare")
  let extract ← Extract.ofDatum? (← d.field? "extract")
  return { prepare, extract }

/-- The resolved argument that a datum says. -/
def Binding.ofDatum? (d : Datum) : Option Binding := do
  let name ← (← d.field? "name").string?
  let direction ← Direction.ofDatum? (← d.field? "direction")
  let explicitDirection ← (← d.field? "explicit_direction").bool?
  let typeName ← (← d.field? "type_name").string?
  let defaultValue ← (← d.field? "default_value").option? Datum.string?
  let token ← (← d.field? "token").string?
  let family ← Family.ofDatum? (← d.field? "family")
  let strategy ← Strategy.ofDatum? (← d.field? "strategy")
  return {
    argument := { name, direction, explicitDirection, typeName, defaultValue }
    token, family, strategy }

/-- The diagnostic that a datum says. -/
def Diagnostic.ofDatum? (d : Datum) : Option Diagnostic := do
  let package ← (← d.field? "package").option? Datum.string?
  let line ← (← d.field? "line").option? Datum.nat?
  let column ← (← d.field? "column").option? Datum.nat?
  let fragment ← (← d.field? "fragment").option? Datum.string?
  let message ← (← d.field? "message").string?
  return { package, line, column, fragment, message }

namespace Listing

/-- Whether the word for the kind of a routine is that for a function. -/
def isFunction? : Datum → Option Bool
  | .string "function" => some true
  | .string "procedure" => some false
  | _ => none

/-- The member that a datum says. -/
def Member.ofDatum? (d : Datum) : Option Listing.Member := do
  match ← (← d.field? "member").string? with
  | "routine" =>
    let isFunction ← isFunction? (← d.field? "kind")
    let name ← (← d.field? "name").string?
    let arguments ← (← d.field? "arguments").list? Binding.ofDatum?
    let returnValue ← (← d.field? "return_value").option? Binding.ofDatum?
    return .routine isFunction name arguments returnValue
  | "constant" =>
    let name ← (← d.field? "name").string?
    let typeName ← (← d.field? "type_name").string?
    let value ← (← d.field? "value").string?
    return .constant name typeName value
  | _ => none

/-- The package that a datum says. -/
def Package.ofDatum? (d : Datum) : Option Listing.Package := do
  let name ← (← d.field? "name").string?
  let moduleName ← (← d.field? "module").string?
  let members ← (← d.field? "members").list? Member.ofDatum?
  return { name, moduleName, members }

/-- The listing that a datum says. -/
def ofDatum? (d : Datum) : Option Listing := do
  let schema ← (← d.field? "schema").option? Datum.string?
  let packages ← (← d.field? "packages").list? Package.ofDatum?
  let diagnostics ← (← d.field? "diagnostics").list? Diagnostic.ofDatum?
  return { schema, packages, diagnostics }

end Listing

/-! ## Listings are read back -/

theorem Direction.ofDatum?_document (d : Direction) : ofDatum? d.document.datum = some d := by
  cases d <;> rfl

theorem Family.ofDatum?_document (f : Family) : ofDatum? f.document.datum = some f := by
  cases f <;> rfl

theorem Strategy.ofDatum?_document (s : Strategy) : ofDatum? s.document.datum = some s := by
  obtain ⟨prepare, extract⟩ := s
  cases prepare <;> cases extract <;> rfl

theorem Binding.ofDatum?_document (b : Binding) : ofDatum? b.document.datum = some b := by
  have default := Document.option?_datum b.argument.defaultValue rfl Document.string?_datum
  simp [ofDatum?, document, Document.field?_datum, default, Direction.ofDatum?_document,
    Family.ofDatum?_document, Strategy.ofDatum?_document]

theorem Diagnostic.ofDatum?_document (d : Diagnostic) : ofDatum? d.document.datum = some d := by
  have text (x : Option String) := Document.option?_datum x rfl Document.string?_datum
  have number (x : Option Nat) := Document.option?_datum x rfl Document.nat?_datum
  simp [ofDatum?, document, Document.field?_datum, text, number]

namespace Listing

theorem isFunction?_datum (isFunction : Bool) :
    isFunction? (Document.string (if isFunction then "function" else "procedure")).datum
      = some isFunction := by
  cases isFunction <;> rfl

theorem Member.ofDatum?_document (m : Listing.Member) : ofDatum? m.document.datum = some m := by
  cases m with
  | routine isFunction name arguments returnValue =>
    have items := Document.list?_datum arguments fun b _ => b.ofDatum?_document
    have value := Document.option?_datum returnValue rfl Binding.ofDatum?_document
    simp [ofDatum?, document, Document.field?_datum, isFunction?_datum, items, value]
  | constant name typeName value => simp [ofDatum?, document, Document.field?_datum]

theorem Package.ofDatum?_document (p : Listing.Package) : ofDatum? p.document.datum = some p := by
  have items := Document.list?_datum p.members fun m _ => m.ofDatum?_document
  simp [ofDatum?, document, Document.field?_datum, items]

theorem ofDatum?_document (o : Listing) : ofDatum? o.document.datum = some o := by
  have text := Document.option?_datum o.schema rfl Document.string?_datum
  have packages := Document.list?_datum o.packages fun p _ => p.ofDatum?_document
  have diagnostics := Document.list?_datum o.diagnostics fun d _ => d.ofDatum?_document
  simp [ofDatum?, document, Document.field?_datum, text, packages, diagnostics]

end Listing

/-! ## The names of fields -/

theorem Direction.distinct_document (d : Direction) : d.document.datum.Distinct := by
  cases d <;> exact Document.distinct_string _

theorem Family.distinct_document (f : Family) : f.document.datum.Distinct := by
  cases f <;> exact Document.distinct_string _

theorem Strategy.distinct_document (s : Strategy) : s.document.datum.Distinct := by
  obtain ⟨prepare, extract⟩ := s
  cases prepare <;> cases extract <;> simp [document, Prepare.document, Extract.document]

/-- The fields of an argument have other names than those that stand beside them. -/
theorem Binding.distinct_document (b : Binding) : b.document.datum.Distinct := by
  have default := Document.distinct_ofOption Document.distinct_string b.argument.defaultValue
  simp [document, default, Direction.distinct_document, Family.distinct_document,
    Strategy.distinct_document]

theorem Diagnostic.distinct_document (d : Diagnostic) : d.document.datum.Distinct := by
  have text := Document.distinct_ofOption Document.distinct_string
  have number := Document.distinct_ofOption Document.distinct_nat
  simp [document, text, number]

namespace Listing

/-- No field of a routine or of a constant has the name of the one that tells them apart. -/
theorem Member.distinct_document (m : Listing.Member) : m.document.datum.Distinct := by
  cases m with
  | routine isFunction name arguments returnValue =>
    have value := Document.distinct_ofOption Binding.distinct_document returnValue
    simp [document, value, Binding.distinct_document]
  | constant name typeName value => simp [document]

theorem Package.distinct_document (p : Listing.Package) : p.document.datum.Distinct := by
  simp [document, Member.distinct_document]

theorem distinct_document (o : Listing) : o.document.datum.Distinct := by
  have text := Document.distinct_ofOption Document.distinct_string o.schema
  simp [document, text, Package.distinct_document, Diagnostic.distinct_document]

/-! ## What the formats carry -/

/-- The reader for a format, which knows the format alone. -/
def decode? (format : OutputFormat) : List UInt8 → Option Datum :=
  match format with
  | .json => Datum.Json.decode?
  | .messagePack => Datum.MessagePack.decode?

/-- Can the format say every size in the listing? JSON has no bounds. -/
def FitsIn (o : Listing) : OutputFormat → Prop
  | .json => True
  | .messagePack => o.Fits

/-- What is written of a listing is read as one tree from either format. -/
theorem decode?_encode (format : OutputFormat) {o : Listing} (fits : o.FitsIn format) :
    decode? format (o.encode format) = some o.document.datum := by
  cases format with
  | json =>
    simp only [decode?, encode]
    exact Datum.Json.decode?_text o.document
  | messagePack =>
    simp only [decode?, encode]
    exact Datum.MessagePack.decode?_encode fits

/-- The listing is read back from what is written of it. -/
theorem bind_ofDatum?_encode (format : OutputFormat) {o : Listing} (fits : o.FitsIn format) :
    (decode? format (o.encode format)).bind ofDatum? = some o := by
  rw [decode?_encode format fits]
  exact ofDatum?_document o

end Listing

/-- **Both formats carry everything.** Output is written of what is listed of a catalog. A reader
for its format accepts it, with no byte left over, and makes the same tree of it in either format;
no object in the tree has two fields of one name, and the listing, with all that is in it, is read
back from the tree. So listings that differ in anything are written differently. -/
theorem output_carries_listing :
    (∀ (format : OutputFormat) (c : Catalog), c.encode format = c.listing.encode format) ∧
    ∀ o : Listing,
      Datum.Json.decode? (o.encode .json) = some o.document.datum ∧
      (o.Fits → Datum.MessagePack.decode? (o.encode .messagePack) = some o.document.datum) ∧
      o.document.datum.Distinct ∧
      Listing.ofDatum? o.document.datum = some o ∧
      (∀ o' : Listing, o ≠ o' → o.encode .json ≠ o'.encode .json) ∧
      ∀ o' : Listing, o.Fits → o'.Fits → o ≠ o' →
        o.encode .messagePack ≠ o'.encode .messagePack := by
  have injective (format : OutputFormat) {o o' : Listing} (fits : o.FitsIn format)
      (fits' : o'.FitsIn format) (differ : o ≠ o') : o.encode format ≠ o'.encode format := by
    intro same
    have read := Listing.bind_ofDatum?_encode format fits
    rw [same, Listing.bind_ofDatum?_encode format fits'] at read
    exact differ (Option.some.inj read).symm
  refine ⟨Catalog.encode_eq_encode_listing, fun o => ?_⟩
  have bounds (o : Listing) : o.FitsIn .json := True.intro
  exact ⟨Listing.decode?_encode .json (bounds o), Listing.decode?_encode .messagePack,
    o.distinct_document, o.ofDatum?_document, fun o' => injective .json (bounds o) (bounds o'),
    fun o' => injective .messagePack⟩

/-- Two listings that differ only in a schema without a name, with lists empty and not, numbers in
one byte and in three, and strings with quotes, backslashes, controls and letters of two bytes. -/
theorem output_carries_listing_of_nameless_schema :
    let b : Binding :=
      { argument := ⟨"naïve\t", .inOut, true, "clob", some "'\"\\'"⟩
        token := "CLOB"
        family := .largeObject
        strategy := ⟨.allocateAndSeed, .materialize⟩ }
    let packages : List Listing.Package :=
      [⟨"P", "p", [.routine true "f" [] (some b), .constant "c" "number" ""]⟩, ⟨"Q", "q", []⟩]
    let o : Listing := ⟨none, packages, [⟨some "P", some 300, some 7, none, "\x00\n"⟩]⟩
    let o' : Listing := ⟨some "", packages, o.diagnostics⟩
    o.Fits ∧ o'.Fits ∧ o ≠ o' ∧
      Datum.MessagePack.decode? (o.encode .messagePack) = some o.document.datum ∧
      Listing.ofDatum? o.document.datum = some o ∧
      o.encode .messagePack ≠ o'.encode .messagePack := by
  intro b packages o o'
  have fits : o.document.Fits := by decide +kernel
  have fits' : o'.document.Fits := by decide +kernel
  have differ : o ≠ o' := by decide
  obtain ⟨-, read, -, listing, -, apart⟩ := output_carries_listing.2 o
  exact ⟨fits, fits', differ, read fits, listing, apart o' fits fits' differ⟩

end StoredRoutine
