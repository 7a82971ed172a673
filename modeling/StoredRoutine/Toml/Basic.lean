/-!
# TOML

The values of a TOML document, and the way a document is put together from its lines.

A table says how it came about, because that decides what later lines may do to it: a header
defines a table once, a dotted key may go on with a table that dotted keys made, and a table
written as a value is closed. Likewise an array made by `[[…]]` headers grows with each of them,
and one written as a value does not.
-/

namespace StoredRoutine.Toml

/-- How a table came about. -/
inductive Origin where
  /-- defined by a header, or an element added by one; the document itself is one too -/
  | header
  /-- only gone through by the path of a header -/
  | path
  /-- made by a dotted key -/
  | dotted
  /-- written as a value -/
  | inline
  deriving DecidableEq, Repr

/-- A value of a document. Of numbers and dates that no configuration needs, the text is kept. -/
inductive Value where
  | string (s : String)
  | integer (n : Int)
  | float (written : List Char)
  | boolean (b : Bool)
  | datetime (written : List Char)
  /-- an array, which `[[…]]` headers may add to if it is `growing` -/
  | array (growing : Bool) (items : List Value)
  | table (origin : Origin) (entries : List (String × Value))
  deriving Repr

/-- The entries of a table, in order. -/
abbrev Entries := List (String × Value)

/-- The entries with the value under a key replaced. -/
def replace (key : String) (value : Value) (entries : Entries) : Entries :=
  entries.map fun (k, v) => if k = key then (k, value) else (k, v)

/-! ## Going along a path -/

/-- May a path go through a table? The path of a header may go through any table but a value, a
dotted key only through tables that no header defines. -/
def Origin.admits (origin : Origin) (byDottedKey : Bool) : Bool :=
  match origin with
  | .inline => false
  | .header => !byDottedKey
  | .path | .dotted => true

/-- Changes the table at the end of a path, given how it came about and its entries, and makes
the tables on the way that are missing. At an array that headers made the path goes on with its
last element. The change may fail, and so may the way. -/
def change (byDottedKey : Bool) (f : Origin → Entries → Option Entries) :
    List String → Origin → Entries → Option Entries
  | [], origin, entries => f origin entries
  | key :: path, _, entries =>
    match entries.lookup key with
    | none => do
      let origin := if byDottedKey then .dotted else .path
      let inner ← change byDottedKey f path origin []
      return entries ++ [(key, .table origin inner)]
    | some (.table origin inner) =>
      if origin.admits byDottedKey then do
        let inner ← change byDottedKey f path origin inner
        return replace key (.table origin inner) entries
      else none
    | some (.array true items) =>
      match items.getLast? with
      | some (.table origin inner) => do
        let inner ← change byDottedKey f path origin inner
        return replace key (.array true (items.dropLast ++ [.table origin inner])) entries
      | _ => none
    | _ => none

/-- Adds a value under a dotted key. The last table on the way to it has to be one that a dotted
key made, and must not have the key yet. -/
def assign (path : List String) (key : String) (value : Value) (origin : Origin)
    (entries : Entries) : Option Entries :=
  let add (origin : Origin) (entries : Entries) : Option Entries :=
    if (origin = .dotted) ≠ (path ≠ []) ∨ (entries.lookup key).isSome then none
    else some (entries ++ [(key, value)])
  change true add path origin entries

/-- Defines a table: a new one, or one that until then was only on the path of a header. -/
def defineTable (key : String) (_ : Origin) (entries : Entries) : Option Entries :=
  match entries.lookup key with
  | none => some (entries ++ [(key, .table .header [])])
  | some (.table .path inner) => some (replace key (.table .header inner) entries)
  | _ => none

/-- Adds an empty table to an array of tables, which may be new. -/
def addElement (key : String) (_ : Origin) (entries : Entries) : Option Entries :=
  match entries.lookup key with
  | none => some (entries ++ [(key, .array true [.table .header []])])
  | some (.array true items) =>
    some (replace key (.array true (items ++ [.table .header []])) entries)
  | _ => none

/-! ## Lines -/

/-- What a line of a document does. Every path has a last key, which is kept apart. -/
inductive Line where
  /-- nothing, or only a comment -/
  | blank
  /-- goes on with the table of the path -/
  | table (path : List String) (key : String)
  /-- goes on with a new element of the array of the path -/
  | element (path : List String) (key : String)
  /-- gives the key a value in the table gone on with -/
  | entry (path : List String) (key : String) (value : Value)
  deriving Repr

/-- A document that is being put together: its entries, and the path of the table that lines go
on with. -/
structure Draft where
  root : Entries
  here : List String

/-- Carries out a line. -/
def Draft.add (draft : Draft) : Line → Option Draft
  | .blank => some draft
  | .table path key => do
    let root ← change false (defineTable key) path .header draft.root
    return ⟨root, path ++ [key]⟩
  | .element path key => do
    let root ← change false (addElement key) path .header draft.root
    return ⟨root, path ++ [key]⟩
  | .entry path key value => do
    let root ← change false (assign path key value) draft.here .header draft.root
    return { draft with root }

/-- The entries of the document that the lines make up. -/
def assemble (lines : List Line) : Option Entries :=
  (lines.foldlM Draft.add ⟨[], []⟩).map (·.root)

/-- The entries of a table written as a value. Its keys may be dotted, too. -/
def inlineEntries (pairs : List ((List String × String) × Value)) : Option Entries :=
  pairs.foldlM (fun entries ((path, key), value) => assign path key value .header entries) []

end StoredRoutine.Toml
