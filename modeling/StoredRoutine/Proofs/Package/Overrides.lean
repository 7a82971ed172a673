import Mathlib.Data.List.Dedup
import StoredRoutine.Config
import StoredRoutine.Proofs.Package.TypeNames

/-!
# Types put over others

Entries are put into a table one after the other, and their names may be spellings of one type. Only
the last entry of a type counts, and only a type that no entry is about is what it was before
(`find?_insertAll`). The keys of the table are the normalized names, each of them once
(`mem_keys_insertAll`).

`Stores` says what this makes of a table for all who ask it: it is a map from normalized names,
which is determined by the entries it began with and those that were put in. The table of every
configuration is such a map, over the Oracle dialect (`stores_insertAll`).
-/

namespace StoredRoutine.TypeTable

/-! ## The last entry -/

/-- What the last of the entries says that is about the type `name`, in whatever spelling. -/
def last? (entries : List (String × Mapping)) (name : String) : Option Mapping :=
  (entries.reverse.find? fun entry => normalize entry.1 = normalize name).map (·.2)

theorem last?_concat (entries : List (String × Mapping)) (name' : String) (mapping : Mapping)
    (name : String) : last? (entries ++ [(name', mapping)]) name =
      if normalize name = normalize name' then some mapping else last? entries name := by
  rw [last?, List.reverse_append, List.reverse_singleton, List.singleton_append, List.find?_cons]
  split_ifs with h
  · simp [h]
  · simp [Ne.symm h, last?]

theorem insertAll_concat (table : TypeTable) (entries : List (String × Mapping)) (name : String)
    (mapping : Mapping) : table.insertAll (entries ++ [(name, mapping)]) =
      (table.insertAll entries).insert name mapping :=
  insertAll_append table entries [(name, mapping)]

/-- **The last entry counts**, and where there is none, the table that was begun with. -/
theorem find?_insertAll (table : TypeTable) (entries : List (String × Mapping)) (name : String) :
    (table.insertAll entries).find? name = (last? entries name).or (table.find? name) := by
  induction entries using List.reverseRecOn with
  | nil => rfl
  | append_singleton entries entry ih =>
    obtain ⟨name', mapping⟩ := entry
    rw [insertAll_concat, find?_insert, last?_concat, ih]
    split_ifs <;> rfl

/-! ## Keys -/

/-- The names under which the entries of the table stand. -/
def keys (table : TypeTable) : List String := table.entries.map (·.1)

theorem mem_keys_insert {table : TypeTable} {name key : String} {mapping : Mapping} :
    key ∈ (table.insert name mapping).keys ↔ key ∈ table.keys ∨ key = normalize name := by
  have hkeys : (table.insert name mapping).keys =
      if normalize name ∈ table.keys then table.keys else table.keys ++ [normalize name] :=
    keys_put _ _ _
  rw [hkeys]
  split_ifs with h
  · refine ⟨.inl, ?_⟩
    rintro (hkey | rfl)
    · exact hkey
    · exact h
  · rw [List.mem_append, List.mem_singleton]

theorem mem_keys_insertAll {table : TypeTable} {entries : List (String × Mapping)} {key : String} :
    key ∈ (table.insertAll entries).keys ↔
      key ∈ table.keys ∨ key ∈ entries.map (normalize ·.1) := by
  induction entries using List.reverseRecOn with
  | nil => simp [insertAll]
  | append_singleton entries entry ih =>
    rw [insertAll_concat, mem_keys_insert, ih, List.map_append, List.mem_append, or_assoc]
    simp

/-- What stands in the table under a key is what is found there, since no other entry has the
key. -/
theorem mem_entries_iff {table : TypeTable} {key : String} {mapping : Mapping} :
    (key, mapping) ∈ table.entries ↔ table.entries.lookup key = some mapping := by
  rw [List.lookup_eq_some_iff]
  constructor
  · intro hmem
    obtain ⟨front, back, hentries⟩ := List.append_of_mem hmem
    have hnodup := table.nodup
    rw [hentries, List.map_append, List.nodup_append] at hnodup
    refine ⟨front, back, hentries, fun entry hentry => ?_⟩
    rw [bne_iff_ne]
    exact Ne.symm (hnodup.2.2 entry.1 (List.mem_map_of_mem hentry) key List.mem_cons_self)
  · rintro ⟨front, back, hentries, -⟩
    rw [hentries]
    exact List.mem_append_right front List.mem_cons_self

/-! ## Tables to begin with -/

/-- The tables to begin with. -/
inductive Base where
  /-- the table of a dialect without any types -/
  | empty (dialect : String)
  | oracle
  deriving DecidableEq, Repr

namespace Base

/-- The table itself. -/
def table : Base → TypeTable
  | empty dialect => .empty dialect
  | oracle => .oracle

/-- The types in it, under their normalized names. -/
def types : Base → List (String × Mapping)
  | empty _ => []
  | oracle => oracleTypes

theorem entries_table (base : Base) : base.table.entries = base.types := by
  cases base with
  | empty dialect => rfl
  | oracle => decide +kernel

theorem map_normalize_types (base : Base) :
    base.types.map (normalize ·.1) = base.types.map (·.1) := by
  cases base with
  | empty dialect => rfl
  | oracle => decide +kernel

end Base

/-! ## Main statement -/

/-- **A map from normalized names**: the table that began with `types` and into which `entries` were
put, one after the other. -/
structure Stores (types entries : List (String × Mapping)) (table : TypeTable) : Prop where
  /-- A type is what the last entry about it says; else what it was to begin with; else unknown. -/
  classify : ∀ name, table.classify name =
    match (last? entries name).or (types.lookup (normalize name)) with
    | some mapping => .ok mapping
    | none => .error (unknown name)
  contains : ∀ name, table.contains name = true ↔ ∃ mapping, table.classify name = .ok mapping
  /-- There are as many entries as there are normalized names. -/
  size : table.size = ((types ++ entries).map (normalize ·.1)).dedup.length
  isEmpty : table.isEmpty = true ↔ table.size = 0
  /-- Each normalized name is listed once, -/
  nodup : (table.entries.map (·.1)).Nodup
  /-- with what is known of the type, -/
  entries : ∀ key mapping, (key, mapping) ∈ table.entries ↔
    normalize key = key ∧ table.classify key = .ok mapping
  /-- and in the order of the names it is the same list. -/
  sorted : table.sorted.Perm table.entries

/-- What is found in a table that was begun with. -/
theorem find?_insertAll_base (base : Base) (entries : List (String × Mapping)) (name : String) :
    (base.table.insertAll entries).find? name =
      (last? entries name).or (base.types.lookup (normalize name)) := by
  rw [find?_insertAll, ← base.entries_table, find?]

/-- All keys are normalized names. -/
theorem mem_keys_insertAll_base {base : Base} {entries : List (String × Mapping)} {key : String} :
    key ∈ (base.table.insertAll entries).keys ↔
      key ∈ (base.types ++ entries).map (normalize ·.1) := by
  rw [mem_keys_insertAll, List.map_append, List.mem_append, base.map_normalize_types,
    ← base.entries_table, keys]

theorem normalize_of_mem_keys {base : Base} {entries : List (String × Mapping)} {key : String}
    (h : key ∈ (base.table.insertAll entries).keys) : normalize key = key := by
  obtain ⟨entry, -, rfl⟩ := List.mem_map.mp (mem_keys_insertAll_base.mp h)
  exact normalize_normalize entry.1

theorem classify_eq_ok_iff {table : TypeTable} {name : String} {mapping : Mapping} :
    table.classify name = .ok mapping ↔ table.find? name = some mapping := by
  rw [classify]
  cases table.find? name <;> simp

theorem contains_iff {table : TypeTable} {name : String} :
    table.contains name = true ↔ ∃ mapping, table.classify name = .ok mapping := by
  simp only [contains, classify_eq_ok_iff, Option.isSome_iff_exists]

theorem toOption_classify (table : TypeTable) (name : String) :
    (table.classify name).toOption = table.find? name := by
  rw [classify]
  cases table.find? name <;> rfl

theorem stores_insertAll_base (base : Base) (entries : List (String × Mapping)) :
    Stores base.types entries (base.table.insertAll entries) where
  classify name := by
    rw [TypeTable.classify, find?_insertAll_base]
    rfl
  contains _ := contains_iff
  size := by
    -- the keys and the distinct normalized names are the same names, each of them once
    have hkeys : (base.table.insertAll entries).keys.Perm
        ((base.types ++ entries).map (normalize ·.1)).dedup := by
      refine (List.perm_ext_iff_of_nodup (base.table.insertAll entries).nodup
        (List.nodup_dedup _)).mpr fun key => ?_
      rw [List.mem_dedup]
      exact mem_keys_insertAll_base
    rw [← hkeys.length_eq, keys, List.length_map, TypeTable.size]
  isEmpty := by rw [TypeTable.isEmpty, List.isEmpty_iff, TypeTable.size, List.length_eq_zero_iff]
  nodup := (base.table.insertAll entries).nodup
  entries key mapping := by
    rw [classify_eq_ok_iff, find?]
    constructor
    · intro hmem
      have hkey := normalize_of_mem_keys (List.mem_map_of_mem hmem)
      rw [hkey]
      exact ⟨rfl, mem_entries_iff.mp hmem⟩
    · rintro ⟨hkey, hlookup⟩
      rw [hkey] at hlookup
      exact mem_entries_iff.mpr hlookup
  sorted := List.mergeSort_perm _ _

/-- **The last entry about a type wins.** Whatever entries are put into a table to begin with, what
it says, counts and lists is what the map says in which each of them takes the place of those before
it that are about the same type; and to put in one more hands back what would have been found until
then. So it is for the types of a configuration, which are put over those of the Oracle dialect in
their order. -/
theorem stores_insertAll :
    (∀ (base : Base) (entries : List (String × Mapping)),
      let table := base.table.insertAll entries
      Stores base.types entries table ∧ ∀ name mapping, table.exchange name mapping =
        ((table.classify name).toOption, base.table.insertAll (entries ++ [(name, mapping)]))) ∧
    ∀ c : Config, Stores oracleTypes c.types c.typeTable := by
  refine ⟨fun base entries => ⟨stores_insertAll_base base entries, fun name mapping => ?_⟩,
    fun c => stores_insertAll_base .oracle c.types⟩
  rw [exchange_eq, toOption_classify, insertAll_concat]

/-- A type that was put in under two names, and one that was there to begin with. -/
example :
    let table := TypeTable.oracle.insertAll
      [("XmlType", ⟨"XML", .scalar⟩), (" xmltype (1) ", ⟨"CLOB", .largeObject⟩)]
    table.classify "XMLTYPE" = .ok ⟨"CLOB", .largeObject⟩ ∧ table.size = 22 ∧
      (table.exchange "Long  Raw" ⟨"BYTES", .scalar⟩).1 = some ⟨"LONG_BINARY", .scalar⟩ := by
  decide +kernel

end StoredRoutine.TypeTable
