import StoredRoutine.Error
import StoredRoutine.Text.LowerCase
import StoredRoutine.Text.Blank

/-!
# Type tables

A `TypeTable` says of each data type it knows which token a driver allocates a placeholder with,
and to which family the type belongs. It is asked by the names that declarations use, and many
spellings name one type: letter case, blanks, and a precision, scale or length in parentheses do
not matter. Entries are therefore kept and looked up by `normalize`d names, and for each of
those the entry that was inserted last counts.

There is no family for types that are not in the table: `classify` refuses them.
-/

namespace StoredRoutine

/-- What is known of a data type. -/
structure Mapping where
  /-- What a driver allocates a placeholder of the type with. -/
  token : String
  family : Family
  deriving DecidableEq, Repr

namespace TypeTable

/-! ## Names of types -/

/-- The characters outside parentheses, where `depth` groups are open. A closing parenthesis
without a partner is dropped and changes nothing else. -/
def outsideParentheses (depth : Nat) : List Char → List Char
  | [] => []
  | c :: rest =>
    if c = '(' then outsideParentheses (depth + 1) rest
    else if c = ')' then outsideParentheses (depth - 1) rest
    else if depth = 0 then c :: outsideParentheses depth rest
    else outsideParentheses depth rest

/-- A type's name in the form by which it is known: without what stands in parentheses, with
single spaces between its words, in small letters. -/
def normalizeChars (name : List Char) : List Char :=
  Text.lower ([' '].intercalate (Text.blankWords (outsideParentheses 0 name)))

/-- The name by which a type is known, whichever way it is written. -/
def normalize (name : String) : String := String.ofList (normalizeChars name.toList)

/-! ## Entries -/

/-- The entries with the one under `key` put in: in place of the one it had, or at the end. -/
def put (key : String) (mapping : Mapping) : List (String × Mapping) → List (String × Mapping)
  | [] => [(key, mapping)]
  | (k, m) :: rest => if k = key then (key, mapping) :: rest else (k, m) :: put key mapping rest

/-- The keys stay, and a new one comes last. -/
theorem keys_put (key : String) (mapping : Mapping) (entries : List (String × Mapping)) :
    (put key mapping entries).map (·.1) =
      if key ∈ entries.map (·.1) then entries.map (·.1) else entries.map (·.1) ++ [key] := by
  induction entries with
  | nil => simp [put]
  | cons entry rest ih =>
    obtain ⟨k, m⟩ := entry
    by_cases hk : k = key
    · simp [put, hk]
    · simp only [put, hk, if_false, List.map_cons, ih, List.mem_cons, Ne.symm hk, false_or]
      split <;> simp

theorem nodup_keys_put {key : String} {mapping : Mapping} {entries : List (String × Mapping)}
    (h : (entries.map (·.1)).Nodup) : ((put key mapping entries).map (·.1)).Nodup := by
  rw [keys_put]
  split
  · exact h
  · next hk =>
    rw [List.nodup_append]
    exact ⟨h, by simp, by rintro a ha b hb rfl; exact hk (List.mem_singleton.1 hb ▸ ha)⟩

/-- What the entry under `key` says. -/
@[simp] theorem lookup_put_self (key : String) (mapping : Mapping)
    (entries : List (String × Mapping)) : (put key mapping entries).lookup key = some mapping := by
  induction entries with
  | nil => simp [put]
  | cons entry rest ih =>
    obtain ⟨k, m⟩ := entry
    by_cases hk : k = key
    · simp [put, hk]
    · simp [put, hk, List.lookup_cons, beq_false_of_ne (Ne.symm hk), ih]

/-- The other entries stay as they are. -/
theorem lookup_put_of_ne {key other : String} (h : other ≠ key) (mapping : Mapping)
    (entries : List (String × Mapping)) :
    (put key mapping entries).lookup other = entries.lookup other := by
  induction entries with
  | nil => simp [put, List.lookup_cons, beq_false_of_ne h]
  | cons entry rest ih =>
    obtain ⟨k, m⟩ := entry
    by_cases hk : k = key
    · subst hk
      simp [put, List.lookup_cons, beq_false_of_ne h]
    · simp only [put, hk, if_false, List.lookup_cons, ih]

/-- The entries with the one under `key` put in, and what the one said whose place it takes. -/
def swap (key : String) (mapping : Mapping) :
    List (String × Mapping) → Option Mapping × List (String × Mapping)
  | [] => (none, [(key, mapping)])
  | (k, m) :: rest =>
    if k = key then (some m, (key, mapping) :: rest)
    else
      let (previous, others) := swap key mapping rest
      (previous, (k, m) :: others)

/-- What was said under the key is met on the way to where the entry is put. -/
theorem swap_eq (key : String) (mapping : Mapping) (entries : List (String × Mapping)) :
    swap key mapping entries = (entries.lookup key, put key mapping entries) := by
  induction entries with
  | nil => rfl
  | cons entry rest ih =>
    obtain ⟨k, m⟩ := entry
    by_cases hk : k = key
    · simp [swap, put, hk]
    · simp [swap, put, hk, List.lookup_cons, beq_false_of_ne (Ne.symm hk), ih]

theorem nodup_keys_swap {key : String} {mapping : Mapping} {entries : List (String × Mapping)}
    (h : (entries.map (·.1)).Nodup) : ((swap key mapping entries).2.map (·.1)).Nodup := by
  rw [swap_eq]
  exact nodup_keys_put h

end TypeTable

/-! ## Tables -/

/-- A table of data types: the name of the dialect it describes, and its entries, of which no two
are under one name. -/
structure TypeTable where
  dialect : String
  entries : List (String × Mapping)
  nodup : (entries.map (·.1)).Nodup

namespace TypeTable

/-- The table of a dialect without any types. -/
def empty (dialect : String) : TypeTable := ⟨dialect, [], List.nodup_nil⟩

/-- The entry for a type, whichever way its name is written. -/
def find? (table : TypeTable) (name : String) : Option Mapping :=
  table.entries.lookup (normalize name)

/-- The table with the entry for a type put in, in place of the one it had. -/
def insert (table : TypeTable) (name : String) (mapping : Mapping) : TypeTable where
  dialect := table.dialect
  entries := put (normalize name) mapping table.entries
  nodup := nodup_keys_put table.nodup

/-- Puts the entry for a type into the table, and hands back what the one said whose place it
takes. -/
def exchange (table : TypeTable) (name : String) (mapping : Mapping) :
    Option Mapping × TypeTable :=
  let swapped := swap (normalize name) mapping table.entries
  (swapped.1, ⟨table.dialect, swapped.2, nodup_keys_swap table.nodup⟩)

theorem exchange_eq (table : TypeTable) (name : String) (mapping : Mapping) :
    table.exchange name mapping = (table.find? name, table.insert name mapping) := by
  simp only [exchange, swap_eq, find?, insert]

/-- The entries put into the table one after the other. -/
def insertAll (table : TypeTable) (entries : List (String × Mapping)) : TypeTable :=
  entries.foldl (fun t (name, mapping) => t.insert name mapping) table

/-- What is known of a type. The name of one that is not in the table is reported as it is
written, but for blanks around it. -/
def classify (table : TypeTable) (name : String) : Except Error Mapping :=
  match table.find? name with
  | some mapping => .ok mapping
  | none => .error (.ofCause (.unknownDataType (String.ofList (Text.trim name.toList))))

/-- Is the type in the table? -/
def contains (table : TypeTable) (name : String) : Bool := (table.find? name).isSome

/-- The number of types in the table. -/
def size (table : TypeTable) : Nat := table.entries.length

/-- Is the table without types? -/
def isEmpty (table : TypeTable) : Bool := table.entries.isEmpty

/-- The entries in the order of their names. -/
def sorted (table : TypeTable) : List (String × Mapping) :=
  table.entries.mergeSort fun a b => a.1 ≤ b.1

/-! ## The Oracle dialect -/

/-- The data types of the Oracle dialect. -/
def oracleTypes : List (String × Mapping) :=
  let scalar (name token : String) : String × Mapping := (name, ⟨token, .scalar⟩)
  let largeObject (name token : String) : String × Mapping := (name, ⟨token, .largeObject⟩)
  [ scalar "number" "NUMBER", scalar "integer" "NUMBER", scalar "pls_integer" "NUMBER",
    scalar "binary_integer" "NUMBER", scalar "float" "NUMBER",
    scalar "char" "FIXED_CHAR", scalar "nchar" "FIXED_UNICODE",
    scalar "varchar2" "STRING", scalar "varchar" "STRING", scalar "nvarchar2" "UNICODE",
    scalar "date" "DATETIME", scalar "timestamp" "TIMESTAMP",
    scalar "rowid" "ROWID", scalar "raw" "BINARY",
    scalar "long raw" "LONG_BINARY", scalar "long row" "LONG_BINARY",
    scalar "bfile" "BFILE",
    largeObject "blob" "BLOB", largeObject "clob" "CLOB", largeObject "nclob" "NCLOB",
    ("sys_refcursor", ⟨"CURSOR", .cursor⟩) ]

/-- The table of the Oracle dialect. -/
def oracle : TypeTable := (empty "oracle").insertAll oracleTypes

end TypeTable

end StoredRoutine
