import StoredRoutine.Document.Basic

/-!
# What can be read back

A `Datum` is whatever JSON or MessagePack can say, of which documents say a part: a document has
no numbers below zero, with a fraction or in floating point, no bare bytes and no extensions. A
reader of a format makes a datum of everything that is valid there.
-/

namespace StoredRoutine

/-- A tree of data, as a reader hands it out. -/
inductive Datum where
  | null
  | bool (b : Bool)
  | integer (n : Int)
  /-- a number written with a fraction or with an exponent: `coefficient * 10 ^ exponent` -/
  | decimal (coefficient exponent : Int)
  /-- a binary floating-point number, as its bits -/
  | binary (width bits : Nat)
  | string (s : String)
  | bytes (b : List UInt8)
  | extension (kind : Int) (content : List UInt8)
  | list (items : List Datum)
  | object (fields : List (String × Datum))
  deriving Repr

namespace Datum

/-! ## Objects -/

/-- The value of the first field of the name. -/
def field? (name : String) : Datum → Option Datum
  | .object fields => fields.lookup name
  | _ => none

/-! ## Simple values -/

/-- The string, if it is one. -/
def string? : Datum → Option String
  | .string s => some s
  | _ => none

/-- The truth value, if it is one. -/
def bool? : Datum → Option Bool
  | .bool b => some b
  | _ => none

/-- The number, if it is one and not below zero. -/
def nat? : Datum → Option Nat
  | .integer (.ofNat n) => some n
  | _ => none

/-- What is read from the items, if it is a list. -/
def list? {α : Type} (item : Datum → Option α) : Datum → Option (List α)
  | .list items => items.mapM item
  | _ => none

/-- What is read from the value, if there is one and not a null in its place. -/
def option? {α : Type} (value : Datum → Option α) : Datum → Option (Option α)
  | .null => some none
  | d => (value d).map some

/-! ## Names of fields -/

mutual

/-- For each object in the tree the names of its fields, in order. -/
def names : Datum → List (List String)
  | .list items => namesOfItems items
  | .object fields => fields.map (·.1) :: namesOfFields fields
  | _ => []

/-- For each object in the items the names of its fields. -/
def namesOfItems : List Datum → List (List String)
  | [] => []
  | item :: items => item.names ++ namesOfItems items

/-- For each object in the fields the names of its fields. -/
def namesOfFields : List (String × Datum) → List (List String)
  | [] => []
  | (_, value) :: fields => value.names ++ namesOfFields fields

end

theorem mem_namesOfItems {names : List String} :
    ∀ {items : List Datum}, names ∈ namesOfItems items ↔ ∃ item ∈ items, names ∈ item.names
  | [] => by simp [namesOfItems]
  | item :: items => by simp [namesOfItems, mem_namesOfItems]

theorem mem_namesOfFields {names : List String} : ∀ {fields : List (String × Datum)},
    names ∈ namesOfFields fields ↔ ∃ f ∈ fields, names ∈ f.2.names
  | [] => by simp [namesOfFields]
  | (name, value) :: fields => by simp [namesOfFields, mem_namesOfFields]

/-- No object has two fields of one name. -/
def Distinct (d : Datum) : Prop := ∀ names ∈ d.names, names.Nodup

theorem distinct_list {items : List Datum} :
    (list items).Distinct ↔ ∀ item ∈ items, item.Distinct := by
  simp only [Distinct, names, mem_namesOfItems]
  exact ⟨fun h item hitem names hn => h names ⟨item, hitem, hn⟩,
    fun h names ⟨item, hitem, hn⟩ => h item hitem names hn⟩

theorem distinct_object {fields : List (String × Datum)} :
    (object fields).Distinct ↔ (fields.map (·.1)).Nodup ∧ ∀ f ∈ fields, f.2.Distinct := by
  simp only [Distinct, names, List.forall_mem_cons, mem_namesOfFields]
  exact and_congr_right fun _ => ⟨fun h f hf names hn => h names ⟨f, hf, hn⟩,
    fun h names ⟨f, hf, hn⟩ => h f hf names hn⟩

end Datum

namespace Document

/-! ## Documents among them -/

mutual

/-- What a document says. -/
def datum : Document → Datum
  | .null => .null
  | .bool b => .bool b
  | .nat n => .integer n
  | .string s => .string s
  | .list items => .list (datumOfItems items)
  | .object fields => .object (datumOfFields fields)

/-- What the items of a list say. -/
def datumOfItems : List Document → List Datum
  | [] => []
  | item :: items => item.datum :: datumOfItems items

/-- What the fields of an object say. -/
def datumOfFields : List (String × Document) → List (String × Datum)
  | [] => []
  | (name, value) :: fields => (name, value.datum) :: datumOfFields fields

end

theorem datumOfItems_eq_map : ∀ items : List Document, datumOfItems items = items.map datum
  | [] => rfl
  | item :: items => by rw [datumOfItems, datumOfItems_eq_map items, List.map_cons]

theorem datumOfFields_eq_map :
    ∀ fields : List (String × Document), datumOfFields fields = fields.map fun f => (f.1, f.2.datum)
  | [] => rfl
  | (name, value) :: fields => by rw [datumOfFields, datumOfFields_eq_map fields, List.map_cons]

/-! ## What is read from documents -/

/-- A field is found by its name, behind fields of other names. -/
theorem field?_datum (wanted name : String) (value : Document) (fields : List (String × Document)) :
    (Document.object ((name, value) :: fields)).datum.field? wanted
      = if wanted = name then some value.datum
        else (Document.object fields).datum.field? wanted := by
  by_cases h : wanted = name
  · simp [datum, datumOfFields, Datum.field?, h]
  · simp [datum, datumOfFields, Datum.field?, h, List.lookup_cons, beq_eq_false_iff_ne.2 h]

@[simp]
theorem string?_datum (s : String) : (Document.string s).datum.string? = some s := rfl

@[simp]
theorem bool?_datum (b : Bool) : (Document.bool b).datum.bool? = some b := rfl

@[simp]
theorem nat?_datum (n : Nat) : (Document.nat n).datum.nat? = some n := rfl

theorem list?_datum {α : Type} {item : Datum → Option α} {document : α → Document} (xs : List α)
    (read : ∀ x ∈ xs, item (document x).datum = some x) :
    (Document.list (xs.map document)).datum.list? item = some xs := by
  rw [datum, datumOfItems_eq_map, Datum.list?]
  induction xs with
  | nil => rfl
  | cons x xs ih =>
    obtain ⟨first, others⟩ := List.forall_mem_cons.1 read
    simp only [List.map_cons, List.mapM_cons, first, ih others]
    rfl

/-- A value is told from the null in its place by not being null itself. -/
theorem option?_datum {α : Type} {value : Datum → Option α} {document : α → Document}
    (x : Option α) (null : value .null = none)
    (read : ∀ a, value (document a).datum = some a) :
    (ofOption document x).datum.option? value = some x := by
  cases x with
  | none => rfl
  | some a =>
    have present := read a
    simp only [ofOption]
    cases said : (document a).datum with
    | null => simp [said, null] at present
    | _ => simp_all [Datum.option?]

/-! ## Names in documents -/

@[simp]
theorem distinct_null : Document.null.datum.Distinct := nofun

@[simp]
theorem distinct_bool (b : Bool) : (Document.bool b).datum.Distinct := nofun

@[simp]
theorem distinct_nat (n : Nat) : (Document.nat n).datum.Distinct := nofun

@[simp]
theorem distinct_string (s : String) : (Document.string s).datum.Distinct := nofun

@[simp]
theorem distinct_list {items : List Document} :
    (Document.list items).datum.Distinct ↔ ∀ item ∈ items, item.datum.Distinct := by
  rw [datum, datumOfItems_eq_map, Datum.distinct_list, List.forall_mem_map]

@[simp]
theorem distinct_object {fields : List (String × Document)} :
    (Document.object fields).datum.Distinct ↔
      (fields.map (·.1)).Nodup ∧ ∀ f ∈ fields, f.2.datum.Distinct := by
  rw [datum, datumOfFields_eq_map, Datum.distinct_object, List.forall_mem_map, List.map_map]
  rfl

theorem distinct_ofOption {α : Type} {document : α → Document}
    (each : ∀ a, (document a).datum.Distinct) (x : Option α) :
    (ofOption document x).datum.Distinct := by
  cases x with
  | none => exact distinct_null
  | some a => exact each a

/-! ## Sizes -/

mutual

/-- Every size in the tree: the numbers in it, the number of bytes in each string, of items in
each list, and of fields in each object. -/
def sizes : Document → List Nat
  | .null => []
  | .bool _ => []
  | .nat n => [n]
  | .string s => [(utf8 s).length]
  | .list items => items.length :: sizesOfItems items
  | .object fields => fields.length :: sizesOfFields fields

/-- Every size in the items of a list. -/
def sizesOfItems : List Document → List Nat
  | [] => []
  | item :: items => item.sizes ++ sizesOfItems items

/-- Every size in the fields of an object. -/
def sizesOfFields : List (String × Document) → List Nat
  | [] => []
  | (name, value) :: fields => (utf8 name).length :: value.sizes ++ sizesOfFields fields

end

/-- Every size in the tree is below `2 ^ 32`. -/
def Fits (d : Document) : Prop := ∀ n ∈ d.sizes, n < 0x100000000

theorem mem_sizesOfItems {n : Nat} :
    ∀ {items : List Document}, n ∈ sizesOfItems items ↔ ∃ item ∈ items, n ∈ item.sizes
  | [] => by simp [sizesOfItems]
  | item :: items => by simp [sizesOfItems, mem_sizesOfItems]

theorem mem_sizesOfFields {n : Nat} : ∀ {fields : List (String × Document)},
    n ∈ sizesOfFields fields ↔
      ∃ f ∈ fields, n = (utf8 f.1).length ∨ n ∈ f.2.sizes
  | [] => by simp [sizesOfFields]
  | (name, value) :: fields => by simp [sizesOfFields, mem_sizesOfFields, or_assoc]

theorem fits_list {items : List Document} :
    (Document.list items).Fits ↔ items.length < 0x100000000 ∧ ∀ item ∈ items, item.Fits := by
  simp only [Fits, sizes, List.forall_mem_cons, mem_sizesOfItems]
  exact and_congr_right fun _ =>
    ⟨fun h item hitem n hn => h n ⟨item, hitem, hn⟩, fun h n ⟨item, hitem, hn⟩ => h item hitem n hn⟩

/-- An object fits if it has few enough fields, and their names and values fit. -/
theorem fits_object {fields : List (String × Document)} :
    (Document.object fields).Fits ↔
      fields.length < 0x100000000 ∧ ∀ f ∈ fields, (Document.string f.1).Fits ∧ f.2.Fits := by
  simp only [Fits, sizes, List.forall_mem_cons, mem_sizesOfFields]
  refine and_congr_right fun _ => ⟨fun h f hf => ⟨?_, fun n hn => h n ⟨f, hf, .inr hn⟩⟩, ?_⟩
  · simpa using h _ ⟨f, hf, .inl rfl⟩
  · rintro h n ⟨f, hf, rfl | hn⟩
    · simpa using (h f hf).1
    · exact (h f hf).2 n hn

instance (d : Document) : Decidable d.Fits := inferInstanceAs (Decidable (∀ n ∈ d.sizes, _))

/-! ## Texts as bytes -/

theorem utf8_eq_toByteArray (s : String) : (utf8 s).toByteArray = s.toByteArray := by
  rw [← String.utf8Encode_toList]
  rfl

/-- The bytes of a text are read as that text. -/
theorem fromUTF8?_utf8 (s : String) : String.fromUTF8? (utf8 s).toByteArray = some s := by
  rw [utf8_eq_toByteArray, String.fromUTF8?, dif_pos s.isValidUTF8]
  rfl

end Document

end StoredRoutine
