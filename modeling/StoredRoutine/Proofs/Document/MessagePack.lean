import Mathlib.Tactic.Ring
import StoredRoutine.Document.MessagePack
import StoredRoutine.Proofs.Document.Datum
import StoredRoutine.Proofs.Toml.Reader

/-!
# Reading MessagePack

A reader for all encodings of MessagePack, in every width, with numbers below zero, floating-point
numbers, bare bytes and extensions. Only maps whose keys are strings are read, and no byte may be
left over at the end.

What is written of a document is read as that document, if its sizes have an encoding at all
(`decode?_encode`).
-/

namespace StoredRoutine.Datum.MessagePack

open Toml.Reader

/-- Takes something off the front of bytes. -/
abbrev Reader := StateT (List UInt8) Option

/-! ## Numbers, texts and bytes -/

/-- Takes a byte, and gives its value. -/
def byte : Reader Nat := fun
  | [] => none
  | b :: rest => some (b.toNat, rest)

/-- Takes a given number of bytes. -/
def taking (size : Nat) : Reader (List UInt8) := fun s =>
  if size ≤ s.length then some (s.take size, s.drop size) else none

/-- Takes a number without a sign, the most significant byte first. -/
def natural (size : Nat) : Reader Nat := do
  return (← taking size).foldl (fun n b => 256 * n + b.toNat) 0

/-- Takes a number with a sign, in two's complement. -/
def integer (size : Nat) : Reader Int := do
  let n ← natural size
  return if n < 256 ^ size / 2 then n else n - 256 ^ size

/-- Takes a text of a given number of bytes. -/
def text (size : Nat) : Reader Datum := do
  match String.fromUTF8? (← taking size).toByteArray with
  | some s => return .string s
  | none => failure

/-- Takes an extension of a given number of bytes, and what kind it is of. -/
def extension (size : Nat) : Reader Datum := do
  let kind ← integer 1
  return .extension kind (← taking size)

/-! ## Values -/

/-- Takes what a reader takes a given number of times. -/
def repeated {α : Type} (r : Reader α) : Nat → Reader (List α)
  | 0 => return []
  | count + 1 => do
    let first ← r
    return first :: (← repeated r count)

/-- Takes a key, which has to be a string, and its value. -/
def field (value : Reader Datum) : Reader (String × Datum) := do
  match ← value with
  | .string name => return (name, ← value)
  | _ => failure

/-- Takes the items of a list. -/
def list (value : Reader Datum) (size : Nat) : Reader Datum := do
  return .list (← repeated value size)

/-- Takes the fields of an object. -/
def object (value : Reader Datum) (size : Nat) : Reader Datum := do
  return .object (← repeated (field value) size)

/-- Takes the rest of a value whose first byte says only of what kind it is. -/
def wide (value : Reader Datum) : Nat → Reader Datum
  | 0xc0 => return .null
  | 0xc2 => return .bool false
  | 0xc3 => return .bool true
  | 0xc4 => return .bytes (← taking (← natural 1))
  | 0xc5 => return .bytes (← taking (← natural 2))
  | 0xc6 => return .bytes (← taking (← natural 4))
  | 0xc7 => natural 1 >>= extension
  | 0xc8 => natural 2 >>= extension
  | 0xc9 => natural 4 >>= extension
  | 0xca => return .binary 32 (← natural 4)
  | 0xcb => return .binary 64 (← natural 8)
  | 0xcc => return .integer (← natural 1)
  | 0xcd => return .integer (← natural 2)
  | 0xce => return .integer (← natural 4)
  | 0xcf => return .integer (← natural 8)
  | 0xd0 => return .integer (← integer 1)
  | 0xd1 => return .integer (← integer 2)
  | 0xd2 => return .integer (← integer 4)
  | 0xd3 => return .integer (← integer 8)
  | 0xd4 => extension 1
  | 0xd5 => extension 2
  | 0xd6 => extension 4
  | 0xd7 => extension 8
  | 0xd8 => extension 16
  | 0xd9 => natural 1 >>= text
  | 0xda => natural 2 >>= text
  | 0xdb => natural 4 >>= text
  | 0xdc => natural 2 >>= list value
  | 0xdd => natural 4 >>= list value
  | 0xde => natural 2 >>= object value
  | 0xdf => natural 4 >>= object value
  | _ => failure

/-- Takes the rest of a value, given its first byte and how to take what is in it. Small numbers
and sizes are in the first byte itself. -/
def content (value : Reader Datum) (first : Nat) : Reader Datum :=
  if first < 0x80 then return .integer first
  else if first < 0x90 then object value (first - 0x80)
  else if first < 0xa0 then list value (first - 0x90)
  else if first < 0xc0 then text (first - 0xa0)
  else if first < 0xe0 then wide value first
  else return .integer (first - 0x100)

/-- Takes a value in which fewer than `levels` lists and objects are open at any time. -/
def value : Nat → Reader Datum
  | 0 => failure
  | levels + 1 => byte >>= content (value levels)

/-- The datum that bytes say, or nothing if they are not valid. No more lists and objects can be
open at any time than there are bytes. -/
def decode? (bytes : List UInt8) : Option Datum :=
  match value bytes.length bytes with
  | some (d, []) => some d
  | _ => none

/-! ## Numbers are read back -/

open Document (utf8)
open Document.MessagePack (bigEndian encode)

variable {levels : Nat} {rest : List UInt8}

theorem taking_append (front rest : List UInt8) :
    taking front.length (front ++ rest) = some (front, rest) := by
  simp [taking]

theorem bigEndian_zero (n : Nat) : bigEndian 0 n = [] := rfl

theorem bigEndian_succ (count n : Nat) :
    bigEndian (count + 1) n = UInt8.ofNat (n / 256 ^ count % 256) :: bigEndian count n := rfl

theorem length_bigEndian (count n : Nat) : (bigEndian count n).length = count := by
  induction count with
  | zero => rfl
  | succ count ih => rw [bigEndian_succ, List.length_cons, ih]

theorem foldl_bigEndian (count n start : Nat) :
    (bigEndian count n).foldl (fun n b => 256 * n + b.toNat) start
      = start * 256 ^ count + n % 256 ^ count := by
  induction count generalizing start with
  | zero => simp [bigEndian_zero, Nat.mod_one]
  | succ count ih =>
    have digit : (UInt8.ofNat (n / 256 ^ count % 256)).toNat = n / 256 ^ count % 256 :=
      UInt8.toNat_ofNat_of_lt' (Nat.mod_lt _ (by decide))
    have split : n % 256 ^ (count + 1) = n % 256 ^ count + 256 ^ count * (n / 256 ^ count % 256) :=
      Nat.mod_pow_succ
    rw [bigEndian_succ, List.foldl_cons, ih, digit, split, Nat.pow_succ]
    ring

/-- A number is read from its bytes. -/
theorem natural_bigEndian (count : Nat) {n : Nat} (h : n < 256 ^ count) (rest : List UInt8) :
    natural count (bigEndian count n ++ rest) = some (n, rest) := by
  have taken := taking_append (bigEndian count n) rest
  rw [length_bigEndian] at taken
  rw [natural, run_bind _ taken, run_pure, foldl_bigEndian, Nat.mod_eq_of_lt h, Nat.zero_mul,
    Nat.zero_add]

/-- A text is read from its bytes. -/
theorem text_utf8 (s : String) (rest : List UInt8) :
    text (utf8 s).length (utf8 s ++ rest) = some (.string s, rest) := by
  rw [text, run_bind _ (taking_append _ _), Document.fromUTF8?_utf8]
  rfl

/-! ## First bytes -/

theorem value_cons (levels : Nat) (b : UInt8) (s : List UInt8) :
    value (levels + 1) (b :: s) = content (value levels) b.toNat s := rfl

theorem value_ofNat {n : Nat} (h : n < 0x100) (levels : Nat) (s : List UInt8) :
    value (levels + 1) (UInt8.ofNat n :: s) = content (value levels) n s := by
  rw [value_cons, UInt8.toNat_ofNat_of_lt' h]

theorem value_wide {b : UInt8} (low : 0xc0 ≤ b.toNat) (high : b.toNat < 0xe0) (levels : Nat)
    (s : List UInt8) : value (levels + 1) (b :: s) = wide (value levels) b.toNat s := by
  rw [value_cons, content, if_neg (by omega), if_neg (by omega), if_neg (by omega),
    if_neg (by omega), if_pos high]

theorem value_natural {n : Nat} (h : n < 0x100000000) (rest : List UInt8) :
    value (levels + 1) (Document.MessagePack.natural n ++ rest) = some (.integer n, rest) := by
  unfold Document.MessagePack.natural
  split_ifs with h₁ h₂ h₃
  · rw [List.cons_append, value_ofNat (by omega), content, if_pos h₁]
    rfl
  · exact (value_wide (b := 0xcc) (by decide) (by decide) _ _).trans
      (run_bind _ (natural_bigEndian 1 (by omega) rest))
  · exact (value_wide (b := 0xcd) (by decide) (by decide) _ _).trans
      (run_bind _ (natural_bigEndian 2 (by omega) rest))
  · exact (value_wide (b := 0xce) (by decide) (by decide) _ _).trans
      (run_bind _ (natural_bigEndian 4 (by omega) rest))

theorem value_stringHeader {size : Nat} (h : size < 0x100000000) (s : List UInt8) :
    value (levels + 1) (Document.MessagePack.stringHeader size ++ s) = text size s := by
  unfold Document.MessagePack.stringHeader
  split_ifs with h₁ h₂ h₃
  · rw [List.cons_append, value_ofNat (by omega), content, if_neg (by omega), if_neg (by omega),
      if_neg (by omega), if_pos (by omega), Nat.add_sub_cancel_left]
    rfl
  · exact (value_wide (b := 0xd9) (by decide) (by decide) _ _).trans
      (run_bind _ (natural_bigEndian 1 (by omega) s))
  · exact (value_wide (b := 0xda) (by decide) (by decide) _ _).trans
      (run_bind _ (natural_bigEndian 2 (by omega) s))
  · exact (value_wide (b := 0xdb) (by decide) (by decide) _ _).trans
      (run_bind _ (natural_bigEndian 4 (by omega) s))

theorem value_listHeader {size : Nat} (h : size < 0x100000000) (s : List UInt8) :
    value (levels + 1) (Document.MessagePack.listHeader size ++ s)
      = list (value levels) size s := by
  unfold Document.MessagePack.listHeader
  split_ifs with h₁ h₂
  · rw [List.cons_append, value_ofNat (by omega), content, if_neg (by omega), if_neg (by omega),
      if_pos (by omega), Nat.add_sub_cancel_left]
    rfl
  · exact (value_wide (b := 0xdc) (by decide) (by decide) _ _).trans
      (run_bind _ (natural_bigEndian 2 (by omega) s))
  · exact (value_wide (b := 0xdd) (by decide) (by decide) _ _).trans
      (run_bind _ (natural_bigEndian 4 (by omega) s))

theorem value_objectHeader {size : Nat} (h : size < 0x100000000) (s : List UInt8) :
    value (levels + 1) (Document.MessagePack.objectHeader size ++ s)
      = object (value levels) size s := by
  unfold Document.MessagePack.objectHeader
  split_ifs with h₁ h₂
  · rw [List.cons_append, value_ofNat (by omega), content, if_neg (by omega), if_pos (by omega),
      Nat.add_sub_cancel_left]
    rfl
  · exact (value_wide (b := 0xde) (by decide) (by decide) _ _).trans
      (run_bind _ (natural_bigEndian 2 (by omega) s))
  · exact (value_wide (b := 0xdf) (by decide) (by decide) _ _).trans
      (run_bind _ (natural_bigEndian 4 (by omega) s))

/-! ## Values are read back -/

theorem encodeItems_eq_flatMap : ∀ items : List Document,
    Document.MessagePack.encodeItems items = items.flatMap encode
  | [] => rfl
  | item :: items => by
    rw [Document.MessagePack.encodeItems, encodeItems_eq_flatMap items, List.flatMap_cons]

theorem encodeFields_eq_flatMap : ∀ fields : List (String × Document),
    Document.MessagePack.encodeFields fields
      = fields.flatMap fun f => encode (.string f.1) ++ encode f.2
  | [] => rfl
  | (name, value) :: fields => by
    rw [Document.MessagePack.encodeFields, encodeFields_eq_flatMap fields, List.flatMap_cons]
    rfl

/-- Parts that are read one by one are read from their bytes one after the other. -/
theorem repeated_flatMap {α β : Type} {r : Reader α} {written : β → List UInt8} (value : β → α)
    (xs : List β) (each : ∀ x ∈ xs, ∀ rest, r (written x ++ rest) = some (value x, rest))
    (rest : List UInt8) :
    repeated r xs.length (xs.flatMap written ++ rest) = some (xs.map value, rest) := by
  induction xs with
  | nil => rfl
  | cons x xs ih =>
    rw [List.flatMap_cons, List.append_assoc, List.length_cons, repeated,
      run_bind _ (each x List.mem_cons_self _),
      run_bind _ (ih fun y hy => each y (List.mem_cons_of_mem _ hy))]
    rfl

theorem length_listHeader_pos (size : Nat) :
    0 < (Document.MessagePack.listHeader size).length := by
  rw [Document.MessagePack.listHeader]
  split_ifs <;> simp

theorem length_objectHeader_pos (size : Nat) :
    0 < (Document.MessagePack.objectHeader size).length := by
  rw [Document.MessagePack.objectHeader]
  split_ifs <;> simp

theorem length_encode_pos (d : Document) : 0 < (encode d).length := by
  cases d with
  | null => decide
  | bool b => cases b <;> decide
  | nat n =>
    rw [encode, Document.MessagePack.natural]
    split_ifs <;> simp
  | string s =>
    rw [encode, Document.MessagePack.string, Document.MessagePack.stringHeader]
    split_ifs <;> simp
  | list items =>
    rw [encode, List.length_append]
    exact Nat.add_pos_left (length_listHeader_pos _) _
  | object fields =>
    rw [encode, List.length_append]
    exact Nat.add_pos_left (length_objectHeader_pos _) _

theorem length_le_length_flatMap {α : Type} (written : α → List UInt8) {x : α} {xs : List α}
    (h : x ∈ xs) : (written x).length ≤ (xs.flatMap written).length :=
  (List.sublist_flatten_of_mem (List.mem_map_of_mem h)).length_le

/-- A value is read from the bytes it is encoded in, whatever follows them. The induction is on
the lists and objects that may still be opened, of which each part needs less. -/
theorem value_encode (levels : Nat) : ∀ (d : Document) (rest : List UInt8),
    (encode d).length ≤ levels → d.Fits →
      value levels (encode d ++ rest) = some (d.datum, rest) := by
  induction levels with
  | zero =>
    intro d rest enough
    exact absurd (length_encode_pos d) (Nat.not_lt.2 enough)
  | succ levels ih =>
    intro d rest enough fits
    cases d with
    | null => rfl
    | bool b => cases b <;> rfl
    | nat n => exact value_natural (fits n (by simp [Document.sizes])) rest
    | string s =>
      rw [encode, Document.MessagePack.string, List.append_assoc,
        value_stringHeader (fits _ (by simp [Document.sizes])), text_utf8]
      rfl
    | list items =>
      obtain ⟨few, each⟩ := Document.fits_list.1 fits
      have header := length_listHeader_pos items.length
      rw [encode, encodeItems_eq_flatMap] at enough ⊢
      rw [List.length_append] at enough
      rw [List.append_assoc, value_listHeader few, list,
        run_bind _ (repeated_flatMap Document.datum items (fun item hitem rest => ?_) rest),
        run_pure, Document.datum, Document.datumOfItems_eq_map]
      have := length_le_length_flatMap encode hitem
      exact ih item rest (by omega) (each item hitem)
    | object fields =>
      obtain ⟨few, each⟩ := Document.fits_object.1 fits
      have header := length_objectHeader_pos fields.length
      rw [encode, encodeFields_eq_flatMap] at enough ⊢
      rw [List.length_append] at enough
      rw [List.append_assoc, value_objectHeader few, object,
        run_bind _ (repeated_flatMap (fun f => (f.1, f.2.datum)) fields
          (fun f hf rest => ?_) rest),
        run_pure, Document.datum, Document.datumOfFields_eq_map]
      obtain ⟨name, inside⟩ := each f hf
      have size := length_le_length_flatMap
        (fun f : String × Document => encode (.string f.1) ++ encode f.2) hf
      simp only [List.length_append] at size
      rw [List.append_assoc, field, run_bind _ (ih (.string f.1) _ (by omega) name)]
      exact run_bind _ (ih f.2 rest (by omega) inside)

/-- The bytes of a document say what the document says, and no byte is left over. -/
theorem decode?_encode {d : Document} (fits : d.Fits) : decode? (encode d) = some d.datum := by
  have read := value_encode (encode d).length d [] le_rfl fits
  rw [List.append_nil] at read
  rw [decode?, read]

end StoredRoutine.Datum.MessagePack
