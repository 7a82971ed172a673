import StoredRoutine.Document.Basic

/-!
# Documents in MessagePack

Every value is written in the smallest of its encodings; objects are written as maps from the
names of their fields.
-/

namespace StoredRoutine.Document.MessagePack

/-- A number in `count` bytes, the most significant first. -/
def bigEndian : Nat → Nat → List UInt8
  | 0, _ => []
  | count + 1, n => UInt8.ofNat (n / 256 ^ count % 256) :: bigEndian count n

/-- A number. -/
def natural (n : Nat) : List UInt8 :=
  if n < 0x80 then [UInt8.ofNat n]
  else if n < 0x100 then 0xcc :: bigEndian 1 n
  else if n < 0x10000 then 0xcd :: bigEndian 2 n
  else if n < 0x100000000 then 0xce :: bigEndian 4 n
  else 0xcf :: bigEndian 8 n

/-- What stands in front of the bytes of a string. -/
def stringHeader (size : Nat) : List UInt8 :=
  if size < 32 then [UInt8.ofNat (0xa0 + size)]
  else if size < 0x100 then 0xd9 :: bigEndian 1 size
  else if size < 0x10000 then 0xda :: bigEndian 2 size
  else 0xdb :: bigEndian 4 size

/-- What stands in front of the items of a list. -/
def listHeader (size : Nat) : List UInt8 :=
  if size < 16 then [UInt8.ofNat (0x90 + size)]
  else if size < 0x10000 then 0xdc :: bigEndian 2 size
  else 0xdd :: bigEndian 4 size

/-- What stands in front of the fields of an object. -/
def objectHeader (size : Nat) : List UInt8 :=
  if size < 16 then [UInt8.ofNat (0x80 + size)]
  else if size < 0x10000 then 0xde :: bigEndian 2 size
  else 0xdf :: bigEndian 4 size

/-- A string. -/
def string (s : String) : List UInt8 := stringHeader (utf8 s).length ++ utf8 s

mutual

/-- A tree. -/
def encode : Document → List UInt8
  | .null => [0xc0]
  | .bool false => [0xc2]
  | .bool true => [0xc3]
  | .nat n => natural n
  | .string s => string s
  | .list items => listHeader items.length ++ encodeItems items
  | .object fields => objectHeader fields.length ++ encodeFields fields

/-- The items of a list, one after the other. -/
def encodeItems : List Document → List UInt8
  | [] => []
  | item :: items => encode item ++ encodeItems items

/-- The fields of an object, each with its name in front. -/
def encodeFields : List (String × Document) → List UInt8
  | [] => []
  | (name, value) :: fields => string name ++ encode value ++ encodeFields fields

end

end StoredRoutine.Document.MessagePack
