/-!
# Documents

A tree of lists and of objects with named fields, as it is written in JSON and in MessagePack
alike. The fields of an object have an order, which every format keeps.
-/

namespace StoredRoutine

/-- A tree of data. -/
inductive Document where
  | null
  | bool (b : Bool)
  | nat (n : Nat)
  | string (s : String)
  | list (items : List Document)
  | object (fields : List (String × Document))
  deriving Repr

namespace Document

/-- The value, or a null in its place. -/
def ofOption {α : Type} (f : α → Document) : Option α → Document
  | some a => f a
  | none => .null

/-- The bytes of a text in UTF-8. -/
def utf8 (s : String) : List UInt8 := s.toList.flatMap String.utf8EncodeChar

end Document

end StoredRoutine
