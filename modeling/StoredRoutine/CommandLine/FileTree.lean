/-!
# Trees of files

A `FileTree` is what a machine holds of files, with the directory that paths begin in. A path is
followed one segment at a time, and every segment needs a directory to be looked up in: `a/../b`
leads to `b` only if `a` is a directory. Above the root there is only the root.

A file is read where its path leads. To create one, all of the path but its last segment has to
lead to a directory, and the last segment has to be the name of a file.
-/

namespace StoredRoutine.CommandLine

/-! ## Errors -/

/-- Why a file cannot be read, created or written to. -/
inductive FileError where
  /-- nothing lies where the path leads -/
  | noSuchFile
  /-- the path goes on behind something that is not a directory -/
  | notADirectory
  /-- the path leads to a directory -/
  | isADirectory
  /-- nothing more can be written -/
  | noSpace
  /-- the path, or a name in it, has too many bytes -/
  | nameTooLong
  deriving DecidableEq, Repr

/-- The words of the system for an error, with the number it has there. -/
def FileError.message : FileError → String
  | noSuchFile => "No such file or directory (os error 2)"
  | notADirectory => "Not a directory (os error 20)"
  | isADirectory => "Is a directory (os error 21)"
  | noSpace => "No space left on device (os error 28)"
  | nameTooLong => "File name too long (os error 36)"

/-! ## Places -/

/-- Where something lies: the names of the directories from the root down to it, then its own. -/
abbrev Place := List String

/-- The place that a segment of a path leads to from a directory. Two full stops lead up, and an
empty segment or one full stop leads nowhere else. -/
def Place.next (here : Place) (segment : String) : Place :=
  if segment = "" ∨ segment = "." then here
  else if segment = ".." then here.dropLast
  else here ++ [segment]

/-- The text cut at its slashes. -/
def segments (path : String) : List String :=
  (path.toList.foldr (fun c parts =>
    if c = '/' then [] :: parts else parts.modifyHead (c :: ·)) [[]]).map String.ofList

/-! ## Trees -/

/-- A file that keeps nothing. It reads as empty. -/
inductive Device where
  /-- takes everything that is written to it -/
  | null
  /-- has room for nothing -/
  | full
  /-- shows what is written to it on the standard output -/
  | stdout
  deriving DecidableEq, Repr

/-- What can lie at a place. -/
inductive Entry where
  | directory
  | file (bytes : List UInt8)
  | device (d : Device)
  deriving DecidableEq, Repr

/-- What lies where, and the directory that paths begin in. The directories on the way to an entry
need not be listed. -/
structure FileTree where
  entries : List (Place × Entry)
  workingDirectory : Place
  deriving DecidableEq, Repr

namespace FileTree

/-- What lies at a place. There are directories at the root and on the way to every entry. -/
def entry? (t : FileTree) (place : Place) : Option Entry :=
  match t.entries.lookup place with
  | some entry => some entry
  | none =>
    if place.isEmpty || t.entries.any (fun e => place.isPrefixOf e.1) then some .directory
    else none

/-- Puts a file at a place, instead of what lies there. -/
def put (place : Place) (bytes : List UInt8) (t : FileTree) : FileTree :=
  { t with entries := t.entries.filter (·.1 ≠ place) ++ [(place, .file bytes)] }

/-! ## Following paths -/

/-- How many bytes a name can have. -/
def nameLimit : Nat := 255

/-- How many bytes a path can have. -/
def pathLimit : Nat := 4095

/-- Refuses a path that is empty or too long to be followed at all. -/
def checkPath (path : String) : Except FileError Unit :=
  if path = "" then .error .noSuchFile
  else if pathLimit < path.utf8ByteSize then .error .nameTooLong
  else .ok ()

/-- Where a path begins: at the root if it begins with a slash. -/
def start (t : FileTree) (path : String) : Place :=
  if path.toList.head? = some '/' then [] else t.workingDirectory

/-- Goes on from a place by one segment, which only a directory allows. -/
def enter (t : FileTree) (here : Place) (segment : String) : Except FileError Place :=
  match t.entry? here with
  | none => .error .noSuchFile
  | some .directory =>
    if nameLimit < segment.utf8ByteSize then .error .nameTooLong else .ok (here.next segment)
  | some _ => .error .notADirectory

/-! ## Reading and creating files -/

/-- The bytes of the file that a path leads to. -/
def read (path : String) (t : FileTree) : Except FileError (List UInt8) := do
  checkPath path
  let place ← (segments path).foldlM t.enter (t.start path)
  match t.entry? place with
  | none => .error .noSuchFile
  | some .directory => .error .isADirectory
  | some (.file bytes) => .ok bytes
  | some (.device _) => .ok []

/-- The place at which a path asks for a file to be created or written anew. A path that ends with
a slash or in full stops asks for a directory, whatever lies there. The empty segment behind the
front of the path makes sure that the front leads to a directory. -/
def creatable (path : String) (t : FileTree) : Except FileError Place := do
  checkPath path
  match (segments path).reverse.dropWhile (· = "") with
  | [] => .error .isADirectory
  | last :: front =>
    let here ← (front.reverse ++ [""]).foldlM t.enter (t.start path)
    if last = "." ∨ last = ".." ∨ path.toList.getLast? = some '/' then .error .isADirectory
    let place ← t.enter here last
    if t.entry? place = some .directory then .error .isADirectory
    return place

end FileTree

end StoredRoutine.CommandLine
