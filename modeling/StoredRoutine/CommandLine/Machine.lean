import StoredRoutine.CommandLine.FileTree
import StoredRoutine.CommandLine.Run

/-!
# A machine to run on

A model of the machine: its files, what was written to the two streams, and whether the program was
ended on the spot. A command line can be run on it as on the machine itself.
-/

namespace StoredRoutine.CommandLine

/-- The files, and what was written to the streams. -/
structure Machine where
  files : FileTree
  stdout : List UInt8
  stderr : String
  /-- what ended the program, if it did not end by itself; what the system shows of that is not part
  of `stderr` -/
  aborted : Option Failure
  /-- how many specifications can be worked on side by side -/
  workers : Nat
  deriving DecidableEq, Repr

namespace Machine

/-! ## Writing -/

/-- The standard output, as something that can be written to. -/
def stdoutSink : Sink (StateM Machine) where
  write bytes := do
    modify fun s => { s with stdout := s.stdout ++ bytes }
    return .ok ()
  flush := return .ok ()

/-- The file at a place, as something that can be written to. What is written goes behind what is
there. -/
def fileSink (place : Place) : Sink (StateM Machine) where
  write bytes := do
    modify fun s =>
      let front := match s.files.entry? place with
        | some (.file front) => front
        | _ => []
      { s with files := s.files.put place (front ++ bytes) }
    return .ok ()
  flush := return .ok ()

/-- A device, as something that can be written to. -/
def deviceSink : Device → Sink (StateM Machine)
  | .null => { write := fun _ => return .ok (), flush := return .ok () }
  | .full => {
      write := fun _ => return .error FileError.noSpace.message
      flush := return .ok () }
  | .stdout => stdoutSink

/-! ## The host -/

/-- A modelled machine as a host. A file that is created is empty at first, even if it was not
before; a device stays what it is. -/
def host : Host (StateM Machine) where
  read path := do return ((← get).files.read path).mapError FileError.message
  create path := do
    let files := (← get).files
    match files.creatable path with
    | .error e => return .error e.message
    | .ok place =>
      match files.entry? place with
      | some (.device d) => return .ok (deviceSink d)
      | _ =>
        modify fun s => { s with files := s.files.put place [] }
        return .ok (fileSink place)
  stdout := stdoutSink
  stderr text := modify fun s => { s with stderr := s.stderr ++ text }
  abort failure := modify fun s => { s with aborted := some failure }
  workers := do return (← get).workers

/-! ## Machines with files -/

/-- The directory that a modelled machine works in. -/
def home : Place := ["tmp", "work"]

/-- What lies on a machine from the start: its devices, and the directories that every machine has.
Nothing comes in from the standard input. -/
def standing : List (Place × Entry) :=
  [ (["dev", "null"], .device .null),
    (["dev", "full"], .device .full),
    (["dev", "stdin"], .device .null),
    (["dev", "stdout"], .device .stdout),
    (["bin"], .directory),
    (["etc"], .directory),
    (["home"], .directory),
    (["lib"], .directory),
    (["proc"], .directory),
    (["root"], .directory),
    (["usr"], .directory),
    (["var"], .directory),
    (home, .directory) ]

/-- A machine with files and directories, to each its path from the working directory. -/
def ofFiles (files : List (String × Option (List UInt8))) : Machine where
  files := {
    entries := standing ++ files.map fun (path, content) =>
      ((segments path).foldl Place.next home, match content with
        | some bytes => .file bytes
        | none => .directory)
    workingDirectory := home }
  stdout := []
  stderr := ""
  aborted := none
  workers := 1

/-- The exit code of a command line, and what it makes of the machine. -/
def run (s : Machine) (reader : ConfigReader) (arguments : List String) : UInt32 × Machine :=
  (CommandLine.run reader host arguments).run s

end Machine

end StoredRoutine.CommandLine
