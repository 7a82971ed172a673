import StoredRoutine.CommandLine.Run

/-!
# The program

The command line on the machine itself.
-/

namespace StoredRoutine.CommandLine

/-- What the system says of a failed step: its words and its number of the error. -/
def systemMessage : IO.Error → String
  | .noFileOrDirectory _ code details => numbered details code
  | .permissionDenied _ code details => numbered details code
  | .alreadyExists _ code details => numbered details code
  | .inappropriateType _ code details => numbered details code
  | .invalidArgument _ code details => numbered details code
  | .resourceExhausted _ code details => numbered details code
  | .noSuchThing _ code details => numbered details code
  | .illegalOperation code details => numbered details code
  | .hardwareFault code details => numbered details code
  | .resourceBusy code details => numbered details code
  | .otherError code details => numbered details code
  | e => toString e
where
  /-- The words of an error, with its number. -/
  numbered (details : String) (code : UInt32) : String :=
    details ++ " (os error " ++ toString code ++ ")"

/-- Carries out a step, and puts what the system says in place of an error. -/
def attempt {α : Type} (step : IO α) : IO (Except String α) := do
  match ← step.toBaseIO with
  | .ok a => return .ok a
  | .error e => return .error (systemMessage e)

/-- An open file as a sink. -/
def handleSink (handle : IO.FS.Handle) : Sink IO where
  write bytes := attempt (handle.write bytes.toByteArray)
  flush := attempt handle.flush

/-- A stream as a sink. -/
def streamSink (stream : IO.FS.Stream) : Sink IO where
  write bytes := attempt (stream.write bytes.toByteArray)
  flush := attempt stream.flush

/-- The bytes of a file. -/
def readBytes (path : String) : IO (List UInt8) := do
  let handle ← IO.FS.Handle.mk path .read
  return (← handle.readBinToEnd).toList

/-- The machine as a host. -/
def machine : IO (Host IO) := do
  let stdout ← IO.getStdout
  return {
    read := fun path => attempt (readBytes path)
    create := fun path => attempt (handleSink <$> IO.FS.Handle.mk path .write)
    stdout := streamSink stdout
    stderr := IO.eprint
    abort := fun failure => IO.eprint ("\n" ++ programName ++ ": " ++ failure.message ++ "\n")
    workers := return 8 }

end StoredRoutine.CommandLine

/-- Runs the command line that the program was started with. -/
def main (arguments : List String) : IO UInt32 := do
  StoredRoutine.CommandLine.run StoredRoutine.Config.parse (← StoredRoutine.CommandLine.machine)
    arguments
