import StoredRoutine.Config

/-!
# Options of the command line

Arguments are read from the left. Flags and options may stand anywhere between the files; an
option takes the next argument for its value, whatever that looks like; and of options that are
given more than once the last one counts. The first argument that cannot be read is reported.

How often more logging was asked for is counted in eight bits. The count does not wrap: an argument
at which the sum does not fit ends the reading, and the program with it.
-/

namespace StoredRoutine.CommandLine

/-- Why the command line, or what it asks for, cannot be carried out. -/
inductive Failure where
  | unknownOption (argument : String)
  | missingValue (option : String)
  | noFiles
  | error (e : Error)
  /-- what a flag adds to the count does not fit into it -/
  | overflow (flag : String)
  deriving DecidableEq, Repr

namespace Failure

/-- The wording of a failure. -/
def message : Failure → String
  | unknownOption argument => "unknown option: " ++ argument
  | missingValue option => option ++ " requires a value"
  | noFiles => "no specification files given (see --help)"
  | error e => e.message
  | overflow _ => "attempt to add with overflow"

/-- Does the failure end the program on the spot? Every other one is shown by the program. -/
def aborts : Failure → Bool
  | overflow _ => true
  | _ => false

end Failure

/-- What the command line says. -/
structure Options where
  /-- the specifications to read, in order -/
  files : List String
  /-- the file to read the configuration from -/
  config : Option String
  /-- the format of the output, in place of the configured one -/
  format : Option OutputFormat
  /-- the file to write to, in place of the standard output -/
  output : Option String
  /-- whether a rejected declaration is a failure -/
  strict : Bool
  /-- how often more logging was asked for, counted in eight bits -/
  verbosity : UInt8
  help : Bool
  version : Bool
  deriving DecidableEq, Repr

namespace Options

/-- A command line that says nothing. -/
def none : Options := ⟨[], .none, .none, .none, false, 0, false, false⟩

/-- Adds to the count what a flag stands for, if the sum fits. -/
def louder (flag : String) (n : UInt8) (o : Options) : Except Failure Options :=
  if o.verbosity.toNat + n.toNat < UInt8.size then .ok { o with verbosity := o.verbosity + n }
  else .error (.overflow flag)

/-- What a flag changes. -/
def flag? (argument : String) : Option (Options → Except Failure Options) :=
  match argument with
  | "-h" | "--help" => some fun o => .ok { o with help := true }
  | "-V" | "--version" => some fun o => .ok { o with version := true }
  | "--strict" => some fun o => .ok { o with strict := true }
  | "-v" => some (louder argument 1)
  | "-vv" => some (louder argument 2)
  | _ => .none

/-- What an option changes, given its value. -/
def option? (argument : String) : Option (String → Options → Except Failure Options) :=
  match argument with
  | "-c" | "--config" => some fun value o => .ok { o with config := some value }
  | "-f" | "--format" => some fun value o =>
    match OutputFormat.parse value with
    | .ok format => .ok { o with format := some format }
    | .error e => .error (.error e)
  | "-o" | "--output" => some fun value o => .ok { o with output := some value }
  | _ => .none

/-- Reads the arguments into what was said before them. -/
def parseFrom (o : Options) : List String → Except Failure Options
  | [] => .ok o
  | argument :: rest =>
    match flag? argument, option? argument with
    | some change, _ => do parseFrom (← change o) rest
    | .none, some change =>
      match rest with
      | [] => .error (.missingValue argument)
      | value :: others => do parseFrom (← change value o) others
    | .none, .none =>
      if argument.toList.head? = some '-' then .error (.unknownOption argument)
      else parseFrom { o with files := o.files ++ [argument] } rest

/-- Reads the arguments of a command line. -/
def parse (arguments : List String) : Except Failure Options := parseFrom none arguments

end Options

end StoredRoutine.CommandLine
