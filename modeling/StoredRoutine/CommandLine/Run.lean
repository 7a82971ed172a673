import StoredRoutine.Catalog.Writer
import StoredRoutine.CommandLine.Options

/-!
# Running a command line

`run` carries out a command line on a `Host`: something that reads and creates files and shows
what is written to its two streams. The host may be the machine or a model of one. How the text of
a configuration is read is left open as well: any `ConfigReader` will do.

The configuration is read first, then all specifications in order. Only when everything could be
read is anything generated; then what is wrong with declarations is shown, and the catalog is
written to the one place it is meant for.

A failure is shown and gives the exit code 1. Only one that ends the program on the spot is left to
the host, which reports it in its own words.
-/

namespace StoredRoutine.CommandLine

/-- What a command line is carried out on. A file that cannot be read or created comes with the
reason in the system's words. -/
structure Host (m : Type → Type) where
  read : String → m (Except String (List UInt8))
  create : String → m (Except String (Sink m))
  stdout : Sink m
  stderr : String → m Unit
  /-- reports a failure that ended the program -/
  abort : Failure → m Unit
  /-- how many specifications can be worked on side by side -/
  workers : m Nat

/-- What finds a configuration in a text. -/
abbrev ConfigReader := String → Except Error Config

/-! ## Texts -/

/-- What the program calls itself. -/
def programName : String := "plspec"

/-- The version of the program. -/
def programVersion : String := "0.1.0"

/-- The text in bold type on a terminal. -/
def bold (text : String) : String := "\x1b[1m" ++ text ++ "\x1b[0m"

/-- The text in red on a terminal. -/
def red (text : String) : String := "\x1b[31m" ++ text ++ "\x1b[0m"

/-- The text in yellow on a terminal. -/
def yellow (text : String) : String := "\x1b[33m" ++ text ++ "\x1b[0m"

/-- What the program says of itself when asked for help. -/
def helpText : String := "\n".intercalate
  [ bold programName
      ++ " - Stored-routine package specification parser and call-model generator",
    "",
    bold "USAGE:",
    "    plspec [OPTIONS] FILES...",
    "",
    bold "ARGUMENTS:",
    "    FILES...    Package specification files to process",
    "",
    bold "OPTIONS:",
    "    -h, --help             Print help information",
    "    -V, --version          Print version information",
    "    -c, --config FILE      Read configuration from a TOML file",
    "    -f, --format FORMAT    Output format: json (default) or msgpack",
    "    -o, --output FILE      Write output to FILE instead of stdout",
    "        --strict           Exit with failure if any declaration was rejected",
    "    -v, -vv                Log debug / trace output to stderr",
    "",
    bold "EXAMPLES:",
    "    plspec billing.pks                    Print the call model as JSON",
    "    plspec -c plspec.toml specs/*.pks     Use an allow-list and type overrides",
    "    plspec -f msgpack -o model.bin a.pks  Write MessagePack to a file",
    "    plspec --strict -v a.pks b.pks        Fail on any rejected declaration",
    "" ]

/-- What the program says when asked for its version. -/
def versionText : String := programName ++ " " ++ programVersion ++ "\n"

/-- How a diagnostic is shown: its place and message, and below them the declaration. -/
def showDiagnostic (d : Diagnostic) : String :=
  let package := d.package.getD "?"
  let place := match d.line, d.column with
    | some line, some column => package ++ ":" ++ Nat.repr line ++ ":" ++ Nat.repr column ++ ":"
    | _, _ => package ++ ":"
  let declaration := match d.fragment with
    | some fragment => "    " ++ fragment ++ "\n"
    | none => ""
  yellow place ++ " " ++ d.message ++ "\n" ++ declaration

/-! ## Files -/

/-- The name of a file without its directories and its last extension. A full stop in front does
not begin an extension. -/
def stem (path : String) : String :=
  let name := (path.toList.reverse.takeWhile (· ≠ '/')).reverse
  let front := (name.reverse.dropWhile (· ≠ '.')).drop 1
  String.ofList (if front.isEmpty then name else front.reverse)

section

variable {m : Type → Type} [Monad m] (reader : ConfigReader) (host : Host m)

/-- Reads a text. `what` says in an error what was to be read. -/
def readText (what path : String) : ExceptT Failure m String := do
  let failed (problem : String) : Failure :=
    .error (.ofCause (.io ("failed to read " ++ what ++ "'" ++ path ++ "': " ++ problem)))
  match ← host.read path with
  | .error problem => throw (failed problem)
  | .ok bytes => match String.fromUTF8? bytes.toByteArray with
    | some text => return text
    | none => throw (failed "stream did not contain valid UTF-8")

/-- Reads the configuration, if there is a file for it, and puts in the format that the options
give. -/
def readConfig (o : Options) : ExceptT Failure m Config := do
  let config ← match o.config with
    | none => pure Config.default
    | some path => do
      let text ← readText host "config " path
      ExceptT.mk (pure ((reader text).mapError .error))
  return { config with format := o.format.getD config.format }

/-- Reads a specification. The name of the file is used if its text has no header. -/
def readSpecification (path : String) : ExceptT Failure m Specification := do
  return .ofText (stem path) (← readText host "" path)

/-- Writes a catalog to a file, or to the standard output if no file is given. -/
def writeCatalog (format : OutputFormat) (output : Option String) (c : Catalog) :
    ExceptT Failure m Unit := do
  let sink ← match output with
    | none => pure host.stdout
    | some path => do
      match ← host.create path with
      | .ok sink => pure sink
      | .error problem =>
        throw (.error (.ofCause (.io ("failed to create file '" ++ path ++ "': " ++ problem))))
  ExceptT.mk ((·.mapError .error) <$> (c.writeTo sink format).run)

/-! ## Running -/

/-- Generates the catalog that the options ask for, and gives the exit code. -/
def generate (o : Options) : ExceptT Failure m UInt32 := do
  if o.files.isEmpty then throw .noFiles
  let config ← readConfig reader host o
  let specifications ← o.files.mapM (readSpecification host)
  let catalog := Catalog.generate (← host.workers) config specifications
  catalog.diagnostics.forM fun d => host.stderr (showDiagnostic d)
  writeCatalog host config.format o.output catalog
  if o.strict && !catalog.isClean then
    host.stderr (red (Nat.repr catalog.diagnostics.length ++ " declaration(s) failed") ++ "\n")
    return 1
  return 0

/-- Shows a text on the standard output. -/
def say (text : String) : m UInt32 := do
  let _ ← host.stdout.write (Document.utf8 text)
  return 0

/-- The exit code of a program that was ended on the spot. -/
def abortCode : UInt32 := 101

/-- Reports a failure and gives the exit code. -/
def report (failure : Failure) : m UInt32 := do
  if failure.aborts then
    host.abort failure
    return abortCode
  host.stderr (red ("Error: " ++ failure.message) ++ "\n")
  return 1

/-- Carries out a command line and gives the exit code. -/
def run (arguments : List String) : m UInt32 := do
  let outcome ← ExceptT.run do
    let o ← ExceptT.mk (pure (Options.parse arguments))
    if o.help then ExceptT.lift (say host helpText)
    else if o.version then ExceptT.lift (say host versionText)
    else generate reader host o
  match outcome with
  | .ok code => return code
  | .error failure => report host failure

end

end StoredRoutine.CommandLine
