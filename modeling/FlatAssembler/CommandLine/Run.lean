import FlatAssembler.CommandLine.Dump
import FlatAssembler.CommandLine.Host
import FlatAssembler.CommandLine.Settings
import FlatAssembler.Session.Load
import FlatAssembler.Session.Rebase

/-!
# Running a command

A command reads and writes a file system and prints texts. It runs its script first, and goes on
with the files as the script has left them. A build assembles every input before it prints or
writes anything itself, so after a failure on the way there is nothing but what the script and the
tracing library have written; then the outputs are written in the order of the inputs, until one
cannot be.
-/

namespace FlatAssembler.CommandLine

/-- Why a command failed. -/
inductive CommandError where
  | usage (error : UsageError)
  /-- One output file was named for several inputs. -/
  | outputForMany (inputs : Nat)
  | setting (error : SettingError)
  | script (path : Text) (error : Script.DefinesError)
  | assembly (fault : Fault)
  | rebase (path : Text) (error : SlotOutOfRange)
  | writing (path : Text) (failure : FileSystem.Failure)
  /-- The standard output is full. -/
  | printing
  deriving Repr

/-- What went wrong, in words. -/
def CommandError.message : CommandError → Text
  | .usage error => error.message
  | .outputForMany inputs =>
    Text.concat ["-o needs exactly one input, got ", Text.decimal inputs]
  | .setting error => error.message
  | .script path error => Text.concat ["defines script ", path, ": ", error.message]
  | .assembly fault => fault.message
  | .rebase path error => Text.concat [path, ": ", error.message]
  | .writing path failure => Text.concat ["error writing ", path, ": ", failure.message]
  | .printing =>
    FileSystem.Failure.message { action := .writing, path := "/dev/stdout", reason := .noSpace }

/-- What a command has done so far. -/
structure Outcome where
  /-- What was sent to the standard output. -/
  output : Text := []
  errors : Text := []
  /-- The log files of the tracing library. -/
  logs : List (Text × Text) := []
  files : FileSystem
  failure : Option CommandError := none

namespace Outcome

/-- Prints to the standard output, which need not take it all. -/
def print (o : Outcome) (t : Text) : Outcome := { o with output := o.output ++ t }

/-- Prints to the standard error. -/
def warn (o : Outcome) (t : Text) : Outcome := { o with errors := o.errors ++ t }

/-- Ends with a failure. -/
def fail (o : Outcome) (error : CommandError) : Outcome := { o with failure := some error }

/-- Prints a text and fails if the standard output does not take it all. -/
def deliver (o : Outcome) (host : Host) (t : Text) : Outcome :=
  let o := o.print t
  if t.isEmpty || host.takes o.output then o else o.fail .printing

end Outcome

/-- A text and the end of its line. -/
def line (t : Text) : Text := t ++ [0x0a]

/-- The failure of a setting as that of the command. -/
def liftSetting {α : Type} : Except SettingError α → Except CommandError α
  | .ok x => .ok x
  | .error e => .error (.setting e)

/-- What the script of a command does. There may be none, and none is run for a base that is no
address. -/
def Host.runScript (host : Host) (o : SessionOptions) (fs : FileSystem) : Script.Run :=
  if o.definesFile = [] then .idle fs
  else match parseAddress o.base with
    | .error _ => .idle fs
    | .ok _ => host.engine fs o.definesFile

/-- What is there when a command has run its script, with what is traced all the way. -/
def Host.begin (host : Host) (command : Command) (fs : FileSystem) (run : Script.Run) : Outcome :=
  let trace := host.trace command fs
  { output := run.output
    errors := run.errors ++ trace.errors
    logs := trace.logs
    files := run.files }

/-- The constants that a script and then pairs define. -/
def constantsFor (o : SessionOptions) (run : Script.Run) : Except CommandError Constants :=
  match run.constants with
  | .error e => .error (.script o.definesFile e)
  | .ok constants =>
    match definePairs constants o.defines with
    | (constants, none) => .ok constants
    | (_, some e) => .error (.setting e)

/-- The session in which a command starts to assemble. -/
def newSession (o : SessionOptions) (run : Script.Run) : Except CommandError Session := do
  let base ← liftSetting (parseAddress o.base)
  let constants ← constantsFor o run
  return { base, constants, strict := o.strict }

/-- The address to which a build moves its outputs, if there is one. -/
def rebaseAddress (o : BuildOptions) : Except CommandError (Option UInt32) :=
  if o.rebase = [] then .ok none else (liftSetting (parseAddress o.rebase)).map some

/-- Assembles one input, and moves it if an address is given. -/
def assembleInput (fs : FileSystem) (start : Session) (address : Option UInt32) (path : Text) :
    Except CommandError Session :=
  match start.load fs path with
  | (_, .error fault) => .error (.assembly fault)
  | (s, .ok _) =>
    match address with
    | none => .ok s
    | some base =>
      match s.rebase base with
      | .ok s => .ok s
      | .error e => .error (.rebase path e.toSlotOutOfRange)

/-- The inputs with their sessions, or the first failure. -/
def assembleAll (fs : FileSystem) (start : Session) (address : Option UInt32) :
    List Text → Except CommandError (List (Text × Session))
  | [] => .ok []
  | path :: rest => do
    let s ← assembleInput fs start address path
    let more ← assembleAll fs start address rest
    return (path, s) :: more

/-- Whether a build is refused at once, because one output is named for several inputs. -/
def BuildOptions.clash (o : BuildOptions) (inputs : List Text) : Bool :=
  !o.output.isEmpty && 1 < inputs.length

/-- What the script of a build does. A build that is refused at once runs none. -/
def Host.runBuildScript (host : Host) (o : BuildOptions) (inputs : List Text) (fs : FileSystem) :
    Script.Run :=
  if o.clash inputs then .idle fs else host.runScript o.session fs

/-- Everything that can fail before a build writes: the settings, and then every input. -/
def prepareBuild (o : BuildOptions) (inputs : List Text) (run : Script.Run) :
    Except CommandError (List (Text × Session)) := do
  if o.clash inputs then throw (.outputForMany inputs.length)
  let start ← newSession o.session run
  let address ← rebaseAddress o
  assembleAll run.files { start with listed := o.listing } address inputs

/-- The output file that means the standard output. -/
def standardOutput : Text := "-"

/-- The output file of an input. -/
def destination (o : BuildOptions) (input : Text) : Text :=
  if o.output = [] then Path.withoutSuffix input ++ Text.ofString ".bin" else o.output

/-- The statuses and the listing of a session, as far as they are printed. -/
def reported (o : BuildOptions) (s : Session) : Text :=
  let statuses := Text.concat (s.statuses.toList.map fun x => line x.message)
  let listing := line (Text.joinWith [0x0a] (s.listing.toList.map ListingEntry.render))
  (if o.output = standardOutput then [] else statuses) ++ if o.listing then listing else []

/-- The warnings of a session. -/
def warned (s : Session) : Text :=
  Text.concat (s.warnings.toList.map fun w => line (Text.concat ["warning: ", w.message]))

/-- Prints what there is to be said of a session before its output is written. -/
def reportSession (o : BuildOptions) (s : Session) (out : Outcome) : Outcome :=
  (out.print (reported o s)).warn (warned s)

/-- Writes an output to its destination and prints its dump if there is to be one. Only this can
fail; whether anything else could be printed is not looked at. -/
def writeBinary (host : Host) (path bytes : Text) (dump : Bool) (out : Outcome) : Outcome :=
  if path = standardOutput then out.deliver host (if dump then hexDump bytes else bytes)
  else match out.files.write path bytes with
    | .error failed => { out with files := failed.files }.fail (.writing path failed.toFailure)
    | .ok files =>
      let out := { out with files }
      if dump then out.deliver host (hexDump bytes) else out

/-- Writes the output of one input and says so. -/
def finishInput (host : Host) (o : BuildOptions) (input : Text) (s : Session) (out : Outcome) :
    Outcome :=
  let path := destination o input
  let out := writeBinary host path s.bytes.toList o.hexdump (reportSession o s out)
  if out.failure.isSome || path == standardOutput then out
  else out.print (line (Text.concat ["Successfully assembled to ", path, " (",
    Text.decimal s.bytes.size, " bytes, base 0x", Text.hex 0 s.base.toNat, ")"]))

/-- Finishes the inputs in order, until one of them fails. -/
def finishAll (host : Host) (o : BuildOptions) : List (Text × Session) → Outcome → Outcome
  | [], out => out
  | (input, s) :: rest, out =>
    let out := finishInput host o input s out
    match out.failure with
    | none => finishAll host o rest out
    | some _ => out

/-- Builds the inputs. -/
def runBuild (host : Host) (o : BuildOptions) (inputs : List Text) (fs : FileSystem) : Outcome :=
  let run := host.runBuildScript o inputs fs
  let out := host.begin (.build o inputs) fs run
  match prepareBuild o inputs run with
  | .error e => out.fail e
  | .ok sessions => finishAll host o sessions out

/-- A symbol on a line: offset, a mark if it is exported, name. -/
def symbolLine (s : Symbol) : Text :=
  line (Text.concat [Text.upperHex 8 s.offset.toNat, if s.exported then " G " else "   ", s.name])

/-- The symbols of a table, one to a line. -/
def symbolListing (table : SymbolTable) : Text := Text.concat (table.sorted.map symbolLine)

/-- Lists or dumps the symbols of an input. Only for a dump it matters whether it can be printed. -/
def runSymbols (host : Host) (o : SessionOptions) (dump : Bool) (input : Text) (fs : FileSystem) :
    Outcome :=
  let run := host.runScript o fs
  let out := host.begin (.symbols o dump input) fs run
  match newSession o run with
  | .error e => out.fail e
  | .ok start =>
    match start.load run.files input with
    | (_, .error fault) => out.fail (.assembly fault)
    | (s, .ok _) =>
      if dump then out.deliver host (dumpSession input s)
      else out.print (symbolListing s.symbols)

/-- The version that the program names. -/
def versionName : Text := "dev"

/-- Does what a command asks for. -/
def Command.run (host : Host) (command : Command) (fs : FileSystem) : Outcome :=
  match command with
  | .build o inputs => runBuild host o inputs fs
  | .symbols o dump input => runSymbols host o dump input fs
  | .version => { output := line (Text.concat [programName, " ", versionName]), files := fs }
  | .nothing => { files := fs }

/-- Does what the arguments ask for. -/
def execute (arguments : List Text) (fs : FileSystem) (host : Host := .standard) : Outcome :=
  match Command.parse host.refusal arguments with
  | .error e => { files := fs, failure := some (.usage e) }
  | .ok command => command.run host fs

/-- The exit code of a run. -/
def Outcome.exitCode (o : Outcome) : Nat := if o.failure.isSome then 1 else 0

/-- What a run prints to the standard error, its failure last. -/
def Outcome.diagnostics (o : Outcome) : Text :=
  match o.failure with
  | none => o.errors
  | some e => o.errors ++ line (Text.concat ["error: ", e.message])

end FlatAssembler.CommandLine
