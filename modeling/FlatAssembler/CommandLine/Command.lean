import FlatAssembler.CommandLine.Flags
import FlatAssembler.CommandLine.Suggestion

/-!
# Commands

Which command the arguments name, and with which options. The command is the first argument that
is neither a flag nor, as far as that can be told without knowing the command, the value of one.
Then the flags are read, and last the number of positional arguments is checked.
-/

namespace FlatAssembler.CommandLine

/-- The name under which the program speaks of itself. -/
def programName : Text := "relasm"

/-- The options of every command that assembles. -/
structure SessionOptions where
  base : Text := "0"
  /-- The script that defines constants; none if empty. -/
  definesFile : Text := []
  /-- Constants in the form `NAME=VALUE`. -/
  defines : List Text := []
  strict : Bool := false
  /-- The flags of the tracing library that were given. -/
  tracing : List Setting := []
  deriving DecidableEq, Repr

/-- The options of a build. -/
structure BuildOptions where
  session : SessionOptions := {}
  /-- The output file; if empty it is found from the input. -/
  output : Text := []
  /-- The address to which the output is moved; none if empty. -/
  rebase : Text := []
  listing : Bool := false
  hexdump : Bool := false
  deriving DecidableEq, Repr

/-- What the program is asked to do. -/
inductive Command where
  | build (options : BuildOptions) (inputs : List Text)
  | symbols (options : SessionOptions) (dump : Bool) (input : Text)
  | version
  /-- No command is named, or help is all that is asked for. -/
  | nothing
  deriving DecidableEq, Repr

/-- The flags of the tracing library that a command was given, if anything of it can be traced. -/
def Command.tracing : Command → List Setting
  | .build o _ => o.session.tracing
  | .symbols o _ _ => o.tracing
  | .version | .nothing => []

/-- Why the arguments ask for nothing that can be done. -/
inductive UsageError where
  | unknownCommand (name : Text) (meant : List Text)
  | flag (error : FlagError)
  | tooFewInputs (least got : Nat)
  | wrongInputCount (expected got : Nat)
  /-- The command has no positional arguments. -/
  | surplus (argument command : Text)
  deriving DecidableEq, Repr

/-- What is wrong, and for an unknown command what may be meant. -/
def UsageError.message : UsageError → Text
  | .unknownCommand name meant =>
    Text.concat ["unknown command ", name.quoted, " for ", programName.quoted,
      if meant = [] then []
      else
        Text.concat ("\n\nDid you mean this?\n" ::
          meant.map fun c => Text.concat ["\t", c, "\n"])]
  | .flag error => error.message
  | .tooFewInputs least got =>
    Text.concat ["requires at least ", Text.decimal least, " arg(s), only received ",
      Text.decimal got]
  | .wrongInputCount expected got =>
    Text.concat ["accepts ", Text.decimal expected, " arg(s), received ", Text.decimal got]
  | .surplus argument command =>
    Text.concat ["unknown command ", argument.quoted, " for ",
      Text.quoted (Text.concat [programName, " ", command])]

/-- The commands that are suggested in place of an unknown one. -/
def commandNames : List Text := ["build", "symbols", "version", "completion"]

/-- The flags of the tracing library. -/
def tracingFlags : List Flag :=
  [.tracing "alsologtostderr" none true, .tracing "log_backtrace_at" none false,
   .tracing "log_dir" none false, .tracing "log_link" none false,
   .tracing "logbuflevel" none false, .tracing "logtostderr" none true,
   .tracing "stderrthreshold" none false, .tracing "v" (some 'v') false,
   .tracing "vmodule" none false]

/-- The flags of every command. -/
def commonFlags : List Flag := .switch "help" (some 'h') :: tracingFlags

/-- The flags of every command that assembles. -/
def sessionFlags : List Flag :=
  commonFlags ++ [.valued "base" none, .valued "defines" none, .valued "define" (some 'D'),
    .switch "strict-relocs" none]

/-- The flags of a build. -/
def buildFlags : List Flag :=
  sessionFlags ++ [.valued "output" (some 'o'), .valued "rebase" none, .switch "listing" none,
    .switch "hexdump" none]

/-- The flags of a listing of symbols. -/
def symbolsFlags : List Flag := sessionFlags ++ [.switch "dump" none]

/-- The options that the flags set. -/
def SessionOptions.ofArguments (a : Arguments) : SessionOptions where
  base := a.value "base" "0"
  definesFile := a.value "defines" []
  defines := a.values "define"
  strict := a.isOn "strict-relocs"
  tracing := a.settings.filter fun s => tracingFlags.any fun f => f.name == s.name

/-- The options that the flags set. -/
def BuildOptions.ofArguments (a : Arguments) : BuildOptions where
  session := .ofArguments a
  output := a.value "output" []
  rebase := a.value "rebase" []
  listing := a.isOn "listing"
  hexdump := a.isOn "hexdump"

/-- Whether the argument looks like a flag whose value comes next. As long as the command is not
known, only the flags of the tracing library are. -/
def takesNext (argument : Text) : Bool :=
  !argument.contains equalsSign && argument.head? == some hyphen &&
    (argument.length == 2 ||
      (argument.drop 1).head? == some hyphen &&
        !tracingFlags.any fun f => f.isBare && f.name == argument.drop 2)

/-- Whether the argument ends the flags. -/
def endsFlags (argument : Text) : Bool := argument == [hyphen, hyphen]

/-- The argument that names the command. A flag that takes a value needs two arguments behind it,
its value and something else. -/
def commandName? : List Text → Option Text
  | [] => none
  | argument :: rest =>
    if endsFlags argument then none
    else if takesNext argument then
      match rest with
      | _ :: next :: more => commandName? (next :: more)
      | _ => none
    else if argument ≠ [] ∧ argument.head? ≠ some hyphen then some argument
    else commandName? rest

/-- The arguments without the first one that is `name` and not a flag or the value of one. -/
def withoutName (name : Text) : List Text → List Text
  | [] => []
  | argument :: rest =>
    if endsFlags argument then argument :: rest
    else if takesNext argument then
      match rest with
      | value :: rest => argument :: value :: withoutName name rest
      | [] => [argument]
    else if argument = name then rest
    else argument :: withoutName name rest

section

variable (refusal : Refusal)

/-- The flags and positional arguments of a command. -/
def argumentsFor (flags : List Flag) (arguments : List Text) : Except UsageError Arguments :=
  match parseArguments refusal flags arguments with
  | .ok a => .ok a
  | .error e => .error (.flag e)

/-- A build takes one or more inputs. -/
def parseBuild (arguments : List Text) : Except UsageError Command := do
  let a ← argumentsFor refusal buildFlags arguments
  if a.isOn "help" then return .nothing
  if a.positional = [] then throw (.tooFewInputs 1 0)
  return .build (.ofArguments a) a.positional

/-- A listing of symbols takes one input. -/
def parseSymbols (arguments : List Text) : Except UsageError Command := do
  let a ← argumentsFor refusal symbolsFlags arguments
  if a.isOn "help" then return .nothing
  match a.positional with
  | [input] => return .symbols (.ofArguments a) (a.isOn "dump") input
  | inputs => throw (.wrongInputCount 1 inputs.length)

/-- The version takes no argument. -/
def parseVersion (arguments : List Text) : Except UsageError Command := do
  let a ← argumentsFor refusal commonFlags arguments
  if a.isOn "help" then return .nothing
  match a.positional with
  | [] => return .version
  | argument :: _ => throw (.surplus argument "version")

/-- The command that the arguments ask for. -/
def Command.parse (arguments : List Text) : Except UsageError Command :=
  match commandName? arguments with
  | none => do
    let _ ← argumentsFor refusal commonFlags arguments
    return .nothing
  | some name =>
    let rest := withoutName name arguments
    if name = Text.ofString "build" then parseBuild refusal rest
    else if name = Text.ofString "symbols" then parseSymbols refusal rest
    else if name = Text.ofString "version" then parseVersion refusal rest
    else .error (.unknownCommand name (suggestions commandNames name))

end

end FlatAssembler.CommandLine
