import FlatAssembler.Text.Quoted
import FlatAssembler.Text.Split

/-!
# Flags

How the arguments of a command are divided into flags and positional arguments. Both may be mixed;
two hyphens alone end the flags. A valued flag takes its value behind an equals sign or from the
next argument, and in its one-letter form also without anything in between. A switch takes a value
only behind an equals sign, so the letters of switches can be written together. The first argument
that breaks a rule decides the error.

The flags of the tracing library are written in the same ways, but what a value of them means is up
to the library.
-/

namespace FlatAssembler.CommandLine

/-- A flag that a command knows, with the letter for which it can be written short. -/
inductive Flag where
  | switch (name : Text) (letter : Option Char)
  | valued (name : Text) (letter : Option Char)
  /-- A flag of the tracing library; if it is `bare` it is written without a value like a switch. -/
  | tracing (name : Text) (letter : Option Char) (bare : Bool)
  deriving DecidableEq, Repr

namespace Flag

/-- The long name of a flag. -/
def name : Flag → Text
  | .switch name _ | .valued name _ | .tracing name _ _ => name

/-- The letter of a flag, if it has one. -/
def letter : Flag → Option Char
  | .switch _ letter | .valued _ letter | .tracing _ letter _ => letter

/-- Whether a flag takes a value only behind an equals sign. -/
def isBare : Flag → Bool
  | .switch _ _ => true
  | .valued _ _ => false
  | .tracing _ _ bare => bare

/-- The ways to write a flag, as messages name them. -/
def label (flag : Flag) : Text :=
  match flag.letter with
  | none => Text.concat ["--", flag.name]
  | some letter => Text.concat ["-", Text.ofChars [letter], ", --", flag.name]

end Flag

/-- A flag that was given, with its value. -/
structure Setting where
  name : Text
  value : Text
  deriving DecidableEq, Repr

/-- What is wrong with an argument. -/
inductive FlagError where
  | badForm (argument : Text)
  | unknown (name : Text)
  | unknownLetter (letter : Char) (letters : Text)
  | noValue (argument : Text)
  | noLetterValue (letter : Char) (letters : Text)
  | notABool (label value : Text)
  /-- The tracing library refuses the value, in its own words. -/
  | refused (label value words : Text)
  deriving DecidableEq, Repr

/-- The argument or flag, and what is wrong with it. -/
def FlagError.message : FlagError → Text
  | .badForm argument => Text.concat ["bad flag syntax: ", argument]
  | .unknown name => Text.concat ["unknown flag: --", name]
  | .unknownLetter letter letters =>
    Text.concat ["unknown shorthand flag: ", Text.quotedChar letter, " in -", letters]
  | .noValue argument => Text.concat ["flag needs an argument: ", argument]
  | .noLetterValue letter letters =>
    Text.concat ["flag needs an argument: ", Text.quotedChar letter, " in -", letters]
  | .notABool label value =>
    Text.concat ["invalid argument ", value.quoted, " for ", label.quoted,
      " flag: strconv.ParseBool: parsing ", value.quoted, ": invalid syntax"]
  | .refused label value words =>
    Text.concat ["invalid argument ", value.quoted, " for ", label.quoted, " flag: ", words]

/-- The truth value that a text spells. -/
def bool? (t : Text) : Option Bool :=
  if ["1", "t", "T", "true", "TRUE", "True"].any fun s => Text.ofString s == t then some true
  else if ["0", "f", "F", "false", "FALSE", "False"].any fun s => Text.ofString s == t then
    some false
  else none

/-- What the tracing library says against the value of one of its flags, if it refuses it. -/
abbrev Refusal := Setting → Option Text

/-- Gives a flag a value; that of a switch must be a truth value. -/
def Flag.set (refusal : Refusal) (flag : Flag) (value : Text) : Except FlagError Setting :=
  let setting : Setting := ⟨flag.name, value⟩
  match flag with
  | .switch _ _ =>
    if (bool? value).isSome then .ok setting else .error (.notABool flag.label value)
  | .valued _ _ => .ok setting
  | .tracing _ _ _ =>
    match refusal setting with
    | none => .ok setting
    | some words => .error (.refused flag.label value words)

/-- The flags and the positional arguments of a command. -/
structure Arguments where
  settings : List Setting := []
  positional : List Text := []
  deriving DecidableEq, Repr

namespace Arguments

/-- The values that a flag was given, in order. -/
def values (a : Arguments) (name : Text) : List Text :=
  (a.settings.filter fun s => s.name == name).map Setting.value

/-- The value that a flag was given last. -/
def value (a : Arguments) (name default : Text) : Text := (a.values name).getLastD default

/-- Whether a switch is on. -/
def isOn (a : Arguments) (name : Text) : Bool :=
  ((a.values name).getLast?.bind bool?).getD false

/-- Puts flags in front. -/
def addSettings (settings : List Setting) (a : Arguments) : Arguments :=
  { a with settings := settings ++ a.settings }

/-- Puts a positional argument in front. -/
def addPositional (argument : Text) (a : Arguments) : Arguments :=
  { a with positional := argument :: a.positional }

end Arguments

/-- What flags start with. -/
def hyphen : UInt8 := '-'.toUInt8

/-- What divides a flag from its value. -/
def equalsSign : UInt8 := '='.toUInt8

/-- What an argument asks for. -/
inductive Request where
  | positional
  /-- Everything that follows is positional. -/
  | endOfFlags
  | set (settings : List Setting)
  /-- Behind these settings, the value of the flag is the next argument; the error if there is
  none. -/
  | setNext (settings : List Setting) (flag : Flag) (missing : FlagError)
  deriving DecidableEq, Repr

/-- Puts a setting in front of what a request sets. -/
def Request.addSetting (setting : Setting) : Request → Request
  | .set settings => .set (setting :: settings)
  | .setNext settings flag missing => .setNext (setting :: settings) flag missing
  | request => request

section

variable (refusal : Refusal) (flags : List Flag)

/-- An argument that starts with two hyphens. -/
def longRequest (argument body : Text) : Except FlagError Request :=
  if body.head? = some hyphen ∨ body.head? = some equalsSign then .error (.badForm argument)
  else
    let (name, value?) := cutAt equalsSign body
    match flags.find? fun f => f.name == name with
    | none => .error (.unknown name)
    | some flag =>
      match value? with
      | some value => (flag.set refusal value).map fun s => .set [s]
      | none =>
        if flag.isBare then (flag.set refusal "true").map fun s => .set [s]
        else .ok (.setNext [] flag (.noValue argument))

/-- An argument that starts with one hyphen, of which `letters` is the rest. What follows the letter
of a flag without a value is a flag again. -/
def letterRequest : (letters : Text) → Except FlagError Request
  | [] => .ok (.set [])
  | b :: rest =>
    let letter := Char.ofNat b.toNat
    if (Text.ofString "test.").isPrefixOf (b :: rest) then .ok (.set [])
    else match flags.find? fun f => f.letter == some letter with
      | none => .error (.unknownLetter letter (b :: rest))
      | some flag =>
        if rest.head? = some equalsSign ∧ rest.tail ≠ [] then
          (flag.set refusal rest.tail).map fun s => .set [s]
        else if flag.isBare then
          match flag.set refusal "true" with
          | .error e => .error e
          | .ok s => (letterRequest rest).map (.addSetting s)
        else if rest = [] then .ok (.setNext [] flag (.noLetterValue letter (b :: rest)))
        else (flag.set refusal rest).map fun s => .set [s]

/-- What an argument asks for. A hyphen alone, and the empty text, are positional. -/
def request (argument : Text) : Except FlagError Request :=
  match argument with
  | a :: b :: rest =>
    if a = hyphen then
      if b = hyphen then
        if rest = [] then .ok .endOfFlags else longRequest refusal flags argument rest
      else letterRequest refusal flags (b :: rest)
    else .ok .positional
  | _ => .ok .positional

/-- Divides the arguments of a command. -/
def parseArguments : List Text → Except FlagError Arguments
  | [] => .ok {}
  | argument :: rest =>
    match request refusal flags argument with
    | .error e => .error e
    | .ok .positional => (parseArguments rest).map (.addPositional argument)
    | .ok .endOfFlags => .ok { positional := rest }
    | .ok (.set settings) => (parseArguments rest).map (.addSettings settings)
    | .ok (.setNext settings flag missing) =>
      match rest with
      | [] => .error missing
      | value :: rest =>
        match flag.set refusal value with
        | .error e => .error e
        | .ok last => (parseArguments rest).map (.addSettings (settings ++ [last]))

end

end FlatAssembler.CommandLine
