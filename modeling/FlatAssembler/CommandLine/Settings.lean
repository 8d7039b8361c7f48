import FlatAssembler.Constants
import FlatAssembler.Literal

/-!
# Addresses and constants from the command line

An address is a literal of the source language that lies in the 32-bit range. A constant is given
as `NAME=VALUE`, where the value is a literal; a later pair replaces the value of an earlier one.
-/

namespace FlatAssembler.CommandLine

/-- What is wrong with an address or a constant. -/
inductive SettingError where
  | badAddress (text : Text)
  /-- No equals sign, or no name in front of it. -/
  | badPair (pair : Text)
  | badValue (pair : Text)
  deriving DecidableEq, Repr

/-- The text as it was given, and what is expected. -/
def SettingError.message : SettingError → Text
  | .badAddress text =>
    Text.concat ["invalid address ", text.quoted, ": want 0x hex or decimal in 32-bit range"]
  | .badPair pair => Text.concat ["invalid define ", pair.quoted, ": want NAME=VALUE"]
  | .badValue pair =>
    Text.concat ["invalid define ", pair.quoted, ": value must be 0x hex or decimal"]

/-- The address that a text spells. -/
def parseAddress (text : Text) : Except SettingError UInt32 :=
  match Literal.read? text with
  | some v =>
    if 0 ≤ v ∧ v ≤ 0xFFFFFFFF then .ok (UInt32.ofNat v.toInt.toNat)
    else .error (.badAddress text)
  | none => .error (.badAddress text)

/-- The constant that a pair spells. -/
def parsePair (pair : Text) : Except SettingError (Text × Int64) :=
  match cutAt '='.toUInt8 pair with
  | (_, none) => .error (.badPair pair)
  | (name, some value) =>
    if Text.trim name = [] then .error (.badPair pair)
    else match Literal.read? value with
      | some v => .ok (Text.trim name, v)
      | none => .error (.badValue pair)

/-- Takes the pairs into the constants until one of them is rejected. -/
def definePairs (constants : Constants) : List Text → Constants × Option SettingError
  | [] => (constants, none)
  | pair :: rest =>
    match parsePair pair with
    | .error e => (constants, some e)
    | .ok (name, v) => definePairs (Constants.assign name v constants) rest

end FlatAssembler.CommandLine
