import FlatAssembler.Constants
import FlatAssembler.Script.Number

/-!
# Globals of a defines script

A script leaves a table of globals behind. Those that have a name and are numbers become
constants: each must be an integer, and those that are not are reported together, by name.
-/

namespace FlatAssembler.Script

/-- What a global or a register holds. -/
inductive Value where
  | nil
  | bool (b : Bool)
  | number (x : Float)
  | string (text : Text)
  /-- A table other than those below. Nothing of it can be read back. -/
  | table
  /-- The table of the globals. -/
  | globals
  /-- A table of predefined functions. -/
  | library (name : Text)
  /-- A predefined function. -/
  | builtin (name : Text)
  deriving Repr

/-- What a global is filed under. -/
inductive Key where
  | name (text : Text)
  /-- Any other value. No script can refer to the entry again. -/
  | other (value : Value)
  deriving Repr

/-- The globals with their keys; each name occurs once. -/
abbrev Globals := List (Key × Value)

/-- The globals that have a name and are numbers. -/
def namedNumbers (globals : Globals) : List (Text × Float) :=
  globals.filterMap fun
    | (.name n, .number x) => some (n, x)
    | _ => none

/-- The integer as a constant. One that 64 bits do not hold becomes some number that they hold;
which one is up to the machine, here it is the least. -/
def constantOf (n : Int) : Int64 :=
  if -Literal.signedBound ≤ n ∧ n < Literal.signedBound then Int64.ofInt n else Int64.minValue

/-- The constants that the globals stand for, or the names of the numbers that are no integers, in
the order of their bytes. -/
def constantsOf (globals : Globals) : Except (List Text) Constants :=
  let numbers := (namedNumbers globals).map fun (n, x) => (n, (Exact.ofFloat x).toInt?)
  match numbers.filterMap fun (n, i) => if i.isNone then some n else none with
  | [] => .ok (numbers.filterMap fun (n, i) => i.map fun i => (n, constantOf i))
  | bad => .error (bad.mergeSort Text.le)

end FlatAssembler.Script
