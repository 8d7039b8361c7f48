import FlatAssembler.FileSystem
import FlatAssembler.Script.Value

/-!
# Code of a defines script

A script is run as a list of instructions on registers, with a pool of constants beside it. A local
name is a register. `Code.run` carries the instructions out one after the other; what is left of a
run are the globals, and what was printed and written until it ended or failed.

An instruction has eight bits for the register that it writes and nine for an operand, half of which
stand for constants. A greater number is not refused but loses its upper bits.
-/

namespace FlatAssembler.Script

/-- A constant that instructions refer to. -/
inductive Constant where
  | number (x : Float)
  | string (text : Text)
  deriving Repr

namespace Constant

/-- The value of a constant. -/
def value : Constant → Value
  | .number x => .number x
  | .string text => .string text

/-- Whether one constant can stand for the other: numbers if they compare equal, so that zeros of
either sign are one constant and not-a-number is never shared. -/
def agrees : Constant → Constant → Bool
  | .number x, .number y => x == y
  | .string s, .string t => s == t
  | _, _ => false

end Constant

/-- Where an instruction finds a value. -/
inductive Place where
  | register (r : Nat)
  | constant (i : Nat)
  deriving DecidableEq, Repr

/-- The number of registers that an instruction can name as the place of its result: eight bits. -/
def resultField : Nat := 256

/-- The number of values that an operand can have: nine bits. -/
def operandField : Nat := 512

namespace Place

/-- The operands from here on are constants, those below are registers. -/
def firstConstant : Nat := 256

/-- The place that an operand names; of a number that is too great, the upper bits are lost. -/
def ofOperand (n : Nat) : Place :=
  let n := n % operandField
  if n < firstConstant then .register n else .constant (n - firstConstant)

end Place

/-- One step of a run. Where it writes a register, that is `dest`. -/
inductive Instruction where
  | load (dest constant : Nat)
  /-- Makes the registers from `first` to `last` nil. -/
  | clear (first last : Nat)
  | loadBool (dest : Nat) (b : Bool)
  | move (dest source : Nat)
  | loadGlobal (dest : Nat) (name : Text)
  | storeGlobal (name : Text) (source : Nat)
  | newTable (dest : Nat)
  /-- Moves the items that stand behind a table into it. -/
  | fillTable (table : Nat)
  | storeEntry (table : Nat) (key value : Place)
  | negate (dest : Nat) (operand : Place)
  | arithmetic (op : Arithmetic) (dest : Nat) (left right : Place)
  /-- Takes an entry of a table by its name. -/
  | loadEntry (dest table : Nat) (name : Text)
  /-- Calls the function in a register with the values of the registers behind it. -/
  | call (function count : Nat)
  deriving Repr

namespace Instruction

/-- The instruction with its register numbers cut down to the bits that there are for them. The
second number of `clear` and of `move` has the room of an operand, any other that of a result. -/
def narrow : Instruction → Instruction
  | .load dest i => .load (dest % resultField) i
  | .clear first last => .clear (first % resultField) (last % operandField)
  | .loadBool dest b => .loadBool (dest % resultField) b
  | .move dest source => .move (dest % resultField) (source % operandField)
  | .loadGlobal dest name => .loadGlobal (dest % resultField) name
  | .storeGlobal name source => .storeGlobal name (source % resultField)
  | .newTable dest => .newTable (dest % resultField)
  | .fillTable table => .fillTable (table % resultField)
  | .storeEntry table key value => .storeEntry (table % resultField) key value
  | .negate dest operand => .negate (dest % resultField) operand
  | .arithmetic op dest left right => .arithmetic op (dest % resultField) left right
  | .loadEntry dest table name => .loadEntry (dest % resultField) (table % operandField) name
  | .call function count => .call (function % resultField) count

/-- The highest register that an instruction writes; zero if it writes none. -/
def highest : Instruction → Nat
  | .load dest _ | .loadBool dest _ | .move dest _ | .loadGlobal dest _ | .newTable dest
  | .negate dest _ | .arithmetic _ dest _ _ | .loadEntry dest _ _ => dest
  | .clear _ last => last
  | .call function count => function + count
  | .storeGlobal .. | .fillTable _ | .storeEntry .. => 0

end Instruction

/-- A script in the form in which it is run. -/
structure Code where
  constants : List Constant
  instructions : List Instruction
  deriving Repr

/-- What a run has come to. -/
structure Machine where
  registers : List Value
  globals : Globals
  /-- What was printed. -/
  output : Text := []
  files : FileSystem

namespace Machine

/-- What a register holds. -/
def get (m : Machine) (r : Nat) : Value := m.registers.getD r .nil

/-- Puts a value into a register. -/
def set (m : Machine) (r : Nat) (v : Value) : Machine :=
  { m with registers := m.registers.set r v }

/-- The value at a place. -/
def read (constants : List Constant) (m : Machine) : Place → Except RunError Value
  | .register r => .ok (m.get r)
  | .constant i =>
    match constants[i]? with
    | some c => .ok c.value
    | none => .error (.noConstant i)

/-- Makes `count` registers nil, from `first` on. -/
def clear (m : Machine) (first : Nat) : (count : Nat) → Machine
  | 0 => m
  | count + 1 => (m.set (first + count) .nil).clear first count

/-- Files a value under a key in a table. In a table that is not that of the globals the entry is
as good as forgotten, but its key must be a proper one. -/
def store (m : Machine) (holder key value : Value) : Except RunError Machine :=
  match holder with
  | .globals => do return { m with globals := ← m.globals.put key value }
  | .table | .library _ => do
    let _ ← Globals.put [] key value
    return m
  | v => .error (.notATable v)

/-- The entry of a table that is filed under a name. Of the libraries only the function is known
that opens a file. -/
def entryOf (m : Machine) (name : Text) : Value → Except RunError Value
  | .globals => .ok (m.globals.get name)
  | .library library =>
    .ok (if library = Text.ofString "io" ∧ name = Text.ofString "open" then .builtin "io.open"
      else .nil)
  | .table => .ok .nil
  | v => .error (.notATable v)

/-- Calls a function and drops its result. Values are printed on one line with tabs between them. A
file that is opened for writing is there and empty; if it cannot be opened nothing happens. -/
def call (m : Machine) (arguments : List Value) : Value → Except RunError Machine
  | .builtin name =>
    if name = Text.ofString "print" then
      match arguments.mapM Value.text? with
      | some texts =>
        .ok { m with output := Text.concat [m.output, Text.joinWith "\t" texts, "\n"] }
      | none => .error (.unsupportedCall name)
    else if name = Text.ofString "io.open" then
      match arguments with
      | [.string path, .string mode] =>
        if mode = Text.ofString "w" then
          match m.files.write path [] with
          | .ok files => .ok { m with files }
          | .error _ => .ok m
        else .error (.unsupportedCall name)
      | _ => .error (.unsupportedCall name)
    else .error (.unsupportedCall name)
  | v => .error (.notAFunction v)

/-- Carries out one instruction. -/
def step (constants : List Constant) (m : Machine) : Instruction → Except RunError Machine
  | .load dest i => do return m.set dest (← m.read constants (.constant i))
  | .clear first last => .ok (m.clear first (last + 1 - first))
  | .loadBool dest b => .ok (m.set dest (.bool b))
  | .move dest source => .ok (m.set dest (m.get source))
  | .loadGlobal dest name => .ok (m.set dest (m.globals.get name))
  | .storeGlobal name source => .ok { m with globals := m.globals.set name (m.get source) }
  | .newTable dest => .ok (m.set dest .table)
  | .fillTable _ => .ok m
  | .storeEntry table key value => do
    m.store (m.get table) (← m.read constants key) (← m.read constants value)
  | .negate dest operand => do
    return m.set dest (← (← m.read constants operand).negate)
  | .arithmetic op dest left right => do
    let l ← m.read constants left
    return m.set dest (← l.arithmetic op (← m.read constants right))
  | .loadEntry dest table name => do return m.set dest (← m.entryOf name (m.get table))
  | .call function count =>
    m.call ((List.range count).map fun i => m.get (function + 1 + i)) (m.get function)

/-- Carries out instructions until one of them fails. -/
def run (constants : List Constant) (m : Machine) : List Instruction → Machine × Option RunError
  | [] => (m, none)
  | i :: rest =>
    match m.step constants i with
    | .ok m => m.run constants rest
    | .error e => (m, some e)

end Machine

/-- The number of registers. -/
def registerCount : Nat := 200

/-- Runs a script on these files. -/
def Code.run (code : Code) (files : FileSystem) : Machine × Option RunError :=
  let start : Machine :=
    { registers := List.replicate registerCount .nil, globals := .initial, files }
  start.run code.constants code.instructions

end FlatAssembler.Script
