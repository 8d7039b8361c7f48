import FlatAssembler.Script.Globals
import FlatAssembler.Script.Program
import FlatAssembler.Text.Numeral

/-!
# Values of a defines script

What can be done with values while a script runs, and the table of the globals. That table is
itself a global, so that an entry can be made under any text.
-/

namespace FlatAssembler.Script

/-- Why a script does not run to its end. -/
inductive RunError where
  | arithmeticOn (value : Value)
  | notATable (value : Value)
  | keyIsNil
  | keyIsNaN
  | notAFunction (value : Value)
  /-- A predefined function was called in a way that is not provided for. -/
  | unsupportedCall (function : Text)
  /-- An operand names a constant that is not in the pool. -/
  | noConstant (i : Nat)
  deriving Repr

/-- The name of the kind of a value. -/
def Value.kindName : Value → Text
  | .nil => "nil"
  | .bool _ => "boolean"
  | .number _ => "number"
  | .string _ => "string"
  | .table | .globals | .library _ => "table"
  | .builtin _ => "function"

/-- What happened, in words. -/
def RunError.message : RunError → Text
  | .arithmeticOn v => Text.concat ["cannot perform arithmetic on a ", v.kindName, " value"]
  | .notATable v => Text.concat ["attempt to index a ", v.kindName, " value"]
  | .keyIsNil => "table index is nil"
  | .keyIsNaN => "table index is NaN"
  | .notAFunction v => Text.concat ["attempt to call a ", v.kindName, " value"]
  | .unsupportedCall function => Text.concat ["this call of ", function, " is not supported"]
  | .noConstant i => Text.concat ["there is no constant ", Text.decimal i]

/-! ### Globals -/

namespace Globals

/-- The functions that are there before a script runs. -/
def predefinedFunctions : List String :=
  ["_printregs", "assert", "collectgarbage", "dofile", "error", "getfenv", "getmetatable",
   "ipairs", "load", "loadfile", "loadstring", "module", "newproxy", "next", "pairs", "pcall",
   "print", "rawequal", "rawget", "rawset", "require", "select", "setfenv", "setmetatable",
   "tonumber", "tostring", "type", "unpack", "xpcall"]

/-- The libraries that are there before a script runs; each is a table. -/
def predefinedLibraries : List String :=
  ["channel", "coroutine", "debug", "io", "math", "os", "package", "string", "table"]

/-- The globals before a script runs. -/
def initial : Globals :=
  [(.name "_G", .globals), (.name "_VERSION", .string "Lua 5.1"),
   (.name "_GOPHER_LUA_VERSION", .string "GopherLua 0.1")] ++
  predefinedFunctions.map (fun n => (.name (Text.ofString n), .builtin n)) ++
  predefinedLibraries.map fun n => (.name (Text.ofString n), .library n)

/-- Whether an entry is filed under this name. -/
def isNamed (name : Text) : Key × Value → Bool
  | (.name n, _) => n == name
  | (.other _, _) => false

/-- The value of a global; nil if there is none. -/
def get (globals : Globals) (name : Text) : Value :=
  ((globals.find? (isNamed name)).map Prod.snd).getD .nil

/-- Gives a name a value; nil removes it. -/
def set (globals : Globals) (name : Text) (value : Value) : Globals :=
  let others := globals.filter fun g => !isNamed name g
  match value with
  | .nil => others
  | _ => others ++ [(.name name, value)]

/-- Files a value under a key, which must be neither nil nor NaN. -/
def put (globals : Globals) (key value : Value) : Except RunError Globals :=
  match key with
  | .nil => .error .keyIsNil
  | .string name => .ok (globals.set name value)
  | .number x => if x.isNaN then .error .keyIsNaN else .ok (globals ++ [(.other key, value)])
  | _ => .ok (globals ++ [(.other key, value)])

end Globals

/-! ### Arithmetic and texts -/

namespace Value

/-- The number that a value is in arithmetic: itself, or what its text spells. -/
def toNumber : Value → Except RunError Float
  | .number x => .ok x
  | .string text =>
    match numeral? text.chars with
    | some x => .ok x
    | none => .error (.arithmeticOn (.string text))
  | v => .error (.arithmeticOn v)

/-- The value with the opposite sign. -/
def negate (v : Value) : Except RunError Value := do
  return .number (-(← v.toNumber))

/-- The result of an operator. That of two numbers is never a zero with a sign. -/
def arithmetic (op : Arithmetic) : Value → Value → Except RunError Value
  | .number x, .number y => .ok (.number (unsignedZero (op.apply x y)))
  | left, right => do
    return .number (op.apply (← left.toNumber) (← right.toNumber))

/-- The text of a value as it is printed. Numbers other than 64-bit integers have none here, nor
have tables and functions. -/
def text? : Value → Option Text
  | .nil => some "nil"
  | .bool b => some (Text.ofString (if b then "true" else "false"))
  | .string text => some text
  | .number x => do
    let n ← (Exact.ofFloat x).toInt?
    if -Literal.signedBound ≤ n ∧ n < Literal.signedBound then some (Text.signedDecimal n)
    else none
  | .table | .globals | .library _ | .builtin _ => none

end Value

end FlatAssembler.Script
