import FlatAssembler.Script.Power
import FlatAssembler.Script.Token

/-!
# Programs of a defines script

A program is a list of assignments to globals, to entries of tables and to local names, and of calls
of functions whose results are not used. Expressions have the usual precedence: `+ -` bind least,
then `* / %`, then the negative sign, then `^`, which alone groups to the right. A parser returns
what it has read and the tokens behind it.
-/

namespace FlatAssembler.Script

/-- The operators between two operands. -/
inductive Arithmetic where
  | add
  | sub
  | mul
  | div
  | mod
  | pow
  deriving DecidableEq, Repr

namespace Arithmetic

/-- The operator that a mark is. -/
def ofMark? : Char → Option Arithmetic
  | '+' => some .add
  | '-' => some .sub
  | '*' => some .mul
  | '/' => some .div
  | '%' => some .mod
  | '^' => some .pow
  | _ => none

/-- How tightly the operator holds what stands on its left. -/
def leftBinding : Arithmetic → Nat
  | .add | .sub => 6
  | .mul | .div | .mod => 7
  | .pow => 10

/-- How tightly it holds what stands on its right. Less than on the left means that a chain of it
groups to the right. -/
def rightBinding : Arithmetic → Nat
  | .pow => 9
  | op => op.leftBinding

/-- How tightly a negative sign holds its operand. -/
def signBinding : Nat := 8

/-- The result in doubles. -/
def apply : Arithmetic → Float → Float → Float
  | .add, x, y => x + y
  | .sub, x, y => x - y
  | .mul, x, y => x * y
  | .div, x, y => x / y
  | .mod, x, y => remainder x y
  | .pow, x, y => power x y

end Arithmetic

/-- An expression. -/
inductive Expr where
  | nil
  | bool (b : Bool)
  | number (x : Float)
  | string (text : Text)
  | name (text : Text)
  | table (items : List Expr)
  | negate (e : Expr)
  | arithmetic (op : Arithmetic) (left right : Expr)
  deriving Repr

mutual

/-- The expression with every part replaced by its value that is made of numbers only. -/
def Expr.fold : Expr → Expr
  | .table items => .table (Expr.foldAll items)
  | .negate e =>
    match e.fold with
    | .number x => .number (-x)
    | e => .negate e
  | .arithmetic op left right =>
    match left.fold, right.fold with
    | .number x, .number y => .number (op.apply x y)
    | left, right => .arithmetic op left right
  | e => e

/-- The expressions, each folded. -/
def Expr.foldAll : List Expr → List Expr
  | [] => []
  | e :: es => e.fold :: Expr.foldAll es

end

/-- What can be assigned to: a name, or an entry of the table that a name stands for. -/
inductive Target where
  | name (text : Text)
  | entry (holder : Text) (key : Expr)
  deriving Repr

/-- One statement of a script. -/
inductive Command where
  | assign (targets : List Target) (values : List Expr)
  /-- Local names; without values they are nil. -/
  | declare (names : List Text) (values : List Expr)
  /-- A call of what a name stands for, or of an entry of it. -/
  | call (callee : Text) (entry : Option Text) (arguments : List Expr)
  deriving Repr

namespace Parse

/-- The tokens behind a mark that must come next. -/
def expect? (c : Char) : List Token → Option (List Token)
  | .mark d :: rest => if c = d then some rest else none
  | _ => none

mutual

/-- A constant, name, table, expression in parentheses, or any of these with a sign. -/
def operand? : Nat → List Token → Option (Expr × List Token)
  | 0, _ => none
  | _ + 1, .number x :: rest => some (.number x, rest)
  | _ + 1, .string s :: rest => some (.string s, rest)
  | _ + 1, .name n :: rest => some (.name n, rest)
  | _ + 1, .keyword k :: rest =>
    if k = Text.ofString "nil" then some (.nil, rest)
    else if k = Text.ofString "true" then some (.bool true, rest)
    else if k = Text.ofString "false" then some (.bool false, rest)
    else none
  | steps + 1, .mark c :: rest =>
    if c = '-' then
      (chain? steps Arithmetic.signBinding rest).map fun (e, rest) => (.negate e, rest)
    else if c = '(' then do
      let (e, rest) ← chain? steps 0 rest
      let rest ← expect? ')' rest
      return (e, rest)
    else if c = '\x7b' then
      (items? steps rest).map fun (es, rest) => (.table es, rest)
    else none
  | _ + 1, [] => none

/-- An operand and the operators behind it that bind more tightly than `limit`. -/
def chain? : Nat → (limit : Nat) → List Token → Option (Expr × List Token)
  | 0, _, _ => none
  | steps + 1, limit, tokens => do
    let (left, rest) ← operand? steps tokens
    continue? steps limit left rest

/-- Goes on with the operators that bind more tightly than `limit`. -/
def continue? : Nat → (limit : Nat) → Expr → List Token → Option (Expr × List Token)
  | 0, _, _, _ => none
  | steps + 1, limit, left, .mark c :: rest =>
    match Arithmetic.ofMark? c with
    | some op =>
      if limit < op.leftBinding then do
        let (right, rest) ← chain? steps op.rightBinding rest
        continue? steps limit (.arithmetic op left right) rest
      else some (left, .mark c :: rest)
    | none => some (left, .mark c :: rest)
  | _ + 1, _, left, rest => some (left, rest)

/-- The items of a table up to its closing brace. A divider may follow the last one. -/
def items? : Nat → List Token → Option (List Expr × List Token)
  | 0, _ => none
  | _ + 1, .mark '\x7d' :: rest => some ([], rest)
  | steps + 1, tokens => do
    let (e, rest) ← chain? steps 0 tokens
    match rest with
    | .mark '\x7d' :: rest => return ([e], rest)
    | .mark c :: rest =>
      if c = ',' ∨ c = ';' then
        let (es, rest) ← items? steps rest
        return (e :: es, rest)
      else none
    | _ => none

end

/-- More steps than any expression of these tokens takes. -/
def steps (tokens : List Token) : Nat := 4 * tokens.length + 4

/-- One expression. -/
def expression? (tokens : List Token) : Option (Expr × List Token) :=
  chain? (steps tokens) 0 tokens

/-- One or more of what `item?` reads, with commas between them. -/
def commaSeparated? {α : Type} (item? : List Token → Option (α × List Token)) :
    Nat → List Token → Option (List α × List Token)
  | 0, _ => none
  | steps + 1, tokens => do
    let (x, rest) ← item? tokens
    match rest with
    | .mark ',' :: rest =>
      let (xs, rest) ← commaSeparated? item? steps rest
      return (x :: xs, rest)
    | _ => return ([x], rest)

/-- One or more expressions with commas between them. -/
def expressions? (tokens : List Token) : Option (List Expr × List Token) :=
  commaSeparated? expression? tokens.length tokens

/-- A name. -/
def name? : List Token → Option (Text × List Token)
  | .name n :: rest => some (n, rest)
  | _ => none

/-- A name, or a name with a key in brackets. -/
def target? : List Token → Option (Target × List Token)
  | .name n :: .mark '[' :: rest => do
    let (key, rest) ← expression? rest
    let rest ← expect? ']' rest
    return (.entry n key, rest)
  | .name n :: rest => some (.name n, rest)
  | _ => none

/-- The arguments of a call, behind the opening parenthesis. -/
def arguments? : List Token → Option (List Expr × List Token)
  | .mark ')' :: rest => some ([], rest)
  | tokens => do
    let (values, rest) ← expressions? tokens
    let rest ← expect? ')' rest
    return (values, rest)

/-- One statement. -/
def command? (tokens : List Token) : Option (Command × List Token) :=
  match tokens with
  | .name callee :: .mark '(' :: rest => do
    let (arguments, rest) ← arguments? rest
    return (.call callee none arguments, rest)
  | .name callee :: .mark '.' :: .name entry :: .mark '(' :: rest => do
    let (arguments, rest) ← arguments? rest
    return (.call callee (some entry) arguments, rest)
  | .keyword word :: rest =>
    if word = Text.ofString "local" then do
      let (names, rest) ← commaSeparated? name? rest.length rest
      match expect? '=' rest with
      | none => return (.declare names [], rest)
      | some rest =>
        let (values, rest) ← expressions? rest
        return (.declare names values, rest)
    else none
  | _ => do
    let (targets, rest) ← commaSeparated? target? tokens.length tokens
    let rest ← expect? '=' rest
    let (values, rest) ← expressions? rest
    return (.assign targets values, rest)

/-- The commands of a script; semicolons between them are optional. -/
def commands? : Nat → List Token → Option (List Command)
  | _, [] => some []
  | 0, _ => none
  | steps + 1, .mark ';' :: rest => commands? steps rest
  | steps + 1, tokens => do
    let (command, rest) ← command? tokens
    let commands ← commands? steps rest
    return command :: commands

end Parse

/-- The commands of a script, if its text has the form of one. -/
def parse? (script : Text) : Option (List Command) := do
  let tokens ← Token.scan script
  Parse.commands? tokens.length tokens

end FlatAssembler.Script
