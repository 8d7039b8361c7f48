import FlatAssembler.Constants
import FlatAssembler.Literal
import FlatAssembler.Symbol

/-!
# Expressions

The value of an argument. With its blanks removed, an argument is a literal, a constant or a
label, whichever fits first, or else a chain of operands that are combined strictly from left to
right, without precedence, in wrapping 64-bit arithmetic. A sign directly in front of an operand
belongs to it.

Evaluation only reads the session, through a `Scope`. What it leaves behind is the list of labels
that it consulted before it ended, with a value or with a failure, so that the caller can record
them: an `Evaluation` holds both.
-/

namespace FlatAssembler

/-- The operators of a chain. -/
inductive Operator where
  | add
  | sub
  | mul
  | div
  deriving DecidableEq, Repr

namespace Operator

/-- The operator that a character is. -/
def ofChar? : Char → Option Operator
  | '+' => some .add
  | '-' => some .sub
  | '*' => some .mul
  | '/' => some .div
  | _ => none

/-- The character that an operator is. -/
def toChar : Operator → Char
  | .add => '+'
  | .sub => '-'
  | .mul => '*'
  | .div => '/'

/-- The result in 64 bits. Division goes toward zero, and by zero there is none. -/
def apply (op : Operator) (a b : Int64) : Option Int64 :=
  match op with
  | .add => some (a + b)
  | .sub => some (a - b)
  | .mul => some (a * b)
  | .div => if b = 0 then none else some (a / b)

end Operator

/-- Whether the character is one of the four operators. -/
def isOperator (c : Char) : Bool := (Operator.ofChar? c).isSome

/-- The number with the sign applied. -/
def Sign.apply : Sign → Int64 → Int64
  | .plus, v => v
  | .minus, v => -v

/-- An operand of a chain, with its own sign, and the operator that takes it in. -/
structure Term where
  operator : Operator
  operand : List Char
  deriving DecidableEq, Repr

namespace Term

/-- The terms of the text from here on, given the last operator and the operand in progress,
which is kept last character first. -/
def splitFrom (operator : Operator) (operand : List Char) : List Char → List Term
  | [] => [⟨operator, operand.reverse⟩]
  | c :: rest =>
    match Operator.ofChar? c with
    | none => splitFrom operator (c :: operand) rest
    | some next =>
      if operand = [] ∧ (Sign.ofChar? c).isSome then splitFrom operator [c] rest
      else ⟨operator, operand.reverse⟩ :: splitFrom next [] rest

/-- The terms of a chain, which starts as if a plus stood in front of it. -/
def split (cs : List Char) : List Term := splitFrom .add [] cs

end Term

/-- The outcome of an evaluation: the labels that were consulted, in order, and the value or what
went wrong. -/
structure Evaluation where
  labels : List Text := []
  value : Except Cause Int64

namespace Evaluation

/-- An evaluation that ends at once. -/
def fail (cause : Cause) : Evaluation := { value := .error cause }

/-- Changes the value if there is one. -/
def map (f : Int64 → Int64) (e : Evaluation) : Evaluation := { e with value := e.value.map f }

/-- Goes on with the value if there is one; the labels of both parts count. -/
def andThen (e : Evaluation) (next : Int64 → Evaluation) : Evaluation :=
  match e.value with
  | .error _ => e
  | .ok v =>
    let rest := next v
    { labels := e.labels ++ rest.labels, value := rest.value }

end Evaluation

/-- What an expression can refer to. -/
structure Scope where
  base : UInt32
  constants : Constants
  symbols : SymbolTable

namespace Scope

/-- The address of an offset, which is not reduced to 32 bits. -/
def address (scope : Scope) (offset : UInt32) : Int64 :=
  Int64.ofNat scope.base.toNat + Int64.ofNat offset.toNat

/-- The value of a text that is a literal, a constant or a label, in this order. -/
def atom? (scope : Scope) (cs : List Char) : Option Evaluation :=
  match Literal.parse? cs with
  | some l => some { value := l.value }
  | none =>
    match scope.constants.get? (Text.ofChars cs) with
    | some v => some { value := .ok v }
    | none =>
      (scope.symbols.find (Text.ofChars cs)).map fun s =>
        { labels := [s.name], value := .ok (scope.address s.offset) }

/-- The value of a text that must be a literal, a constant or a label. -/
def atom (scope : Scope) (cs : List Char) : Evaluation :=
  (scope.atom? cs).getD (.fail (.notAValue (Text.ofChars cs)))

/-- The value of an operand of the chain `whole`. A sign and decimal digits are one literal; in
front of anything else a sign is applied to the value. -/
def operand (scope : Scope) (whole : List Char) : List Char → Evaluation
  | [] => .fail (.notAValue (Text.ofChars whole))
  | c :: rest =>
    match Sign.ofChar? c with
    | none => scope.atom (c :: rest)
    | some sign =>
      if rest = [] then .fail (.notAValue (Text.ofChars whole))
      else match Literal.parse? (c :: rest) with
        | some l => { value := l.value }
        | none => (scope.atom rest).map sign.apply

/-- Takes the terms of the chain `whole` into the accumulated value, one after the other. -/
def accumulate (scope : Scope) (whole : List Char) : List Term → Int64 → Evaluation
  | [], acc => { value := .ok acc }
  | term :: rest, acc =>
    (scope.operand whole term.operand).andThen fun v =>
      match term.operator.apply acc v with
      | none => .fail (.divisionByZero (Text.ofChars whole))
      | some acc => scope.accumulate whole rest acc

/-- The value of a text without blanks. -/
def evaluateChars (scope : Scope) (cs : List Char) : Evaluation :=
  match scope.atom? cs with
  | some e => e
  | none =>
    if cs.any isOperator then scope.accumulate cs (Term.split cs) 0
    else .fail (.notAValue (Text.ofChars cs))

/-- The value of an argument. -/
def evaluate (scope : Scope) (text : Text) : Evaluation := scope.evaluateChars text.unspaced

end Scope

end FlatAssembler
