import FlatAssembler.Fault
import FlatAssembler.Text.Blank

/-!
# Number literals

A literal is `0x` and hexadecimal digits of either case, or decimal digits behind at most one sign.
Its shape and its value are two questions: `Literal.parse?` decides the first, and a literal of
any length has a mathematical value, `Literal.number`; `Literal.value` is the 64-bit number that it
stands for. A hexadecimal literal names the 64 bits, so it may come out negative; a decimal one
names the number.
-/

namespace FlatAssembler

/-- The sign in front of a decimal literal or an operand. -/
inductive Sign where
  | plus
  | minus
  deriving DecidableEq, Repr

namespace Sign

/-- The sign that a character is. -/
def ofChar? (c : Char) : Option Sign :=
  if c = '+' then some .plus else if c = '-' then some .minus else none

/-- The character that a sign is. -/
def toChar : Sign → Char
  | .plus => '+'
  | .minus => '-'

end Sign

/-- A text that has the shape of a number. -/
inductive Literal where
  | hex (digits : List Char)
  | decimal (sign : Option Sign) (digits : List Char)
  deriving DecidableEq, Repr

namespace Literal

/-- One of the ten ASCII digits. -/
def isDecimalDigit (c : Char) : Bool := '0' ≤ c && c ≤ '9'

/-- An ASCII digit or one of the letters up to `f`, in either case. -/
def isHexDigit (c : Char) : Bool :=
  isDecimalDigit c || ('a' ≤ c && c ≤ 'f') || ('A' ≤ c && c ≤ 'F')

/-- The value of a hexadecimal digit; a decimal digit is one. -/
def digitValue (c : Char) : Nat :=
  if isDecimalDigit c then c.toNat - '0'.toNat
  else if 'a' ≤ c then c.toNat - 'a'.toNat + 10
  else c.toNat - 'A'.toNat + 10

/-- The number with these digits, the most significant one first. -/
def ofDigits (base : Nat) (digits : List Char) : Nat :=
  digits.foldl (fun n c => n * base + digitValue c) 0

/-- One or more characters of a class. -/
def areDigits (isDigit : Char → Bool) (cs : List Char) : Bool := !cs.isEmpty && cs.all isDigit

/-- The decimal literal with this sign, if what follows are digits. -/
def decimal? (sign : Option Sign) (digits : List Char) : Option Literal :=
  if areDigits isDecimalDigit digits then some (.decimal sign digits) else none

/-- The literal that a text without blanks is. -/
def parse? : List Char → Option Literal
  | '0' :: 'x' :: digits => if areDigits isHexDigit digits then some (.hex digits) else none
  | [] => none
  | c :: rest =>
    match Sign.ofChar? c with
    | some sign => decimal? (some sign) rest
    | none => decimal? none (c :: rest)

/-- The text that a literal is. -/
def chars : Literal → List Char
  | .hex digits => '0' :: 'x' :: digits
  | .decimal none digits => digits
  | .decimal (some sign) digits => sign.toChar :: digits

/-- The mathematical value. -/
def number : Literal → Int
  | .hex digits => ofDigits 16 digits
  | .decimal (some .minus) digits => -(ofDigits 10 digits : Int)
  | .decimal _ digits => ofDigits 10 digits

/-- One more than the greatest number of 64 bits. -/
def unsignedBound : Int := 0x10000000000000000

/-- One more than the greatest signed number of 64 bits; the least one is its negative. -/
def signedBound : Int := 0x8000000000000000

/-- The 64-bit value: for hexadecimal digits the number with these bits, for decimal ones the
number itself. What does not fit has none. -/
def value (l : Literal) : Except Cause Int64 :=
  match l with
  | .hex _ =>
    if l.number < unsignedBound then .ok (Int64.ofInt l.number)
    else .error (.hexOutOfRange (Text.ofChars l.chars))
  | .decimal _ _ =>
    if -signedBound ≤ l.number ∧ l.number < signedBound then .ok (Int64.ofInt l.number)
    else .error (.decimalOutOfRange (Text.ofChars l.chars))

/-- The value of a text that is a literal in range once its blanks are removed. -/
def read? (text : Text) : Option Int64 :=
  match parse? text.unspaced with
  | some l => l.value.toOption
  | none => none

end Literal

end FlatAssembler
