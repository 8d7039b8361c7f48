import FlatAssembler.Script.Number

/-!
# Numerals

The number that a text spells, in a script or in a string that takes part in arithmetic. A text is
read as a 64-bit integer if it is one, in the base that its first characters announce, and else as
a fraction, decimal or hexadecimal, with a point and an exponent. Underscores may divide digits.
-/

namespace FlatAssembler.Script

/-- The double nearest to `mantissa * 10 ^ exponent`, unless that is beyond all doubles. -/
def ofDecimal? (mantissa : Nat) (exponent : Int) : Option Float :=
  let magnitude : Int := (Nat.toDigits 10 mantissa).length + exponent
  if mantissa = 0 || magnitude < -400 then some 0.0
  else if 400 < magnitude then none
  else
    let x := Float.ofScientific mantissa (exponent < 0) exponent.natAbs
    if x.isInf then none else some x

namespace Numeral

/-- What divides digits. -/
def divider : Char := '_'

/-- Whether every divider has a digit on both sides; `afterDigit` says whether one stands in front
of the text. -/
def dividesDigits (isDigit : Char → Bool) : (afterDigit : Bool) → List Char → Bool
  | _, [] => true
  | afterDigit, c :: rest =>
    if c = divider then
      afterDigit && (rest.head?.map isDigit).getD false && dividesDigits isDigit false rest
    else dividesDigits isDigit (isDigit c) rest

/-- Whether the dividers of a numeral stand where they may: between digits, where the announcement
of a base counts as one. -/
def isDivided (cs : List Char) : Bool :=
  match cs with
  | '0' :: c :: digits =>
    match c.toLower with
    | 'x' => dividesDigits Literal.isHexDigit true digits
    | 'o' | 'b' => dividesDigits Literal.isDecimalDigit true digits
    | _ => dividesDigits Literal.isDecimalDigit false cs
  | _ => dividesDigits Literal.isDecimalDigit false cs

/-- The characters without the dividers. -/
def undivided (cs : List Char) : List Char := cs.filter (· != divider)

/-- The integer that a text without sign is: decimal, or in the base that a zero and a letter, or a
zero alone, announce. -/
def whole? (cs : List Char) : Option Nat :=
  let inBase (base : Nat) (digits : List Char) : Option Nat :=
    let digits := undivided digits
    if digits.all (fun c => Literal.isHexDigit c && Literal.digitValue c < base) && isDivided cs
    then some (Literal.ofDigits base digits)
    else none
  match cs with
  | [] => none
  | '0' :: c :: d :: digits =>
    match c.toLower with
    | 'x' => inBase 16 (d :: digits)
    | 'o' => inBase 8 (d :: digits)
    | 'b' => inBase 2 (d :: digits)
    | _ => inBase 8 (c :: d :: digits)
  | '0' :: digits => inBase 8 digits
  | _ => inBase 10 cs

/-- The number with these digits, of which those behind the fifth significant one are ignored: no
exponent of that size makes a difference to a numeral of ordinary length. -/
def exponentOfDigits (digits : List Char) : Nat :=
  digits.foldl (fun e c => if e < 10000 then e * 10 + Literal.digitValue c else e) 0

/-- The exponent that a text is: an optional sign and decimal digits. -/
def exponent? (cs : List Char) : Option Int :=
  match Literal.parse? cs with
  | some (.decimal (some .minus) digits) => some (-(exponentOfDigits digits : Int))
  | some (.decimal _ digits) => some (exponentOfDigits digits)
  | _ => none

/-- Digits with a point among them, and an exponent. -/
structure Fraction where
  digits : List Char
  /-- How many of the digits stand behind the point. -/
  places : Nat
  /-- The exponent; none if there is no mark of one. -/
  exponent : Option Int

/-- Reads a fraction whose exponent follows `mark`. -/
def Fraction.parse? (isDigit : Char → Bool) (mark : Char) (cs : List Char) : Option Fraction :=
  let isMark (c : Char) : Bool := c.toLower == mark
  let significand := cs.takeWhile fun c => !isMark c
  let before := significand.takeWhile (· != '.')
  let after := (significand.dropWhile (· != '.')).drop 1
  if !Literal.areDigits isDigit (before ++ after) then none
  else match cs.dropWhile fun c => !isMark c with
    | [] => some ⟨before ++ after, after.length, none⟩
    | _ :: rest => (exponent? rest).map fun e => ⟨before ++ after, after.length, some e⟩

/-- The double that a decimal fraction is. -/
def decimal? (cs : List Char) : Option Float := do
  let f ← Fraction.parse? Literal.isDecimalDigit 'e' cs
  ofDecimal? (Literal.ofDigits 10 f.digits) (f.exponent.getD 0 - f.places)

/-- The double that a hexadecimal fraction is, given what follows the announcement of the base. The
exponent, which must be there, counts powers of two. -/
def hexadecimal? (cs : List Char) : Option Float := do
  let f ← Fraction.parse? Literal.isHexDigit 'p' cs
  let x := ofDyadic (Literal.ofDigits 16 f.digits) ((← f.exponent) - 4 * f.places)
  if x.isInf then none else some x

/-- The double that a text without sign is. -/
def fraction? (cs : List Char) : Option Float :=
  if !isDivided cs then none
  else match undivided cs with
    | '0' :: c :: rest =>
      if c.toLower = 'x' then hexadecimal? rest else decimal? ('0' :: c :: rest)
    | digits => decimal? digits

/-- The infinity that a word names. -/
def infinity? (cs : List Char) : Option Float :=
  let word := String.ofList (cs.map Char.toLower)
  if word = "inf" || word = "infinity" then some (1.0 / 0.0) else none

/-- Whether a word says that there is no number. -/
def isNotANumber (cs : List Char) : Bool := String.ofList (cs.map Char.toLower) = "nan"

end Numeral

/-- The number that a text is, apart from blanks around it. -/
def numeral? (text : List Char) : Option Float :=
  let isEdge (c : Char) : Bool := c == ' ' || c == '\t' || c == '\n'
  let cs := ((text.dropWhile isEdge).reverse.dropWhile isEdge).reverse
  let (negative, body) : Bool × List Char :=
    match cs with
    | '-' :: rest => (true, rest)
    | '+' :: rest => (false, rest)
    | _ => (false, cs)
  let whole : Option Int := (Numeral.whole? body).map fun n => if negative then -(n : Int) else n
  match whole.filter fun n => -Literal.signedBound ≤ n && n < Literal.signedBound with
  | some n => some (Float.ofInt n)
  | none =>
    if Numeral.isNotANumber cs then some notANumber
    else (Numeral.infinity? body <|> Numeral.fraction? body).map fun x => if negative then -x else x

end FlatAssembler.Script
