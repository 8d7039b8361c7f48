import FlatAssembler.Literal

/-!
# Script numbers

Every number of a defines script is a double. Arithmetic rounds as doubles do; which integer a
number is, if it is one, is decided exactly, on the dyadic rational that the bits stand for. The
same dyadic rationals serve where a result is to be rounded only once: `ofDyadic` gives the nearest
double, and remainder, fused product and scaling are built on it.

The remainder takes the sign of the divisor.
-/

namespace FlatAssembler.Script

/-- The exact value of a double. -/
inductive Exact where
  /-- The number `mantissa * 2 ^ exponent`. -/
  | finite (mantissa exponent : Int)
  | infinite
  | notANumber
  deriving DecidableEq, Repr

/-- A power of two. -/
def twoTo (n : Nat) : Nat := Nat.pow 2 n

namespace Exact

/-- The value that a double's 64 bits stand for: sign, eleven bits of exponent, and a fraction
that has a hidden leading bit unless the exponent bits are zero. -/
def ofBits (bits : Nat) : Exact :=
  let exponent : Nat := bits / twoTo 52 % twoTo 11
  let fraction : Nat := bits % twoTo 52
  let sign : Int := if bits < twoTo 63 then 1 else -1
  if exponent = 2047 then
    if fraction = 0 then .infinite else .notANumber
  else if exponent = 0 then .finite (sign * fraction) (-1074)
  else .finite (sign * (fraction + twoTo 52 : Nat)) ((exponent : Int) - 1075)

/-- The exact value of a number. -/
def ofFloat (x : Float) : Exact := ofBits x.toBits.toNat

/-- The integer that the value is, if it is one. -/
def toInt? : Exact → Option Int
  | .finite mantissa exponent =>
    if 0 ≤ exponent then some (mantissa * twoTo exponent.toNat)
    else if mantissa % twoTo (-exponent).toNat = 0 then some (mantissa / twoTo (-exponent).toNat)
    else none
  | .infinite | .notANumber => none

end Exact

/-- Not a number. -/
def notANumber : Float := 0.0 / 0.0

/-- Whether a number has the sign bit. -/
def isNegative (x : Float) : Bool := twoTo 63 ≤ x.toBits.toNat

/-- Whether a number is an odd integer. Beyond `2 ^ 53` there is none. -/
def isOdd (x : Float) : Bool :=
  match (Exact.ofFloat x).toInt? with
  | some n => n.natAbs < twoTo 53 && n % 2 == 1
  | none => false

/-- A zero without its sign, any other number as it is. -/
def unsignedZero (x : Float) : Float := if x == 0.0 then 0.0 else x

/-! ### Rounding -/

/-- The number of binary digits. -/
def bitLength (n : Nat) : Nat := if n = 0 then 0 else n.log2 + 1

/-- The quotient by a power of two, rounded to the nearest integer, a tie to the even one. -/
def shiftRounded (n places : Nat) : Nat :=
  let divisor := twoTo places
  let quotient := n / divisor
  let excess := 2 * (n % divisor)
  if divisor < excess || (excess == divisor && quotient % 2 == 1) then quotient + 1 else quotient

/-- The double nearest to `mantissa * 2 ^ exponent`, a tie going to the even significand; infinity
from where the greatest double would be exceeded. With `unit` as the weight of the last of at most
53 bits, the significand added to the exponent bits carries its leading bit into them. -/
def ofDyadic (mantissa exponent : Int) : Float :=
  let size := mantissa.natAbs
  let top := exponent + bitLength size
  let unit := max (top - 53) (-1074)
  let bits : Nat :=
    if size = 0 || top < -1074 then 0
    else
      let significand :=
        if unit ≤ exponent then size * twoTo (exponent - unit).toNat
        else shiftRounded size (unit - exponent).toNat
      min ((unit + 1074).toNat * twoTo 52 + significand) (2047 * twoTo 52)
  Float.ofBits (UInt64.ofNat (if mantissa < 0 then bits + twoTo 63 else bits))

/-- The number times a power of two. -/
def scaleByTwo (x : Float) (n : Int) : Float :=
  match Exact.ofFloat x with
  | .finite mantissa exponent => if mantissa = 0 then x else ofDyadic mantissa (exponent + n)
  | _ => x

/-- The significand, which is at least one half and less than one, and the power of two, of a finite
number other than zero. -/
def significandAndExponent (x : Float) : Float × Int :=
  match Exact.ofFloat x with
  | .finite mantissa exponent =>
    let bits := bitLength mantissa.natAbs
    (ofDyadic mantissa (-bits), exponent + bits)
  | _ => (x, 0)

/-- The whole part of a finite number that is not negative. -/
def wholePart (x : Float) : Nat :=
  match Exact.ofFloat x with
  | .finite mantissa exponent =>
    if 0 ≤ exponent then mantissa.toNat * twoTo exponent.toNat
    else mantissa.toNat / twoTo (-exponent).toNat
  | _ => 0

/-- The product plus a number, rounded once. -/
def fusedMultiplyAdd (x y z : Float) : Float :=
  match Exact.ofFloat x, Exact.ofFloat y, Exact.ofFloat z with
  | .finite a d, .finite b e, .finite c f =>
    let unit := min (d + e) f
    ofDyadic (a * b * twoTo (d + e - unit).toNat + c * twoTo (f - unit).toNat) unit
  | _, _, _ => x * y + z

/-! ### Remainder -/

/-- The remainder of the division toward zero, which is exact; it has the sign of the dividend. -/
def truncatedRemainder (x y : Float) : Float :=
  match Exact.ofFloat x, Exact.ofFloat y with
  | .finite m e, .finite n f =>
    if n = 0 then notANumber
    else
      let unit := min e f
      let r := Int.tmod (m * twoTo (e - unit).toNat) (n * twoTo (f - unit).toNat)
      if r = 0 then (if isNegative x then -0.0 else 0.0) else ofDyadic r unit
  | .finite _ _, .infinite => x
  | _, _ => notANumber

/-- The remainder that takes the sign of the divisor. -/
def remainder (x y : Float) : Float :=
  let r := truncatedRemainder x y
  if (0.0 < y && r < 0.0) || (y < 0.0 && 0.0 < r) then r + y else r

end FlatAssembler.Script
