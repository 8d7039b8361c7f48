import FlatAssembler.Script.Number

/-!
# Powers

A power with a whole exponent is computed by repeated squaring of the significand, which keeps it
exact as long as the result fits; only the fractional part of an exponent goes through the
logarithm and the exponential function. Both are computed here from the basic operations, so that
their last bit, which decides whether a root comes out as an integer, is part of the definition.
-/

namespace FlatAssembler.Script

/-! ### Logarithm -/

/-- The natural logarithm of a positive finite number. The significand is brought between the roots
of one half and of two; of what it exceeds one by, the logarithm is a polynomial in the square of
`s = f / (2 + f)`. The logarithm of the power of two comes in two parts, of which the first has
trailing zeros, so that it is exact when multiplied. Significand and power of two are what the bits
say with a leading one, also for a subnormal number, which has none and so counts as greater than it
is. -/
def naturalLog (x : Float) : Float :=
  let bits := x.toBits.toNat
  let significand := ofDyadic (bits % twoTo 52 + twoTo 52 : Nat) (-53)
  let exponent : Int := (bits / twoTo 52 : Nat) - 1022
  let low := significand ≤ 0.70710678118654752440
  let f := (if low then significand * 2.0 else significand) - 1.0
  let k := Float.ofInt (if low then exponent - 1 else exponent)
  let s := f / (2.0 + f)
  let s2 := s * s
  let s4 := s2 * s2
  let odd := s2 * (6.666666666666735130e-01 + s4 * (2.857142874366239149e-01 +
    s4 * (1.818357216161805012e-01 + s4 * 1.479819860511658591e-01)))
  let even := s4 * (3.999999999940941908e-01 + s4 * (2.222219843214978396e-01 +
    s4 * 1.531383769920937332e-01))
  let halfSquare := 0.5 * f * f
  let upper := 6.93147180369123816490e-01
  let lower := 1.90821492927058770002e-10
  k * upper - ((halfSquare - (s * (halfSquare + (odd + even)) + k * lower)) - f)

/-! ### Exponential -/

/-- The integer nearest to a number below `2 ^ 51`, a tie going to the even one: adding and
subtracting a number whose unit is one rounds so. -/
def nearestInteger (x : Float) : Float :=
  let shift : Float := 6755399441055744.0
  x + shift - shift

/-- The coefficients of the exponential series, from the eighth power down to the first; the
constant term is left out. -/
def exponentialSeries : List Float :=
  [2.4801587301587301587e-5, 1.9841269841269841270e-4, 1.3888888888888888889e-3,
   8.3333333333333333333e-3, 4.1666666666666666667e-2, 1.6666666666666666667e-1, 0.5, 1.0]

/-- The exponential function of a number of moderate size. With `n` times the logarithm of two
taken off, a sixteenth of the rest goes through the series. That gives the exponential less one,
and four times `y * (y + 2)` leads from a sixteenth to the whole. -/
def exponential (x : Float) : Float :=
  let n := nearestInteger (x * 1.4426950408889634074)
  let rest := fusedMultiplyAdd (-n) 0.69314718055966295651160180568695068359375 x
  let rest := fusedMultiplyAdd (-n) 0.28235290563031577122588448175013436025525412068e-12 rest
  let part := rest * 0.0625
  let series := exponentialSeries.foldl (fun sum c => fusedMultiplyAdd sum part c) 0.0
  let twice (y : Float) : Float := y * (y + 2.0)
  let y := twice (twice (twice (part * series)))
  let result := fusedMultiplyAdd (y + 2.0) y 1.0
  scaleByTwo result ((Exact.ofFloat n).toInt?.getD 0)

/-! ### Power -/

/-- Multiplies `acc * 2 ^ accExponent` by the power of `x * 2 ^ exponent` with a whole exponent,
squaring as many times as the first argument says at most. An exponent that has left the range of
doubles decides the result. -/
def powerBySquaring : Nat → (n : Nat) → (x : Float) → (exponent : Int) →
    (acc : Float) → (accExponent : Int) → Float × Int
  | 0, _, _, _, acc, accExponent => (acc, accExponent)
  | bits + 1, n, x, exponent, acc, accExponent =>
    if n = 0 then (acc, accExponent)
    else if exponent < -4096 || 4096 < exponent then (acc, accExponent + exponent)
    else
      let (acc, accExponent) :=
        if n % 2 = 1 then (acc * x, accExponent + exponent) else (acc, accExponent)
      let square := x * x
      if square < 0.5 then
        powerBySquaring bits (n / 2) (square + square) (exponent * 2 - 1) acc accExponent
      else powerBySquaring bits (n / 2) square (exponent * 2) acc accExponent

/-- The power of a finite base other than zero with a finite exponent. -/
def finitePower (x y : Float) : Float :=
  let whole := wholePart y.abs
  let fraction := y.abs - Float.ofNat whole
  if fraction != 0.0 && x < 0.0 then notANumber
  else if twoTo 63 ≤ whole then
    if x == -1.0 then 1.0
    else if (x.abs < 1.0) == (0.0 < y) then 0.0
    else 1.0 / 0.0
  else
    let (whole, fraction) :=
      if 0.5 < fraction then (whole + 1, fraction - 1.0) else (whole, fraction)
    let start := if fraction != 0.0 then exponential (fraction * naturalLog x) else 1.0
    let (significand, exponent) := significandAndExponent x
    let (acc, accExponent) := powerBySquaring 64 whole significand exponent start 0
    if y < 0.0 then scaleByTwo (1.0 / acc) (-accExponent) else scaleByTwo acc accExponent

/-- The power of a zero with an exponent other than zero. -/
def zeroPower (x y : Float) : Float :=
  if y < 0.0 then
    if isNegative x && isOdd y then -(1.0 / 0.0) else 1.0 / 0.0
  else if isNegative x && isOdd y then x else 0.0

/-- The power. Anything to the zeroth is one, and so is one to anything. -/
def power (x y : Float) : Float :=
  if y == 0.0 || x == 1.0 then 1.0
  else if y == 1.0 then x
  else if x.isNaN || y.isNaN then notANumber
  else if x == 0.0 then zeroPower x y
  else if y.isInf then
    if x == -1.0 then 1.0
    else if (x.abs < 1.0) == (0.0 < y) then 0.0
    else 1.0 / 0.0
  else if x.isInf then
    if x < 0.0 then zeroPower (-0.0) (-y)
    else if y < 0.0 then 0.0
    else 1.0 / 0.0
  else if y == 0.5 then x.sqrt
  else if y == -0.5 then 1.0 / x.sqrt
  else finitePower x y

end FlatAssembler.Script
