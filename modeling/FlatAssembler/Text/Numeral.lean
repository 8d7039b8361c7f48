import FlatAssembler.Text.Basic

/-!
# Numerals

Numbers as they are written in messages and dumps: decimal without padding, hexadecimal with
digits of either case and an optional width that is filled with zeros.
-/

namespace FlatAssembler.Text

/-- The decimal numeral of a natural number. -/
def decimal (n : Nat) : Text := ofChars (Nat.toDigits 10 n)

/-- The decimal numeral of an integer, a negative one with its sign. -/
def signedDecimal : Int → Text
  | .ofNat n => decimal n
  | .negSucc n => '-'.toUInt8 :: decimal (n + 1)

/-- `cs` behind as many copies of `c` as its length misses of `width`. -/
def padLeft (width : Nat) (c : Char) (cs : List Char) : List Char :=
  List.replicate (width - cs.length) c ++ cs

/-- The hexadecimal digits of `n` in lower case, at least `width` of them. -/
def hexDigits (width n : Nat) : List Char := padLeft width '0' (Nat.toDigits 16 n)

/-- The hexadecimal numeral of `n` in lower case. -/
def hex (width n : Nat) : Text := ofChars (hexDigits width n)

/-- The hexadecimal numeral of `n` in upper case. -/
def upperHex (width n : Nat) : Text := ofChars ((hexDigits width n).map Char.toUpper)

theorem length_padLeft (width : Nat) (c : Char) (cs : List Char) :
    (padLeft width c cs).length = max width cs.length := by
  simp [padLeft]
  omega

end FlatAssembler.Text
