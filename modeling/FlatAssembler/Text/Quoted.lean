import FlatAssembler.Text.Numeral
import FlatAssembler.Text.Printable

/-!
# Quoted texts

Messages and dumps show a text between double quotes, so that it is clear where it begins and ends
and what is in it: a quote and a backslash get a backslash, what is not printable is written by its
number, and a stray byte can be told from the replacement character.
-/

namespace FlatAssembler.Text

/-- The letter that follows the backslash for a control character with a short name. -/
def controlLetter? (c : Char) : Option Char :=
  match c.toNat with
  | 0x07 => some 'a'
  | 0x08 => some 'b'
  | 0x09 => some 't'
  | 0x0a => some 'n'
  | 0x0b => some 'v'
  | 0x0c => some 'f'
  | 0x0d => some 'r'
  | _ => none

/-- One character between quotes of the kind `mark`. -/
def escapeChar (mark c : Char) : List Char :=
  if c == mark || c == '\\' then ['\\', c]
  else if isPrintable c then [c]
  else match controlLetter? c with
    | some letter => ['\\', letter]
    | none =>
      if c.toNat < 0x80 then '\\' :: 'x' :: hexDigits 2 c.toNat
      else if c.toNat < 0x10000 then '\\' :: 'u' :: hexDigits 4 c.toNat
      else '\\' :: 'U' :: hexDigits 8 c.toNat

/-- One piece between double quotes; a stray byte is written by its two digits. -/
def Piece.escape : Piece → List Char
  | .char c => escapeChar '"' c
  | .stray b => '\\' :: 'x' :: hexDigits 2 b.toNat

/-- The text between double quotes. -/
def quoted (t : Text) : Text :=
  ofChars ('"' :: (t.pieces.flatMap Piece.escape ++ ['"']))

/-- The character between single quotes. -/
def quotedChar (c : Char) : Text :=
  ofChars ('\x27' :: (escapeChar '\x27' c ++ ['\x27']))

example : quoted [0x61, 0x22, 0x0a, 0xff, 0x7f] = ofString "\"a\\\"\\n\\xff\\x7f\"" := by decide

example : quotedChar 'x' = ofString "\x27x\x27" := by decide

end FlatAssembler.Text
