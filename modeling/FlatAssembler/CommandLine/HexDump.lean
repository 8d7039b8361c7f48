import FlatAssembler.Text.Numeral

/-!
# Hex dumps

Sixteen bytes to a line: the offset, the bytes in two groups of eight, and what they are as text,
where a dot stands for a byte that is not printable ASCII.
-/

namespace FlatAssembler.CommandLine

/-- The bytes in groups of `size`, the last of which may be shorter. -/
def chunks {α : Type} (size : Nat) : Nat → List α → List (List α)
  | 0, _ => []
  | _ + 1, [] => []
  | n + 1, x :: xs => (x :: xs).take size :: chunks size n ((x :: xs).drop size)

namespace HexDump

def lineSize : Nat := 16

/-- The width of the column of bytes. -/
def columnWidth : Nat := 3 * lineSize + 2

/-- Two digits and a blank for each byte; one more blank after the first eight. -/
def column (bytes : List UInt8) : Text :=
  let digits := bytes.map fun b => Text.hex 2 b.toNat ++ [0x20]
  Text.concat (digits.take 8) ++ (if 8 ≤ bytes.length then [0x20] else []) ++
    Text.concat (digits.drop 8)

def shownByte (b : UInt8) : UInt8 := if 32 ≤ b && b ≤ 126 then b else '.'.toUInt8

def line (offset : Nat) (bytes : List UInt8) : Text :=
  let text := column bytes
  Text.concat [Text.hex 8 offset, "  ", text, List.replicate (columnWidth - text.length) 0x20, "|",
    bytes.map shownByte, "|\n"]

def linesFrom (offset : Nat) : List (List UInt8) → Text
  | [] => []
  | bytes :: rest => line offset bytes ++ linesFrom (offset + bytes.length) rest

end HexDump

/-- The dump of some bytes; nothing for none. -/
def hexDump (bytes : List UInt8) : Text :=
  HexDump.linesFrom 0 (chunks HexDump.lineSize bytes.length bytes)

end FlatAssembler.CommandLine
