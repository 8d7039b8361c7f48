import FlatAssembler.CommandLine.HexDump
import FlatAssembler.Session.Basic

/-!
# Session dumps

A session as an indented tree of fields. The values of neighbouring fields are aligned with each
other; a field whose value takes several lines closes the group. A list stands on lines of its own,
unless it is empty or too long to be shown.
-/

namespace FlatAssembler.CommandLine

namespace Dump

/-- A value is the lines that show it. -/
abbrev Block := List Text

/-- Two blanks in front of every line. -/
def indent (b : Block) : Block := b.map fun line => Text.concat ["  ", line]

/-- The block with a comma behind its last line. -/
def withComma : Block → Block
  | [] => []
  | [line] => [Text.concat [line, ","]]
  | line :: rest => line :: withComma rest

/-- A heading in front of the first line. -/
def withHeading (heading : Text) : Block → Block
  | [] => [heading]
  | line :: rest => Text.concat [heading, line] :: rest

/-- A named value. -/
structure Field where
  name : Text
  value : Block

/-- The fields up to the first whose value takes several lines, which is the last of its group. -/
def groups : List Field → List (List Field)
  | [] => []
  | field :: rest =>
    match groups rest with
    | [] => [[field]]
    | group :: more =>
      if 1 < field.value.length then [field] :: group :: more else (field :: group) :: more

/-- The name and its colon, filled up to the width of the group. -/
def heading (width : Nat) (name : Text) : Text :=
  Text.concat [name, ":", List.replicate (width - name.length) 0x20, " "]

/-- The lines of a group, its values aligned. -/
def group (fields : List Field) : Block :=
  let width := (fields.map fun f => f.name.length).foldl max 0
  fields.flatMap fun f => withComma (withHeading (heading width f.name) f.value)

/-- A record of the given type. -/
def record (type : Text) (fields : List Field) : Block :=
  Text.concat [type, "\x7b"] :: indent ((groups fields).flatMap group) ++ [Text.ofString "\x7d"]

/-- The longest list that is shown. -/
def maxShown : Nat := 1024

/-- A list of the given type, whose elements `body` shows; `empty` stands for an empty one. -/
def list {α : Type} (type empty : Text) (body : List α → Block) (items : List α) : Block :=
  if items.isEmpty then [Text.concat [type, empty]]
  else if maxShown < items.length then [Text.concat [type, "\x7b...\x7d"]]
  else Text.concat [type, "\x7b"] :: indent (body items) ++ [Text.ofString "\x7d"]

/-- A text. -/
def quotedBlock (t : Text) : Block := [t.quoted]

/-- A number. -/
def natBlock (n : Nat) : Block := [Text.decimal n]

/-- A truth value. -/
def boolBlock (b : Bool) : Block := [Text.ofString (if b then "true" else "false")]

/-- A symbol. -/
def symbol (s : Symbol) : Block :=
  record "assembler.Symbol" [
    ⟨"Name", quotedBlock s.name⟩,
    ⟨"Offset", natBlock s.offset.toNat⟩,
    ⟨"Exported", boolBlock s.exported⟩]

/-- How many numbers stand on a line. -/
def perLine : Nat := 8

/-- Numbers with commas behind them. -/
def numbers (ns : List UInt32) : Block :=
  (chunks perLine ns.length ns).map fun line =>
    Text.joinWith " " (line.map fun n => Text.concat [Text.decimal n.toNat, ","])

/-- The session that assembled `file`. -/
def session (file : Text) (s : Session) : Block :=
  record "main.sessionDump" [
    ⟨"File", quotedBlock file⟩,
    ⟨"Base", natBlock s.base.toNat⟩,
    ⟨"Length", natBlock s.bytes.size⟩,
    ⟨"Symbols", list "[]assembler.Symbol" "\x7b\x7d"
      (fun symbols => symbols.flatMap fun x => withComma (symbol x)) s.symbols.sorted⟩,
    ⟨"Relocations", list "[]uint32" "(nil)" numbers s.relocations.toList⟩,
    ⟨"Warnings", list "[]string" "(nil)"
      (fun warnings => warnings.flatMap fun w => withComma (quotedBlock w.message))
      s.warnings.toList⟩]

end Dump

/-- The dump of the session that assembled `file`. -/
def dumpSession (file : Text) (s : Session) : Text :=
  Text.concat ((Dump.session file s).map fun line => Text.concat [line, "\n"])

end FlatAssembler.CommandLine
