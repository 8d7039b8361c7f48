import FlatAssembler.Text.LowerCase

/-!
# Suggestions

A word that is no command is compared with the commands there are. One is suggested if it starts
with the word, or if at most two bytes have to be put in, left out or changed to get from one to
the other, both in lower case.
-/

namespace FlatAssembler.CommandLine

/-- The next row of the table of distances: those from one byte more of the one text, which is `x`,
to the beginnings of `word`. -/
def nextRow (x : UInt8) : (word : Text) → (diagonal left : Nat) → (above : List Nat) → List Nat
  | y :: word, diagonal, left, up :: above =>
    let d := if x = y then diagonal else 1 + min diagonal (min left up)
    d :: nextRow x word up d above
  | _, _, _, _ => []

/-- The number of bytes that have to be put in, left out or changed to get from one text to the
other. -/
def editDistance (typed word : Text) : Nat :=
  let row := typed.foldl
    (fun row x =>
      match row with
      | [] => []
      | first :: above => (first + 1) :: nextRow x word first (first + 1) above)
    (List.range (word.length + 1))
  row.getLastD 0

/-- The distance up to which a command is suggested. -/
def suggestionDistance : Nat := 2

/-- The commands that may be meant by a word. -/
def suggestions (commands : List Text) (typed : Text) : List Text :=
  let typed := typed.lowerCase
  commands.filter fun c =>
    editDistance typed c.lowerCase ≤ suggestionDistance || typed.isPrefixOf c.lowerCase

example : editDistance (Text.ofString "kitten") (Text.ofString "sitting") = 3 := by decide +kernel

end FlatAssembler.CommandLine
