import FlatAssembler.Text.Basic

/-!
# Blank characters

Which characters count as white space, and the two ways of getting rid of them: `Text.trim` drops
them at both ends and leaves every other byte alone, `Text.unspaced` drops them everywhere and
yields characters.
-/

namespace FlatAssembler

/-- White space: the tab-to-return controls, next line, and the separators of Unicode. -/
def isBlank (c : Char) : Bool :=
  let n := c.toNat
  (0x09 ≤ n && n ≤ 0x0d) || n == 0x20 || n == 0x85 || n == 0xa0 || n == 0x1680 ||
    (0x2000 ≤ n && n ≤ 0x200a) || n == 0x2028 || n == 0x2029 || n == 0x202f || n == 0x205f ||
    n == 0x3000

/-- The characters that are not blank, in their order. -/
def withoutBlanks (cs : List Char) : List Char := cs.filter fun c => !isBlank c

@[simp] theorem withoutBlanks_nil : withoutBlanks [] = [] := rfl

@[simp] theorem withoutBlanks_append (cs ds : List Char) :
    withoutBlanks (cs ++ ds) = withoutBlanks cs ++ withoutBlanks ds := by
  simp [withoutBlanks]

theorem withoutBlanks_eq_self {cs : List Char} (h : ∀ c ∈ cs, isBlank c = false) :
    withoutBlanks cs = cs := by
  simpa [withoutBlanks, List.filter_eq_self] using h

theorem isBlank_of_mem_withoutBlanks {c : Char} {cs : List Char} (h : c ∈ withoutBlanks cs) :
    isBlank c = false := by
  simpa using (List.mem_filter.1 h).2

@[simp] theorem withoutBlanks_withoutBlanks (cs : List Char) :
    withoutBlanks (withoutBlanks cs) = withoutBlanks cs :=
  withoutBlanks_eq_self fun _ h => isBlank_of_mem_withoutBlanks h

namespace Text

/-- A stray byte is no blank. -/
def Piece.isBlank : Piece → Bool
  | .char c => FlatAssembler.isBlank c
  | .stray _ => false

/-- The text without the blanks at its two ends. -/
def trim (t : Text) : Text :=
  (((t.pieces.dropWhile Piece.isBlank).reverse.dropWhile Piece.isBlank).reverse).flatMap Piece.bytes

/-- The characters of the text without any blank. -/
def unspaced (t : Text) : List Char := withoutBlanks t.chars

@[simp] theorem unspaced_ofChars (cs : List Char) : (ofChars cs).unspaced = withoutBlanks cs := by
  simp [unspaced]

end Text

end FlatAssembler
