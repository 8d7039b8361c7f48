/-!
# Text as bytes

Source lines, file names and arguments arrive as bytes that need not be well-formed UTF-8, and
what was read is written back unchanged. So a text is its list of bytes, and its characters are a
view of it: `Text.pieces` cuts it into characters and bytes that belong to none, and `Text.chars`
reads each such stray byte as U+FFFD. `Text.ofChars` goes back; `chars_ofChars` says that nothing
well-formed is lost on the way.
-/

namespace FlatAssembler

/-- A text is the list of its bytes. -/
abbrev Text := List UInt8

namespace Text

/-- A part of a text: a character in its well-formed encoding, or a byte outside of any. -/
inductive Piece where
  | char (c : Char)
  | stray (b : UInt8)
  deriving DecidableEq, Repr

/-- The character for which a stray byte is read. -/
def replacement : Char := '\ufffd'

/-- The character of a piece, where a stray byte counts as the replacement character. -/
def Piece.toChar : Piece → Char
  | .char c => c
  | .stray _ => replacement

/-- The bytes of a piece. -/
def Piece.bytes : Piece → Text
  | .char c => String.utf8EncodeChar c
  | .stray b => [b]

/-- The character with whose well-formed encoding the bytes begin. -/
def firstChar? (t : Text) : Option Char :=
  (t.take 4).toByteArray.utf8DecodeChar? 0

/-- The pieces of a text of which the first `skip` bytes are already accounted for. -/
def piecesFrom : Nat → Text → List Piece
  | _, [] => []
  | skip + 1, _ :: rest => piecesFrom skip rest
  | 0, b :: rest =>
    match firstChar? (b :: rest) with
    | some c => .char c :: piecesFrom (c.utf8Size - 1) rest
    | none => .stray b :: piecesFrom 0 rest

/-- The pieces of a text, from the left: the character that starts here if there is one, else one
stray byte. -/
def pieces (t : Text) : List Piece := piecesFrom 0 t

/-- The characters of a text; every stray byte is read as one replacement character. -/
def chars (t : Text) : List Char := t.pieces.map Piece.toChar

/-- The well-formed text of these characters. -/
def ofChars (cs : List Char) : Text := cs.flatMap String.utf8EncodeChar

/-- The text of a string. -/
def ofString (s : String) : Text := ofChars s.toList

instance : Coe String Text := ⟨ofString⟩

/-- The texts one after the other. -/
def concat (ts : List Text) : Text := ts.flatten

/-- The texts with `separator` between neighbours. -/
def joinWith (separator : Text) (ts : List Text) : Text := (ts.intersperse separator).flatten

/-- Order by bytes, the first difference deciding; a text comes after its own beginnings. -/
def le (s t : Text) : Bool := decide (s ≤ t)

/-! ### Characters and bytes -/

@[simp] theorem ofChars_nil : ofChars [] = [] := rfl

@[simp] theorem ofChars_cons (c : Char) (cs : List Char) :
    ofChars (c :: cs) = String.utf8EncodeChar c ++ ofChars cs := rfl

@[simp] theorem ofChars_append (cs ds : List Char) :
    ofChars (cs ++ ds) = ofChars cs ++ ofChars ds := by
  simp [ofChars]

theorem firstChar?_encode_append (c : Char) (t : Text) :
    firstChar? (String.utf8EncodeChar c ++ t) = some c := by
  have hlen : (String.utf8EncodeChar c).length ≤ 4 := by
    rw [String.length_utf8EncodeChar]
    exact Char.utf8Size_le_four c
  have h := @List.utf8DecodeChar?_utf8Encode_singleton_append
    (t.take (4 - (String.utf8EncodeChar c).length)).toByteArray c
  simpa [firstChar?, List.take_append, List.take_of_length_le hlen, List.utf8Encode] using h

theorem piecesFrom_eq_drop (n : Nat) (t : Text) : piecesFrom n t = piecesFrom 0 (t.drop n) := by
  induction t generalizing n with
  | nil => cases n <;> simp [piecesFrom]
  | cons b t ih =>
    cases n with
    | zero => rfl
    | succ n => simpa [piecesFrom] using ih n

@[simp] theorem pieces_nil : pieces [] = [] := rfl

@[simp] theorem pieces_encode_append (c : Char) (t : Text) :
    pieces (String.utf8EncodeChar c ++ t) = .char c :: pieces t := by
  have hsize := String.length_utf8EncodeChar c
  have hpos := Char.utf8Size_pos c
  have hfirst := firstChar?_encode_append c t
  cases he : String.utf8EncodeChar c with
  | nil => simp [he] at hsize; omega
  | cons b bs =>
    have hbs : bs.length = c.utf8Size - 1 := by simp [he] at hsize; omega
    rw [he] at hfirst
    simp only [List.cons_append] at hfirst
    simp only [pieces, List.cons_append, piecesFrom, hfirst]
    rw [piecesFrom_eq_drop, ← hbs, List.drop_left]

@[simp] theorem pieces_ofChars (cs : List Char) : pieces (ofChars cs) = cs.map .char := by
  induction cs with
  | nil => rfl
  | cons c cs ih => simp [ih]

/-- A well-formed text is read back character by character. -/
@[simp] theorem chars_ofChars (cs : List Char) : chars (ofChars cs) = cs := by
  simp [chars, Function.comp_def, Piece.toChar]

theorem ofChars_injective {cs ds : List Char} (h : ofChars cs = ofChars ds) : cs = ds := by
  rw [← chars_ofChars cs, h, chars_ofChars]

theorem joinWith_ofChars (separator : List Char) (parts : List (List Char)) :
    joinWith (ofChars separator) (parts.map ofChars) = ofChars (separator.intercalate parts) := by
  induction parts with
  | nil => rfl
  | cons part rest ih =>
    cases rest with
    | nil => simp [joinWith]
    | cons next rest =>
      rw [List.intercalate_cons_cons, ofChars_append, ofChars_append, ← ih]
      simp [joinWith]

/-! ### Order -/

theorem le_iff {s t : Text} : le s t = true ↔ s ≤ t := decide_eq_true_iff

theorem le_of_le_of_le (s t u : Text) (h : le s t = true) (h' : le t u = true) :
    le s u = true :=
  le_iff.mpr (List.le_trans (le_iff.mp h) (le_iff.mp h'))

theorem le_or_le (s t : Text) : (le s t || le t s) = true := by
  rw [Bool.or_eq_true, le_iff, le_iff]
  exact List.le_total s t

/-- Different texts are sorted into a row in which each is less than all behind it. -/
theorem pairwise_lt_mergeSort {texts : List Text} (h : texts.Nodup) :
    (texts.mergeSort le).Pairwise (· < ·) := by
  have hnodup : (texts.mergeSort le).Nodup := (List.mergeSort_perm texts le).nodup_iff.mpr h
  have hsorted := List.pairwise_mergeSort le_of_le_of_le le_or_le texts
  exact (hsorted.and hnodup).imp fun h => Std.lt_of_le_of_ne (le_iff.mp h.1) h.2

end Text

end FlatAssembler
