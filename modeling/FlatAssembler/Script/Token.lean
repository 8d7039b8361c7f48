import FlatAssembler.Script.Numeral

/-!
# Tokens of a defines script

A script is read byte by byte: names are ASCII, a string holds whatever stands between its quotes,
and only blank, tab and the ends of lines divide tokens. A comment runs from two hyphens to the end
of the line, or is a long bracket. Escapes in strings, and operators beyond arithmetic, are not part
of the language; `Token.scan` refuses them.
-/

namespace FlatAssembler.Script

/-- A token of a script. -/
inductive Token where
  | name (text : Text)
  /-- A word that cannot be a name. -/
  | keyword (text : Text)
  | number (value : Float)
  | string (text : Text)
  /-- An operator, bracket or divider. -/
  | mark (c : Char)
  deriving Repr

namespace Token

/-- The bytes that divide tokens. -/
def isSpace (b : UInt8) : Bool :=
  b == ' '.toUInt8 || b == '\t'.toUInt8 || b == '\r'.toUInt8 || b == '\n'.toUInt8

/-- The bytes that end a line. -/
def isLineEnd (b : UInt8) : Bool := b == '\n'.toUInt8 || b == '\r'.toUInt8

/-- The character of a byte that is taken as such. -/
def charOf (b : UInt8) : Char := Char.ofNat b.toNat

/-- An ASCII digit. -/
def isDigit (b : UInt8) : Bool := Literal.isDecimalDigit (charOf b)

/-- A hexadecimal digit. -/
def isHexDigit (b : UInt8) : Bool := Literal.isHexDigit (charOf b)

/-- A letter or an underscore. -/
def startsName (b : UInt8) : Bool := (charOf b).isAlpha || charOf b == '_'

/-- A letter, an underscore or a digit. -/
def continuesName (b : UInt8) : Bool := startsName b || isDigit b

/-- The marks of the language. -/
def marks : List Char :=
  ['+', '-', '*', '/', '%', '^', '=', ',', ';', '.', '(', ')', '[', ']', '\x7b', '\x7d']

/-- The words that cannot be names. -/
def keywords : List String :=
  ["and", "break", "do", "else", "elseif", "end", "false", "for", "function", "goto", "if", "in",
   "local", "nil", "not", "or", "repeat", "return", "then", "true", "until", "while"]

/-- A word is a name unless it is a keyword. -/
def ofWord (word : Text) : Token :=
  if keywords.any fun k => Text.ofString k == word then .keyword word else .name word

/-- A byte that is in no numeral. -/
def noDigit : UInt8 := 0xff

/-- The first byte, whatever it is, and the digits behind it, divided from the rest. Where nothing
is left, a byte that spoils the numeral stands for it. -/
def takeDigits : Text → Text × Text
  | [] => ([noDigit], [])
  | b :: rest => (b :: rest.takeWhile isDigit, rest.dropWhile isDigit)

/-- The exponent at the front, if there is one, and the rest: the mark, a sign, and one byte more,
digit or not. -/
def takeExponent : Text → Text × Text
  | [] => ([], [])
  | b :: rest =>
    if b = 'e'.toUInt8 ∨ b = 'E'.toUInt8 then
      match rest with
      | s :: digits =>
        if s = '+'.toUInt8 ∨ s = '-'.toUInt8 then
          let (digits, rest) := takeDigits digits
          (b :: s :: digits, rest)
        else
          let (digits, rest) := takeDigits rest
          (b :: digits, rest)
      | [] => ([b], [])
    else ([], b :: rest)

/-- The bytes of the numeral at the front, and the rest. A point belongs to it with or without
digits behind. -/
def takeNumeral (t : Text) : Text × Text :=
  let (whole, rest) := takeDigits t
  let (places, rest) :=
    if rest.head? = some '.'.toUInt8 then takeDigits rest else ([], rest)
  let (exponent, rest) := takeExponent rest
  (whole ++ places ++ exponent, rest)

/-- The numeral at the front of a text that starts with a digit or a point, as a number, and the
rest. A malformed decimal counts as not a number; hexadecimal digits must be there. A zero in front
of other digits is dropped. -/
def number? (t : Text) : Option (Float × Text) :=
  let ofText (digits : Text) : Float := (numeral? (digits.map charOf)).getD notANumber
  match t with
  | zero :: b :: rest =>
    if zero = '0'.toUInt8 ∧ (charOf b).toLower = 'x' then
      let digits := rest.takeWhile isHexDigit
      if digits.isEmpty then none
      else some (ofText (zero :: b :: digits), rest.dropWhile isHexDigit)
    else
      let (digits, rest) := takeNumeral (if zero = '0'.toUInt8 ∧ isDigit b then b :: rest else t)
      some (ofText digits, rest)
  | _ =>
    let (digits, rest) := takeNumeral t
    some (ofText digits, rest)

/-- What stands between quotes, given the text behind the opening one, and the rest. -/
def quoted? (quote : UInt8) (t : Text) : Option (Text × Text) :=
  let content := t.takeWhile fun b => b != quote && !isLineEnd b && b != '\\'.toUInt8
  match t.drop content.length with
  | b :: rest => if b = quote then some (content, rest) else none
  | [] => none

/-- The text up to the first place where `mark` stands, and what follows it. -/
def upTo? (mark : Text) : Text → Option (Text × Text)
  | [] => none
  | b :: rest =>
    if mark.isPrefixOf (b :: rest) then some ([], (b :: rest).drop mark.length)
    else (upTo? mark rest).map fun (before, after) => (b :: before, after)

/-- Whether a long bracket begins here, behind its first bracket. -/
def startsLong : Text → Bool
  | [] => false
  | b :: _ => b == '['.toUInt8 || b == '='.toUInt8

/-- The text without a newline at its front. -/
def withoutNewline (t : Text) : Text := if t.head? = some '\n'.toUInt8 then t.tail else t

/-- The content of a long bracket, given the text behind its first bracket, and the rest: two
brackets with the same number of equals signs between them open and close it. A newline right
behind the opening does not count. -/
def long? (t : Text) : Option (Text × Text) :=
  let level := t.takeWhile (· == '='.toUInt8)
  match t.drop level.length with
  | b :: rest =>
    if b = '['.toUInt8 then
      upTo? (']'.toUInt8 :: level ++ [']'.toUInt8]) (withoutNewline rest)
    else none
  | [] => none

/-- What follows a comment, given the text behind the two hyphens. -/
def afterComment? (t : Text) : Option Text :=
  match t with
  | b :: rest =>
    if b = '['.toUInt8 ∧ startsLong rest then (long? rest).map Prod.snd
    else some (t.dropWhile fun b => !isLineEnd b)
  | [] => some []

/-- The tokens of a text, one for each step at most. -/
def scanFrom : Nat → Text → Option (List Token)
  | _, [] => some []
  | 0, _ => none
  | steps + 1, b :: rest =>
    let next := rest.headD 0
    if isSpace b then scanFrom steps rest
    else if startsName b then
      (scanFrom steps (rest.dropWhile continuesName)).map
        (ofWord (b :: rest.takeWhile continuesName) :: ·)
    else if isDigit b || (b == '.'.toUInt8 && isDigit next) then
      match number? (b :: rest) with
      | some (value, rest) => (scanFrom steps rest).map (.number value :: ·)
      | none => none
    else if b == '-'.toUInt8 && next == '-'.toUInt8 then
      match afterComment? (rest.drop 1) with
      | some rest => scanFrom steps rest
      | none => none
    else if b == '"'.toUInt8 || b == '\x27'.toUInt8 then
      match quoted? b rest with
      | some (text, rest) => (scanFrom steps rest).map (.string text :: ·)
      | none => none
    else if b == '['.toUInt8 && startsLong rest then
      match long? rest with
      | some (text, rest) => (scanFrom steps rest).map (.string text :: ·)
      | none => none
    else if marks.contains (charOf b) then (scanFrom steps rest).map (.mark (charOf b) :: ·)
    else none

/-- The text with one newline for every end of a line: a carriage return, a newline, or both in
either order. -/
def withNewlines : Text → Text
  | [] => []
  | [b] => if isLineEnd b then ['\n'.toUInt8] else [b]
  | b :: c :: rest =>
    if isLineEnd b then
      if isLineEnd c ∧ b ≠ c then '\n'.toUInt8 :: withNewlines rest
      else '\n'.toUInt8 :: withNewlines (c :: rest)
    else b :: withNewlines (c :: rest)

/-- The script without a first line that starts with a number sign. Of such a line that is not
ended by a newline, the last byte is left, and there must be one. -/
def withoutHeader? (script : Text) : Option Text :=
  match script with
  | b :: line =>
    if b = '#'.toUInt8 then
      match line.dropWhile (· != '\n'.toUInt8) with
      | [] => line.getLast?.map ([·])
      | rest => some rest
    else some script
  | [] => some []

/-- The tokens of a script. -/
def scan (script : Text) : Option (List Token) := do
  let body := withNewlines (← withoutHeader? script)
  scanFrom body.length body

end Token

end FlatAssembler.Script
