import FlatAssembler.Text.Blank
import FlatAssembler.Text.Split

/-!
# Statements

A source line holds an optional label, an optional directive and the arguments of the directive:

    NAME: .directive argument, argument @ comment

`Statement.parse` reads any line at all. A colon makes a label of the token before it, so the last
colon in front of the directive decides. The directive starts at the first dot that begins a token
and is followed by something other than a blank; a dot that stands alone is dropped. Behind the
directive's name blanks mean nothing and commas divide the arguments. `Statement.render` writes a
statement back as a line.
-/

namespace FlatAssembler

/-- What a source line says. An empty label or directive means that there is none. -/
structure Statement where
  label : Text := []
  directive : Text := []
  arguments : List Text := []
  deriving DecidableEq, Repr

namespace Statement

/-- The characters in front of the comment. -/
def uncommented (line : List Char) : List Char := line.takeWhile (· != '@')

/-- The arguments in the text behind a directive's name. -/
def argumentsOf (rest : List Char) : List Text :=
  if rest.all isBlank then []
  else (splitAt ',' rest).map fun part => Text.ofChars (withoutBlanks part)

/-- The statement whose directive starts at `body`, behind the dot. -/
def withDirective (label body : List Char) : Statement where
  label := Text.ofChars label
  directive := Text.ofChars (body.takeWhile fun c => !isBlank c)
  arguments := argumentsOf (body.dropWhile fun c => !isBlank c)

/-- Whether a directive starts here, behind a dot. -/
def startsDirective : List Char → Bool
  | [] => false
  | c :: _ => !isBlank c

/-- Reads the line from here on, given the last label so far and the token in progress, which is
kept last character first. -/
def scan (label token : List Char) : List Char → Statement
  | [] => { label := Text.ofChars label }
  | c :: rest =>
    if c = '.' ∧ token = [] then
      if startsDirective rest then withDirective label rest else scan label [] rest
    else if c = ':' then scan token.reverse [] rest
    else if isBlank c then scan label token rest
    else scan label (c :: token) rest

/-- The statement of a source line. -/
def parse (line : Text) : Statement := scan [] [] (uncommented line.chars)

/-- The statement as a line: label and colon, then dot, directive, blank and the arguments with
commas between them. -/
def render (s : Statement) : Text :=
  Text.concat [
    if s.label = [] then [] else Text.concat [s.label, ":"],
    if s.directive = [] then []
    else Text.concat [".", s.directive, " ", Text.joinWith "," s.arguments]]

end Statement

end FlatAssembler
