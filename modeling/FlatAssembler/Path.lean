import FlatAssembler.Text.Basic
import FlatAssembler.Text.Split

/-!
# Paths

A path is a text whose parts are divided by slashes. `Path.clean` brings it to the shortest text
that names the same place when every part is a directory: empty parts and `.` go, `..` takes the
part before it away. It is computed on the parts alone, by one fold of `Path.push`, so that the
walk through a file system, which folds over the same parts, can be compared with it.
-/

namespace FlatAssembler.Path

/-- The byte that divides the parts of a path. -/
def slash : UInt8 := '/'.toUInt8

/-- The part that stays where it is. -/
def dot : Text := ['.'.toUInt8]

/-- The part that goes up. -/
def dotDot : Text := ['.'.toUInt8, '.'.toUInt8]

/-- Whether the path starts at the root. -/
def isAbsolute (path : Text) : Bool := path.head? == some slash

/-- The parts of a path, the empty ones included. -/
def parts (path : Text) : List Text := splitAt slash path

/-- Takes one more part into a cleaned path, which is kept with its last part first. -/
def push (rooted : Bool) (stack : List Text) (part : Text) : List Text :=
  if part = [] ∨ part = dot then stack
  else if part = dotDot then
    match stack with
    | [] => if rooted then [] else [dotDot]
    | top :: below => if top = dotDot then dotDot :: top :: below else below
  else part :: stack

/-- The parts that remain of a path once it is cleaned. -/
def cleanParts (path : Text) : List Text :=
  ((parts path).foldl (push (isAbsolute path)) []).reverse

/-- The parts with a slash between neighbours. -/
def ofParts (ps : List Text) : Text := Text.joinWith [slash] ps

/-- The relative path with these parts; no part at all is the current directory. -/
def relative (ps : List Text) : Text := if ps = [] then dot else ofParts ps

/-- The shortest equivalent path by its text alone. -/
def clean (path : Text) : Text :=
  if isAbsolute path then slash :: ofParts (cleanParts path) else relative (cleanParts path)

/-- The text behind the last slash. -/
def lastPart (path : Text) : Text := (path.reverse.takeWhile (· != slash)).reverse

/-- The cleaned path of the directory that holds the last part. -/
def directory (path : Text) : Text :=
  clean (path.take (path.length - (lastPart path).length))

/-- The last part from its last dot on, or nothing if it has no dot. -/
def suffix (path : Text) : Text :=
  let name := (lastPart path).reverse
  if name.contains '.'.toUInt8 then
    (name.takeWhile (· != '.'.toUInt8)).reverse.cons '.'.toUInt8
  else []

/-- The path without its suffix. -/
def withoutSuffix (path : Text) : Text := path.take (path.length - (suffix path).length)

/-- The cleaned path that starts in `base` and goes on along `path`. -/
def join (base path : Text) : Text := clean (base ++ slash :: path)

/-- Whether a byte is one of the two quotation marks. -/
def isQuote (b : UInt8) : Bool := b == '"'.toUInt8 || b == '\x27'.toUInt8

/-- A text without the quotation marks at its two ends, however many there are. -/
def unquote (t : Text) : Text := ((t.dropWhile isQuote).reverse.dropWhile isQuote).reverse

/-- The path that an argument names inside `file`: an absolute one as it stands, any other
relative to the directory of `file`. -/
def ofArgument (file argument : Text) : Text :=
  let path := unquote argument
  if isAbsolute path then path else join (directory file) path

example : clean (Text.ofString "a/./b//../c/") = Text.ofString "a/c" := by decide

example : clean (Text.ofString "/../x") = Text.ofString "/x" := by decide

example : clean (Text.ofString "../a/../../b") = Text.ofString "../../b" := by decide

example :
    ofArgument (Text.ofString "d/m.s") (Text.ofString "\"../x.s\"") = Text.ofString "x.s" := by
  decide

end FlatAssembler.Path
