import FlatAssembler.Fault

/-!
# Notices

What a session tells about a run that goes on: a warning for each label that is relocated although
it was not used as a word, and a status for each request to load a path.
-/

namespace FlatAssembler

/-- The width of a slot. -/
inductive Width where
  | byte
  | half
  | word
  deriving DecidableEq, Repr

/-- The number of bytes of a slot. -/
def Width.size : Width → Nat
  | .byte => 1
  | .half => 2
  | .word => 4

/-- A label was consulted for something that is not a word, and is relocated as one. -/
structure Warning where
  site : Site
  label : Text
  /-- The slot in which the label was used, if it was used in one. -/
  slot : Option Width
  deriving DecidableEq, Repr

/-- The line, the label, and where it was used. -/
def Warning.message (w : Warning) : Text :=
  Text.concat [w.site.file, ":", Text.decimal w.site.line, ": label ", w.label, " used ",
    match w.slot with
    | none => "outside a data slot"
    | some width => Text.concat ["in a ", Text.decimal width.size, "-byte slot"],
    " is relocated as 4 bytes"]

/-- How a request to load a path ended. -/
inductive Status where
  | loaded (path : Text)
  | alreadyLoaded (path : Text)
  deriving DecidableEq, Repr

/-- The path as it was requested, and how the request ended. -/
def Status.message : Status → Text
  | .loaded path => Text.concat [path, " loaded with no issues"]
  | .alreadyLoaded path => Text.concat [path, " was already loaded"]

end FlatAssembler
