import FlatAssembler.FileSystem
import FlatAssembler.Text.Numeral
import FlatAssembler.Text.Quoted

/-!
# Faults

What can go wrong while source is assembled. A `Cause` says what happened, a `Kind` sorts causes
into the four classes that a caller can react to, and a `Fault` joins both with the source line to
which the failure is attributed. A fault gets its line once: `Report.locate` leaves a fault alone
that has a file already, so an enclosing line never takes the place of the innermost one.
-/

namespace FlatAssembler

/-- A line of a file, counted from zero. -/
structure Site where
  file : Text
  line : Nat
  deriving DecidableEq, Repr

/-- The class of a failure. Codes outside the four classes of an assembly can only be made by
hand. -/
inductive Kind where
  | fileInclusion
  | definition
  | unsupportedDirective
  | invalidValue
  | other (code : Int)
  deriving DecidableEq, Repr

namespace Kind

/-- The class with this number. -/
def ofCode (code : Int) : Kind :=
  if code = 1 then .fileInclusion
  else if code = 2 then .definition
  else if code = 3 then .unsupportedDirective
  else if code = 4 then .invalidValue
  else .other code

/-- The name of the class. -/
def message : Kind → Text
  | .fileInclusion => "file inclusion error"
  | .definition => "definition error"
  | .unsupportedDirective => "unsupported directive"
  | .invalidValue => "invalid value"
  | .other code => Text.concat ["Kind(", Text.signedDecimal code, ")"]

end Kind

/-- What went wrong. -/
inductive Cause where
  /-- A source file could not be read. -/
  | unreadable (failure : FileSystem.Failure)
  /-- A directive with a fixed number of arguments got another number of them. -/
  | wrongArity (directive : Text) (expected got : Nat)
  /-- A data directive got no argument. -/
  | noValues (directive : Text)
  /-- A constant was defined a second time. -/
  | alreadyDefined (name : Text)
  /-- No directive has this name. -/
  | unknownDirective (name : Text)
  /-- A text has no value. -/
  | notAValue (text : Text)
  /-- No label has this name. -/
  | unknownLabel (name : Text)
  /-- A divisor of the expression is zero. -/
  | divisionByZero (expression : Text)
  /-- A hexadecimal literal needs more than 64 bits. -/
  | hexOutOfRange (literal : Text)
  /-- A decimal literal is no signed 64-bit number. -/
  | decimalOutOfRange (literal : Text)
  /-- A failure of another origin, in its own words. -/
  | stated (message : Text)
  deriving DecidableEq, Repr

namespace Cause

/-- What happened, in words. -/
def message : Cause → Text
  | .unreadable failure => failure.message
  | .wrongArity directive expected got =>
    Text.concat [directive, " takes ", Text.decimal expected,
      if expected = 1 then " argument, got " else " arguments, got ", Text.decimal got]
  | .noValues directive => Text.concat [directive, " needs at least one value"]
  | .alreadyDefined name => Text.concat ["constant ", name, " already defined"]
  | .unknownDirective name => Text.concat ["unsupported directive .", name]
  | .notAValue text =>
    Text.concat [text.quoted, " is not a literal, constant, label or expression"]
  | .unknownLabel name => Text.concat ["unknown label ", name]
  | .divisionByZero expression => Text.concat ["division by zero in ", expression]
  | .hexOutOfRange literal => Text.concat ["hex literal ", literal, " out of range"]
  | .decimalOutOfRange literal => Text.concat ["decimal literal ", literal, " out of range"]
  | .stated message => message

/-- The class of a failure with this cause. -/
def kind : Cause → Kind
  | .unreadable _ => .fileInclusion
  | .unknownDirective _ => .unsupportedDirective
  | .notAValue _ | .unknownLabel _ => .invalidValue
  | .wrongArity .. | .noValues _ | .alreadyDefined _ | .divisionByZero _ | .hexOutOfRange _
  | .decimalOutOfRange _ | .stated _ => .definition

/-- The text that a failure with this cause is about while it has no source line. -/
def subject : Cause → Text
  | .unreadable failure => failure.path
  | .notAValue text => text
  | .unknownLabel name => name
  | _ => []

end Cause

/-- A failure of an assembly. An empty file name means that it has no source line; `text` is then
what the failure is about, and the source line otherwise. -/
structure Fault where
  kind : Kind
  file : Text := []
  line : Nat := 0
  text : Text := []
  cause : Option Cause := none
  deriving DecidableEq, Repr

/-- What a caller can ask of a failure: one question for each class of an assembly, and one for
slots that a move does not find in the output. -/
inductive Sentinel where
  | fileInclusion
  | definition
  | unsupportedDirective
  | invalidValue
  | slotOutOfRange
  deriving DecidableEq, Repr

namespace Fault

/-- Whether the failure is of the class that is asked for. -/
def is (f : Fault) : Sentinel → Bool
  | .fileInclusion => f.kind == .fileInclusion
  | .definition => f.kind == .definition
  | .unsupportedDirective => f.kind == .unsupportedDirective
  | .invalidValue => f.kind == .invalidValue
  | .slotOutOfRange => false

/-- The place if there is one, the class, the text if there is one, and the cause. -/
def message (f : Fault) : Text :=
  Text.concat [
    if f.file = [] then [] else Text.concat [f.file, ":", Text.decimal f.line, ": "],
    f.kind.message,
    if f.text = [] then [] else Text.concat [" in ", f.text.quoted],
    match f.cause with
    | none => []
    | some cause => Text.concat [": ", cause.message]]

end Fault

/-- A failure that no source line has been blamed for. -/
def Cause.unplaced (cause : Cause) : Fault :=
  { kind := cause.kind, text := cause.subject, cause := some cause }

/-- What the handling of a line can come back with: a bare cause, which may be left open, or a
fault. -/
inductive Report where
  | bare (cause : Option Cause)
  | fault (fault : Fault)
  deriving DecidableEq, Repr

namespace Report

/-- Blames the line `text` at `site`. A fault that has its file stays as it is, one without keeps
its class, and a bare cause counts as a definition error. -/
def locate (site : Site) (text : Text) : Report → Fault
  | .bare cause =>
    { kind := .definition, file := site.file, line := site.line, text, cause }
  | .fault f =>
    if f.file = [] then { f with file := site.file, line := site.line, text } else f

/-- The message of whichever it is. -/
def message : Report → Text
  | .bare cause => (cause.map Cause.message).getD []
  | .fault f => f.message

end Report

/-- The failure of the source line `text` at `site`, whose handling came back with this cause. -/
def Cause.onLine (cause : Cause) (site : Site) (text : Text) : Fault :=
  (Report.fault cause.unplaced).locate site text

end FlatAssembler
