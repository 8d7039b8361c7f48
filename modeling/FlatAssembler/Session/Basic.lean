import FlatAssembler.Expression
import FlatAssembler.LittleEndian
import FlatAssembler.Session.Listing
import FlatAssembler.Session.Notice

/-!
# Assembly sessions

A session is everything that source lines build up: the output, the symbols and constants, the
offsets of the slots that depend on the load address, and the notes for the user (warnings,
statuses, listing). It also knows the base address for which its output is encoded, and where in
the source it stands.

Output is only ever appended. A value goes into a slot of one, two or four bytes; a label that is
consulted on the way marks the slot for relocation. Slots are relocated as words, so a label in a
narrower slot, or outside of any, is a hazard: it is marked with a warning, or in strict mode not
at all.
-/

namespace FlatAssembler

/-- The state of an assembly. -/
structure Session where
  /-- The address for which the output is encoded. -/
  base : UInt32 := 0
  constants : Constants := []
  /-- Whether only words are relocated. -/
  strict : Bool := false
  /-- Whether lines are listed. -/
  listed : Bool := false
  bytes : Array UInt8 := #[]
  symbols : SymbolTable := []
  /-- The offsets of the slots that depend on the base, in the order of recording. -/
  relocations : Array UInt32 := #[]
  /-- The cleaned paths that were requested so far. -/
  loaded : List Text := []
  warnings : Array Warning := #[]
  statuses : Array Status := #[]
  listing : Array ListingEntry := #[]
  /-- The line that is being assembled. -/
  site : Site := ⟨[], 0⟩
  /-- The slot that is being filled. -/
  slot : Option Width := none
  deriving DecidableEq, Repr

namespace Session

/-- The end of the output as a 32-bit offset. -/
def cursor (s : Session) : UInt32 := UInt32.ofNat s.bytes.size

/-- What expressions see of the session. -/
def scope (s : Session) : Scope where
  base := s.base
  constants := s.constants
  symbols := s.symbols

/-- Notes that a label was consulted for the value that comes next. -/
def recordLabel (s : Session) (label : Text) : Session :=
  if s.slot = some .word then { s with relocations := s.relocations.push s.cursor }
  else if s.strict then s
  else { s with
    warnings := s.warnings.push { site := s.site, label, slot := s.slot }
    relocations := s.relocations.push s.cursor }

/-- Notes the labels of an evaluation. -/
def record (s : Session) (labels : List Text) : Session := labels.foldl recordLabel s

/-- Evaluates a text at the end of the output. -/
def evaluate (s : Session) (text : Text) : Session × Except Cause Int64 :=
  let e := s.scope.evaluate text
  (s.record e.labels, e.value)

/-- Appends a slot with the low bytes of a value. -/
def append (s : Session) (width : Width) (value : Int64) : Session :=
  { s with bytes := s.bytes ++ LittleEndian.encode width.size value.toUInt64.toNat }

/-- Fills one slot after the other until an argument has no value. -/
def fill (s : Session) (width : Width) : List Text → Session × Option Cause
  | [] => (s, none)
  | argument :: rest =>
    match s.evaluate argument with
    | (s, .error cause) => (s, some cause)
    | (s, .ok v) => (s.append width v).fill width rest

/-- Fills slots of one width; outside of that no slot is being filled. -/
def emit (s : Session) (width : Width) (arguments : List Text) : Session × Option Cause :=
  let r := { s with slot := some width }.fill width arguments
  ({ r.1 with slot := none }, r.2)

/-- Binds a label to the end of the output. -/
def defineLabel (s : Session) (name : Text) : Session :=
  { s with symbols := s.symbols.define name s.cursor }

/-- Marks a symbol as exported. -/
def exportSymbol (s : Session) (name : Text) : Session :=
  { s with symbols := s.symbols.publish name }

/-- Defines a constant by an expression. A name is defined once, and for a name that is taken the
expression is not looked at. -/
def defineConstant (s : Session) (name expression : Text) : Session × Option Cause :=
  match s.constants.get? name with
  | some _ => (s, some (.alreadyDefined name))
  | none =>
    match s.evaluate expression with
    | (s, .error cause) => (s, some cause)
    | (s, .ok v) => ({ s with constants := s.constants.add name v }, none)

/-- Lists a line if it put out anything since the output had the size `start`. -/
def list (s : Session) (start : Nat) (source : Text) : Session :=
  if s.listed && start < s.bytes.size then
    { s with
      listing := s.listing.push
        (.ofBytes (s.base + UInt32.ofNat start) (s.bytes.extract start).toList source) }
  else s

/-- Adds a status. -/
def note (s : Session) (status : Status) : Session :=
  { s with statuses := s.statuses.push status }

/-- The offset of a label. -/
def label (s : Session) (name : Text) : Except Fault UInt32 :=
  match s.symbols.find name with
  | some symbol => .ok symbol.offset
  | none => .error (Cause.unknownLabel name).unplaced

end Session

end FlatAssembler
