import FlatAssembler.Session.Basic
import FlatAssembler.Statement

/-!
# Directives

What a statement does to a session, one line at a time. The loading of an included file is not
done here: the include line itself only has to have one argument, and the lines of the file that
it names follow it in the stream of events.
-/

namespace FlatAssembler

/-- What the name of a directive stands for. -/
inductive Directive where
  /-- The line has no directive. -/
  | absent
  /-- Another file is assembled in this place. -/
  | inclusion
  /-- A constant is defined. -/
  | constant
  /-- A symbol is exported. -/
  | publication
  /-- Values are put out. -/
  | data (width : Width)
  /-- The rest of the file is not read. -/
  | stop
  /-- Accepted without effect. -/
  | ignored
  /-- There is no such directive. -/
  | unknown
  deriving DecidableEq, Repr

namespace Directive

/-- The directive of this name; case counts. -/
def ofName (name : Text) : Directive :=
  if name = [] then .absent
  else if name = "include" then .inclusion
  else if name = "equ" then .constant
  else if name = "global" then .publication
  else if name = "byte" then .data .byte
  else if name = "hword" then .data .half
  else if name = "word" ∨ name = "int" then .data .word
  else if name = "end" then .stop
  else if name = "section" ∨ name = "align" then .ignored
  else .unknown

end Directive

/-- What the directive of a statement stands for. -/
def Statement.action (st : Statement) : Directive := .ofName st.directive

/-- The path of the file that a statement in `file` includes. -/
def Statement.included? (file : Text) (st : Statement) : Option Text :=
  match st.action, st.arguments with
  | .inclusion, [argument] => some (Path.ofArgument file argument)
  | _, _ => none

namespace Session

/-- The failure of a statement with a wrong number of arguments. -/
def arityFailure (st : Statement) (expected : Nat) : Option Cause :=
  if st.arguments.length = expected then none
  else some (.wrongArity st.directive expected st.arguments.length)

/-- Carries out the directive of a statement. -/
def execute (s : Session) (st : Statement) : Session × Option Cause :=
  match st.action with
  | .absent | .stop | .ignored => (s, none)
  | .inclusion => (s, arityFailure st 1)
  | .constant =>
    match st.arguments with
    | [name, expression] => s.defineConstant name expression
    | _ => (s, arityFailure st 2)
  | .publication =>
    match st.arguments with
    | [name] => (s.exportSymbol name, none)
    | _ => (s, arityFailure st 1)
  | .data width =>
    if st.arguments = [] then (s, some (.noValues st.directive)) else s.emit width st.arguments
  | .unknown => (s, some (.unknownDirective st.directive))

/-- Binds the label of a statement, if it has one. -/
def bindLabel (s : Session) (st : Statement) : Session :=
  if st.label = [] then s else s.defineLabel st.label

/-- Assembles one source line: the label first, then the directive. A failure is blamed on the
line, and a line that put something out is listed. -/
def assembleLine (s : Session) (site : Site) (text : Text) : Session × Option Fault :=
  let st := Statement.parse text
  let s := { s with site }.bindLabel st
  match s.execute st with
  | (s', some cause) => (s', some (cause.onLine site text))
  | (s', none) => (s'.list s.bytes.size text.trim, none)

end Session

end FlatAssembler
