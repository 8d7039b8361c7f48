import FlatAssembler.CommandLine.Command
import FlatAssembler.Script.Interpreter

/-!
# Hosts

What the commands rely on without deciding it: an engine that runs scripts, a library that traces
what is done if its flags ask for it, and a standard output that may be full some time. All of it is
one `Host`, a parameter of the commands, and everything that is said of them is said of every host.
The standard output is a file or a pipe; at a terminal, outputs and dumps look otherwise.
-/

namespace FlatAssembler.CommandLine

/-- What the tracing library has written when a command is over: to the standard error, and to its
log files, given by their paths. -/
structure Trace where
  errors : Text := []
  logs : List (Text × Text) := []
  deriving DecidableEq, Repr

/-- What the commands rely on. -/
structure Host where
  engine : Script.Engine
  /-- Which values of its flags the tracing library refuses. -/
  refusal : Refusal
  trace : Command → FileSystem → Trace
  /-- The number of bytes that the standard output takes before it is full. -/
  room : Option Nat := none
  /-- Nothing is traced unless it is asked for. -/
  trace_of_tracing_eq_nil : ∀ command fs, command.tracing = [] → trace command fs = {}

namespace Host

/-- Runs scripts in the language that the program comes with, and traces nothing. -/
def standard : Host where
  engine := Script.interpreter
  refusal := fun _ => none
  trace := fun _ _ => {}
  trace_of_tracing_eq_nil := fun _ _ _ => rfl

/-- Whether the standard output takes all that is sent to it. -/
def takes (host : Host) (sent : Text) : Bool := host.room.all fun n => sent.length ≤ n

end Host

end FlatAssembler.CommandLine
