import FlatAssembler.Source

/-!
# Loading

A session runs through the events of a source until one of them fails. What was done before the
failure stays done. The session's own place in the source is the same afterwards as before, however
the load ended.
-/

namespace FlatAssembler

namespace Session

/-- Takes one event into the session. -/
def step (s : Session) : Event → Session × Option Fault
  | .entered key => ({ s with loaded := s.loaded ++ [key] }, none)
  | .line site text => s.assembleLine site text
  | .repeated path => (s.note (.alreadyLoaded path), none)
  | .completed path => (s.note (.loaded path), none)
  | .unreadable failure none => (s, some (Cause.unreadable failure).unplaced)
  | .unreadable failure (some (site, text)) =>
    (s, some ((Cause.unreadable failure).onLine site text))

/-- Takes events into the session until one of them fails. -/
def run (s : Session) : List Event → Session × Option Fault
  | [] => (s, none)
  | event :: rest =>
    match s.step event with
    | (s, none) => s.run rest
    | (s, some fault) => (s, some fault)

/-- Runs through the events of a request for `path`, and comes back to the place of before. -/
def perform (s : Session) (path : Text) (events : List Event) : Session × Except Fault Status :=
  let status := if Source.isMarked s.loaded path then Status.alreadyLoaded path else .loaded path
  let r := s.run events
  let s := { r.1 with site := s.site }
  match r.2 with
  | none => (s, .ok status)
  | some fault => (s, .error fault)

/-- Assembles the file at a path, unless the path was requested before. -/
def load (s : Session) (fs : FileSystem) (path : Text) : Session × Except Fault Status :=
  s.perform path (Source.request fs s.loaded path none)

/-- Assembles a source as if it had been read from a file of this name. -/
def loadSource (s : Session) (fs : FileSystem) (name source : Text) :
    Session × Except Fault Status :=
  s.perform name (Source.provide fs s.loaded name source)

@[simp] theorem run_nil (s : Session) : s.run [] = (s, none) := rfl

theorem run_append (s : Session) (events more : List Event) :
    s.run (events ++ more) =
      match s.run events with
      | (s, none) => s.run more
      | (s, some fault) => (s, some fault) := by
  induction events generalizing s with
  | nil => rfl
  | cons event rest ih =>
    simp only [List.cons_append, run]
    split
    · exact ih _
    · rfl

end Session

/-- Assembles the file at a path in a session of its own. -/
def assembleFile (fs : FileSystem) (base : UInt32) (constants : Constants) (path : Text) :
    Except Fault Session :=
  match ({ base, constants } : Session).load fs path with
  | (s, .ok _) => .ok s
  | (_, .error fault) => .error fault

end FlatAssembler
