import FlatAssembler.Proofs.Stream

/-!
# Requests inside of requests

The stream of events lays out flat what happens in a load, and it is computed with
a bound on how deep files can be inside one another. Here the same course is
described the way it nests, and nothing bounds it: `Yields fs task s r requests`
says that the session `s`, given a request to answer or lines to go through, ends
with the result `r`, and that it makes these `requests` on its way. A derivation is
a finite tree, so that a task that yields something has come to an end.

Every task yields exactly what running through its events gives
(`exists_yields_lines`, `exists_yields_request`), and nothing else
(`Yields.unique`). The place in the source needs care: a request comes back to the
line that made it, whereas a run stays where it is until the next line or until the
load is over. `run_placed` says that this makes no difference.
-/

namespace FlatAssembler

/-- A request that was made, with the session that made it and what this session
had become when the request was over. -/
structure Request where
  path : Text
  before : Session
  after : Session
  fault : Option Fault
  /-- Whether the lines of a text were gone through. -/
  entered : Bool

/-- The path as it is marked. -/
def Request.key (request : Request) : Text := Path.clean request.path

/-- Requests that are made one after the other, each with those inside of it. -/
inductive Requests where
  | nil
  | cons (request : Request) (inside rest : Requests)

namespace Requests

def append : Requests → Requests → Requests
  | nil, more => more
  | cons request inside rest, more => cons request inside (rest.append more)

instance : Append Requests := ⟨append⟩

/-- All requests, in the order in which they begin. -/
def made : Requests → List Request
  | nil => []
  | cons request inside rest => request :: (inside.made ++ rest.made)

/-- The paths whose lines were gone through, in the order in which this begins. -/
def entered (requests : Requests) : List Text :=
  (requests.made.filter Request.entered).map Request.path

/-- How many files are open at once, at most. -/
def depth : Requests → Nat
  | nil => 0
  | cons request inside rest =>
      max (if request.entered then inside.depth + 1 else inside.depth) rest.depth

@[simp] theorem made_nil : nil.made = [] := rfl

@[simp] theorem made_cons (request : Request) (inside rest : Requests) :
    (cons request inside rest).made = request :: (inside.made ++ rest.made) := rfl

@[simp] theorem nil_append (more : Requests) : nil ++ more = more := rfl

@[simp] theorem cons_append (request : Request) (inside rest more : Requests) :
    cons request inside rest ++ more = cons request inside (rest ++ more) := rfl

@[simp] theorem made_append (requests more : Requests) :
    (requests ++ more).made = requests.made ++ more.made := by
  induction requests with
  | nil => simp
  | cons request inside rest _ ih => simp [ih]

theorem entered_append (requests more : Requests) :
    (requests ++ more).entered = requests.entered ++ more.entered := by
  simp [entered]

theorem entered_cons (request : Request) (inside rest : Requests) :
    (cons request inside rest).entered =
      (if request.entered then [request.path] else []) ++ (inside.entered ++ rest.entered) := by
  rcases h : request.entered <;> simp [entered, h]

theorem entered_single (path : Text) (before after : Session) (fault : Option Fault)
    (inside : Requests) :
    (cons ⟨path, before, after, fault, true⟩ inside nil).entered = path :: inside.entered := by
  simp [entered]

/-- Files that are open at once have all been entered. -/
theorem depth_le_length_entered (requests : Requests) :
    requests.depth ≤ requests.entered.length := by
  induction requests with
  | nil => exact Nat.le_refl _
  | cons request inside rest hinside hrest =>
      rw [depth, entered_cons]
      rcases request.entered <;> simp <;> omega

end Requests

namespace Source

/-- The events of a request for a path, when this is what was found there. -/
def respond (fs : FileSystem) (loaded : List Text) (path : Text)
    (found : Except FileSystem.Failure Text) (origin : Option (Site × Text)) : List Event :=
  if isMarked loaded path then [.repeated path]
  else match found with
    | .error failure => [.entered (Path.clean path), .unreadable failure origin]
    | .ok content =>
        .entered (Path.clean path) ::
          expand fs path (loaded ++ [Path.clean path]) 0 (lines content)

theorem request_eq_respond (fs : FileSystem) (loaded : List Text) (path : Text)
    (origin : Option (Site × Text)) :
    request fs loaded path origin = respond fs loaded path (fs.read path) origin :=
  request_eq fs loaded path origin

theorem provide_eq_respond (fs : FileSystem) (loaded : List Text) (name source : Text) :
    provide fs loaded name source = respond fs loaded name (.ok source) none := rfl

end Source

namespace Session

open Source

/-! ### The place in the source -/

/-- The session in another place of the source. -/
def placed (s : Session) (site : Site) : Session := { s with site }

@[simp] theorem loaded_placed (s : Session) (site : Site) :
    (s.placed site).loaded = s.loaded := rfl

/-- A result, back in the place where the session was. -/
def returned (s : Session) (r : Session × Option Fault) : Session × Option Fault :=
  (r.1.placed s.site, r.2)

theorem step_line_placed (s : Session) (place site : Site) (text : Text) :
    (s.placed place).step (.line site text) = s.step (.line site text) := rfl

/-- Runs that begin in different places end alike up to the place: the next line
sets it, and no other event looks at it. -/
theorem run_placed (s u : Session) (place : Site) (events : List Event) :
    u.returned ((s.placed place).run events) = u.returned (s.run events) := by
  induction events generalizing s with
  | nil => rfl
  | cons event rest ih =>
      cases event with
      | line site text => rw [run, run, step_line_placed]
      | entered key => exact ih { s with loaded := s.loaded ++ [key] }
      | repeated path => exact ih (s.note (.alreadyLoaded path))
      | completed path => exact ih (s.note (.loaded path))
      | unreadable failure origin => cases origin <;> rfl

/-! ### Tasks -/

/-- The session with a path marked. -/
def marking (s : Session) (path : Text) : Session :=
  { s with loaded := s.loaded ++ [Path.clean path] }

/-- The fault of a file that cannot be read, on the line that includes it. -/
def unreadableFault (failure : FileSystem.Failure) : Option (Site × Text) → Fault
  | none => (Cause.unreadable failure).unplaced
  | some (site, text) => (Cause.unreadable failure).onLine site text

end Session

/-- What a session has before it in the course of a load. -/
inductive Task where
  /-- A request for a path, at which this was found. -/
  | request (path : Text) (found : Except FileSystem.Failure Text)
      (origin : Option (Site × Text))
  /-- The lines of a file from the one with this index on. -/
  | lines (file : Text) (index : Nat) (texts : List Text)

namespace Session

open Source

/-- The task, taken up by a session, ends with a result after these requests. The
rules are those of one request and one line; there is no bound on their nesting. -/
inductive Yields (fs : FileSystem) :
    Task → Session → Session × Option Fault → Requests → Prop
  | repeated {s : Session} {path : Text} {found : Except FileSystem.Failure Text}
      {origin : Option (Site × Text)} (marked : isMarked s.loaded path = true) :
      Yields fs (.request path found origin) s (s.note (.alreadyLoaded path), none)
        (.cons ⟨path, s, s.note (.alreadyLoaded path), none, false⟩ .nil .nil)
  | unreadable {s : Session} {path : Text} {failure : FileSystem.Failure}
      {origin : Option (Site × Text)} (unmarked : ¬isMarked s.loaded path = true) :
      Yields fs (.request path (.error failure) origin) s
        (s.marking path, some (unreadableFault failure origin))
        (.cons ⟨path, s, s.marking path, some (unreadableFault failure origin), false⟩ .nil .nil)
  | entered {s t : Session} {path content : Text} {origin : Option (Site × Text)}
      {fault : Option Fault} {requests : Requests} (unmarked : ¬isMarked s.loaded path = true)
      (lines : Yields fs (.lines path 0 (lines content)) (s.marking path) (t, fault) requests) :
      Yields fs (.request path (.ok content) origin) s (t.placed s.site, fault)
        (.cons ⟨path, s, t.placed s.site, fault, true⟩ requests .nil)
  | finished {s : Session} {file : Text} {index : Nat} :
      Yields fs (.lines file index []) s (s.note (.loaded file), none) .nil
  | failed {s t : Session} {file text : Text} {index : Nat} {rest : List Text} {fault : Fault}
      (step : s.step (.line ⟨file, index⟩ text) = (t, some fault)) :
      Yields fs (.lines file index (text :: rest)) s (t, some fault) .nil
  | stopped {s t : Session} {file text : Text} {index : Nat} {rest : List Text}
      (step : s.step (.line ⟨file, index⟩ text) = (t, none)) (stop : isStop text = true) :
      Yields fs (.lines file index (text :: rest)) s (t.note (.loaded file), none) .nil
  | passed {s t : Session} {file text : Text} {index : Nat} {rest : List Text}
      {r : Session × Option Fault} {requests : Requests}
      (step : s.step (.line ⟨file, index⟩ text) = (t, none)) (unstopped : isStop text = false)
      (plain : (Statement.parse text).included? file = none)
      (next : Yields fs (.lines file (index + 1) rest) t r requests) :
      Yields fs (.lines file index (text :: rest)) s r requests
  | included {s t u : Session} {file text path : Text} {index : Nat} {rest : List Text}
      {r : Session × Option Fault} {requests more : Requests}
      (step : s.step (.line ⟨file, index⟩ text) = (t, none))
      (includes : (Statement.parse text).included? file = some path)
      (inner : Yields fs (.request path (fs.read path) (some (⟨file, index⟩, text))) t (u, none)
        requests)
      (next : Yields fs (.lines file (index + 1) rest) u r more) :
      Yields fs (.lines file index (text :: rest)) s r (requests ++ more)
  | broken {s t u : Session} {file text path : Text} {index : Nat} {rest : List Text}
      {fault : Fault} {requests : Requests}
      (step : s.step (.line ⟨file, index⟩ text) = (t, none))
      (includes : (Statement.parse text).included? file = some path)
      (inner : Yields fs (.request path (fs.read path) (some (⟨file, index⟩, text))) t
        (u, some fault) requests) :
      Yields fs (.lines file index (text :: rest)) s (u, some fault) requests

/-! ### A task yields one thing -/

/-- The rules exclude one another: a line that fails, stops the file, passes or
includes a path is not any of the others, and a path is marked or it is not. -/
theorem Yields.unique {fs : FileSystem} {task : Task} {s : Session}
    {r r' : Session × Option Fault} {requests requests' : Requests}
    (h : Yields fs task s r requests) (h' : Yields fs task s r' requests') :
    r = r' ∧ requests = requests' := by
  induction h generalizing r' requests' with
  | repeated marked =>
      cases h' with
      | repeated => exact ⟨rfl, rfl⟩
      | unreadable unmarked | entered unmarked => exact absurd marked unmarked
  | unreadable unmarked =>
      cases h' with
      | repeated marked => exact absurd marked unmarked
      | unreadable => exact ⟨rfl, rfl⟩
  | entered unmarked _ ih =>
      cases h' with
      | repeated marked => exact absurd marked unmarked
      | entered _ lines =>
          obtain ⟨hr, rfl⟩ := ih lines
          cases hr
          exact ⟨rfl, rfl⟩
  | finished =>
      cases h'
      exact ⟨rfl, rfl⟩
  | failed step =>
      cases h' with
      | failed step' =>
          cases step.symm.trans step'
          exact ⟨rfl, rfl⟩
      | stopped step' | passed step' | included step' | broken step' =>
          cases step.symm.trans step'
  | stopped step stop =>
      cases h' with
      | stopped step' =>
          cases step.symm.trans step'
          exact ⟨rfl, rfl⟩
      | failed step' => cases step.symm.trans step'
      | passed _ unstopped => cases stop.symm.trans unstopped
      | included _ includes | broken _ includes =>
          cases (included?_of_isStop stop _).symm.trans includes
  | passed step unstopped plain _ ih =>
      cases h' with
      | passed step' _ _ next =>
          cases step.symm.trans step'
          exact ih next
      | failed step' => cases step.symm.trans step'
      | stopped _ stop => cases stop.symm.trans unstopped
      | included _ includes | broken _ includes => cases plain.symm.trans includes
  | included step includes _ _ ihInner ihNext =>
      cases h' with
      | included step' includes' inner next =>
          cases step.symm.trans step'
          cases includes.symm.trans includes'
          obtain ⟨hu, rfl⟩ := ihInner inner
          cases hu
          obtain ⟨rfl, rfl⟩ := ihNext next
          exact ⟨rfl, rfl⟩
      | failed step' => cases step.symm.trans step'
      | stopped _ stop => cases (included?_of_isStop stop _).symm.trans includes
      | passed _ _ plain => cases plain.symm.trans includes
      | broken step' includes' inner =>
          cases step.symm.trans step'
          cases includes.symm.trans includes'
          cases (ihInner inner).1
  | broken step includes _ ih =>
      cases h' with
      | broken step' includes' inner =>
          cases step.symm.trans step'
          cases includes.symm.trans includes'
          exact ih inner
      | failed step' => cases step.symm.trans step'
      | stopped _ stop => cases (included?_of_isStop stop _).symm.trans includes
      | passed _ _ plain => cases plain.symm.trans includes
      | included step' includes' inner =>
          cases step.symm.trans step'
          cases includes.symm.trans includes'
          cases (ih inner).1

theorem Yields.iff {fs : FileSystem} {task : Task} {s : Session} {r : Session × Option Fault}
    {requests : Requests} (h : Yields fs task s r requests) (r' : Session × Option Fault)
    (requests' : Requests) :
    Yields fs task s r' requests' ↔ r' = r ∧ requests' = requests := by
  constructor
  · exact fun h' => h'.unique h
  · rintro ⟨rfl, rfl⟩
    exact h

/-! ### A task yields what its events give -/

/-- A request yields its result if its lines do, in case that it has any. -/
theorem exists_yields_request {fs : FileSystem} {s : Session} (path : Text)
    (found : Except FileSystem.Failure Text) (origin : Option (Site × Text))
    (hlines : ∀ content, ¬isMarked s.loaded path = true → found = .ok content →
      ∃ r requests, Yields fs (.lines path 0 (lines content)) (s.marking path) r requests ∧
        s.returned r = s.returned
          ((s.marking path).run (expand fs path (s.marking path).loaded 0 (lines content)))) :
    ∃ requests, Yields fs (.request path found origin) s
      (s.returned (s.run (respond fs s.loaded path found origin))) requests := by
  unfold respond
  by_cases hmarked : isMarked s.loaded path = true
  · rw [if_pos hmarked]
    exact ⟨_, .repeated hmarked⟩
  · rw [if_neg hmarked]
    cases found with
    | error failure =>
        have hyields : Yields fs (.request path (.error failure) origin) s _ _ :=
          .unreadable hmarked
        cases origin <;> exact ⟨_, hyields⟩
    | ok content =>
        obtain ⟨r, requests, hlines, hr⟩ := hlines content hmarked rfl
        have hyields : Yields fs (.request path (.ok content) origin) s (s.returned r) _ :=
          .entered hmarked hlines
        rw [hr] at hyields
        exact ⟨_, hyields⟩

/-- A line that includes a path yields its result if the request does, and the
later lines, in case that they are reached. -/
theorem exists_yields_included {fs : FileSystem} {s t : Session} {file text path : Text}
    {index : Nat} {rest : List Text} {requests : Requests}
    (hstep : s.step (.line ⟨file, index⟩ text) = (t, none))
    (hpath : (Statement.parse text).included? file = some path) {events : List Event}
    (hinner : Yields fs (.request path (fs.read path) (some (⟨file, index⟩, text))) t
      (t.returned (t.run events)) requests)
    (hrest : ∀ v, t.run events = (v, none) →
      ∃ r more, Yields fs (.lines file (index + 1) rest) (v.placed t.site) r more ∧
        ∀ u : Session, u.returned r = u.returned
          ((v.placed t.site).run (expand fs file v.loaded (index + 1) rest))) :
    ∃ r requests, Yields fs (.lines file index (text :: rest)) s r requests ∧
      ∀ u : Session, u.returned r = u.returned
        (t.run (events ++ expand fs file (t.loaded ++ marked events) (index + 1) rest)) := by
  rcases hrun : t.run events with ⟨v, _ | fault⟩ <;> rw [hrun] at hinner
  · obtain ⟨r, more, hyields, hr⟩ := hrest v hrun
    refine ⟨r, requests ++ more, .included hstep hpath hinner hyields, fun u => ?_⟩
    rw [hr, run_placed, run_append_of_none hrun, loaded_run hrun]
  · refine ⟨_, requests, .broken hstep hpath hinner, fun u => ?_⟩
    rw [run_append_of_some hrun]
    rfl

/-- The bound is on the files that are not marked, and grows smaller with each file
that is entered. Inside of a file the induction is on its lines. -/
theorem exists_yields_lines (bound : Nat) {fs : FileSystem} {s : Session}
    (hbound : unread fs s.loaded ≤ bound) (file : Text) (index : Nat) (texts : List Text) :
    ∃ r requests, Yields fs (.lines file index texts) s r requests ∧
      ∀ u : Session, u.returned r = u.returned (s.run (expand fs file s.loaded index texts)) := by
  induction bound using Nat.strongRecOn generalizing s file index texts with
  | ind bound ih =>
      induction texts generalizing s index with
      | nil => exact ⟨_, _, .finished, fun _ => rfl⟩
      | cons text rest ihRest =>
          rw [expand_cons]
          rcases hstep : s.step (.line ⟨file, index⟩ text) with ⟨t, _ | fault⟩
          · have hloaded : t.loaded = s.loaded := (loaded_step hstep).trans (List.append_nil _)
            rw [run_cons_of_none hstep, ← hloaded]
            rw [← hloaded] at hbound
            by_cases hstop : isStop text = true
            · rw [if_pos (of_decide_eq_true hstop)]
              exact ⟨_, _, .stopped hstep hstop, fun _ => rfl⟩
            rw [if_neg fun h => hstop (decide_eq_true h)]
            cases hpath : (Statement.parse text).included? file with
            | none =>
                obtain ⟨r, requests, hyields, hr⟩ := ihRest hbound (index + 1)
                have hopen : isStop text = false := Bool.eq_false_iff.mpr hstop
                exact ⟨r, requests, .passed hstep hopen hpath hyields, hr⟩
            | some path =>
                obtain ⟨requests, hinner⟩ := exists_yields_request path (fs.read path)
                  (some (⟨file, index⟩, text)) fun content hkey hread => by
                    have hlt := Nat.lt_of_lt_of_le (unread_lt hkey hread) hbound
                    obtain ⟨r, requests, hyields, hr⟩ :=
                      ih _ hlt (s := t.marking path) (Nat.le_refl _) path 0 (lines content)
                    exact ⟨r, requests, hyields, hr t⟩
                rw [← request_eq_respond] at hinner
                refine exists_yields_included hstep hpath hinner fun v hv => ?_
                have hle : unread fs (v.placed t.site).loaded ≤ bound := by
                  rw [loaded_placed, loaded_run hv]
                  exact Nat.le_trans (unread_append_le fs _ _) hbound
                exact ihRest hle (index + 1)
          · rw [run_cons_of_some hstep]
            exact ⟨_, _, .failed hstep, fun _ => rfl⟩

theorem exists_yields (fs : FileSystem) (s : Session) (path : Text)
    (found : Except FileSystem.Failure Text) (origin : Option (Site × Text)) :
    ∃ requests, Yields fs (.request path found origin) s
      (s.returned (s.run (respond fs s.loaded path found origin))) requests := by
  apply exists_yields_request path found origin
  intro content _ _
  obtain ⟨r, requests, hyields, hr⟩ :=
    exists_yields_lines _ (s := s.marking path) (Nat.le_refl _) path 0 (lines content)
  exact ⟨r, requests, hyields, hr s⟩

/-! ### Loads -/

/-- The fault of a load that failed. -/
def faultOf : Except Fault Status → Option Fault
  | .ok _ => none
  | .error fault => some fault

theorem perform_eq_returned (s : Session) (path : Text) (events : List Event) :
    ((s.perform path events).1, faultOf (s.perform path events).2) = s.returned (s.run events) := by
  rw [perform, returned]
  rcases s.run events with ⟨t, _ | fault⟩ <;> rfl

theorem exists_yields_load (fs : FileSystem) (s : Session) (path : Text) :
    ∃ requests, Yields fs (.request path (fs.read path) none) s
      ((s.load fs path).1, faultOf (s.load fs path).2) requests := by
  rw [load, perform_eq_returned, request_eq_respond]
  exact exists_yields fs s path (fs.read path) none

theorem exists_yields_loadSource (fs : FileSystem) (s : Session) (name source : Text) :
    ∃ requests, Yields fs (.request name (.ok source) none) s
      ((s.loadSource fs name source).1, faultOf (s.loadSource fs name source).2) requests := by
  rw [loadSource, perform_eq_returned, provide_eq_respond]
  exact exists_yields fs s name (.ok source) none

theorem loaded_step_line (s : Session) (site : Site) (text : Text) :
    (s.step (.line site text)).1.loaded = s.loaded := by
  obtain ⟨warnings, hnotes⟩ := s.notes_step_line site text
  exact congrArg Notes.loaded hnotes

end Session

end FlatAssembler
