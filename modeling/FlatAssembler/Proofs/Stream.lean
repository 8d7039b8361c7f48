import FlatAssembler.Proofs.Notes

/-!
# The stream of a file, line by line

The events of a file are those of its reached lines, one line after the other,
and a last event for its end (`expand_eq`). Only the lines up to the first one
that stops the file are reached. A line contributes itself and, if it includes a
path, the events of that request (`lineEvents`), which depend on what was marked
before; so the events of two stretches of lines compose once the marks of the
first are known (`body_append`).

A session that runs through a stream keeps the marks of the stream in its own
list, which is why both can be read off the session (`loaded_run`).
-/

namespace FlatAssembler

namespace Source

/-- Whether the rest of a file is not read after this line. -/
def isStop (text : Text) : Bool := decide ((Statement.parse text).action = .stop)

/-- The lines of a file up to the first that stops it, which is the last. -/
def reached : List Text → List Text
  | [] => []
  | text :: rest => if isStop text then [text] else text :: reached rest

/-- The events of one line, with those of the path that it includes. -/
def lineEvents (fs : FileSystem) (file : Text) (loaded : List Text) (index : Nat)
    (text : Text) : List Event :=
  .line ⟨file, index⟩ text ::
    match (Statement.parse text).included? file with
    | none => []
    | some path => request fs loaded path (some (⟨file, index⟩, text))

/-- The events of lines that are all reached. -/
def body (fs : FileSystem) (file : Text) : List Text → Nat → List Text → List Event
  | _, _, [] => []
  | loaded, index, text :: rest =>
      lineEvents fs file loaded index text ++
        body fs file (loaded ++ marked (lineEvents fs file loaded index text)) (index + 1) rest

/-! ### Marks -/

theorem marked_append (events more : List Event) :
    marked (events ++ more) = marked events ++ marked more :=
  List.filterMap_append

theorem marked_line_cons (site : Site) (text : Text) (events : List Event) :
    marked (.line site text :: events) = marked events := rfl

/-! ### Lines that stop a file -/

theorem included?_of_isStop {text : Text} (h : isStop text = true) (file : Text) :
    (Statement.parse text).included? file = none := by
  rw [isStop, decide_eq_true_eq] at h
  rw [Statement.included?, h]

theorem reached_of_forall {texts : List Text} (h : ∀ text ∈ texts, isStop text = false)
    (more : List Text) : reached (texts ++ more) = texts ++ reached more := by
  induction texts with
  | nil => rfl
  | cons text rest ih =>
      rw [List.cons_append, reached, h text List.mem_cons_self, if_neg Bool.false_ne_true,
        ih fun other hother => h other (List.mem_cons_of_mem _ hother), List.cons_append]

theorem reached_of_exists {texts : List Text} (h : ∃ text ∈ texts, isStop text = true)
    (more : List Text) : reached (texts ++ more) = reached texts := by
  induction texts with
  | nil =>
      obtain ⟨text, hmem, -⟩ := h
      cases hmem
  | cons text rest ih =>
      rw [List.cons_append, reached, reached]
      by_cases htext : isStop text = true
      · rw [if_pos htext, if_pos htext]
      · obtain ⟨stop, hmem, hstop⟩ := h
        rcases List.mem_cons.mp hmem with rfl | hrest
        · exact absurd hstop htext
        · rw [if_neg htext, if_neg htext, ih ⟨stop, hrest, hstop⟩]

/-- The reached lines are those before the first stop, and this one if there is one. -/
theorem reached_eq (texts : List Text) :
    reached texts =
      texts.takeWhile (fun text => !isStop text) ++ (texts.find? isStop).toList := by
  induction texts with
  | nil => rfl
  | cons text rest ih =>
      rw [reached]
      by_cases htext : isStop text = true
      · rw [if_pos htext, List.takeWhile_cons_of_neg (by simp [htext]),
          List.find?_cons_of_pos htext]
        rfl
      · rw [if_neg htext, List.takeWhile_cons_of_pos (by simp [htext]),
          List.find?_cons_of_neg htext, ih, List.cons_append]

/-! ### Events -/

theorem lineEvents_of_none {file text : Text} (h : (Statement.parse text).included? file = none)
    (fs : FileSystem) (loaded : List Text) (index : Nat) :
    lineEvents fs file loaded index text = [.line ⟨file, index⟩ text] := by
  rw [lineEvents, h]

theorem lineEvents_of_some {file text path : Text}
    (h : (Statement.parse text).included? file = some path) (fs : FileSystem)
    (loaded : List Text) (index : Nat) :
    lineEvents fs file loaded index text =
      .line ⟨file, index⟩ text :: request fs loaded path (some (⟨file, index⟩, text)) := by
  rw [lineEvents, h]

theorem expand_eq (fs : FileSystem) (file : Text) (loaded : List Text) (index : Nat)
    (texts : List Text) :
    expand fs file loaded index texts =
      body fs file loaded index (reached texts) ++ [.completed file] := by
  induction texts generalizing loaded index with
  | nil => rfl
  | cons text rest ih =>
      rw [expand_cons, reached]
      by_cases htext : isStop text = true
      · rw [if_pos htext, if_pos (of_decide_eq_true htext), body, body,
          lineEvents_of_none (included?_of_isStop htext file)]
        rfl
      · rw [if_neg htext, if_neg fun h => htext (decide_eq_true h), body]
        cases hpath : (Statement.parse text).included? file with
        | none =>
            have hmarked : loaded ++ marked [.line ⟨file, index⟩ text] = loaded :=
              List.append_nil loaded
            rw [lineEvents_of_none hpath, hmarked, ih]
            rfl
        | some path =>
            rw [lineEvents_of_some hpath, marked_line_cons, List.append_assoc, List.cons_append,
              ← ih]

theorem body_append (fs : FileSystem) (file : Text) (loaded : List Text) (index : Nat)
    (texts more : List Text) :
    body fs file loaded index (texts ++ more) =
      body fs file loaded index texts ++
        body fs file (loaded ++ marked (body fs file loaded index texts))
          (index + texts.length) more := by
  induction texts generalizing loaded index with
  | nil =>
      have hmarked : loaded ++ marked [] = loaded := List.append_nil loaded
      rw [body, hmarked]
      rfl
  | cons text rest ih =>
      rw [List.cons_append, body, ih, body, marked_append, List.length_cons, List.append_assoc,
        List.append_assoc, Nat.add_assoc, Nat.add_comm 1]

/-- A first request for a path that can be read leads through the reached lines. -/
theorem request_of_ok {fs : FileSystem} {loaded : List Text} {path content : Text}
    (hkey : ¬isMarked loaded path = true) (hread : fs.read path = .ok content)
    (origin : Option (Site × Text)) :
    request fs loaded path origin =
      .entered (Path.clean path) ::
        (body fs path (loaded ++ [Path.clean path]) 0 (reached (lines content)) ++
          [.completed path]) := by
  rw [request_eq, if_neg hkey, hread]
  simp only [expand_eq]

end Source

namespace Session

/-! ### Marks of a run -/

theorem loaded_step {s t : Session} {event : Event} (h : s.step event = (t, none)) :
    t.loaded = s.loaded ++ Source.marked [event] := by
  cases event with
  | entered key =>
      cases h
      rfl
  | line site text =>
      obtain ⟨warnings, hnotes⟩ := s.notes_step_line site text
      rw [h] at hnotes
      exact (congrArg Notes.loaded hnotes).trans (List.append_nil _).symm
  | repeated path =>
      cases h
      exact (List.append_nil _).symm
  | completed path =>
      cases h
      exact (List.append_nil _).symm
  | unreadable failure origin => cases origin <;> cases h

theorem loaded_run {s t : Session} {events : List Event} (h : s.run events = (t, none)) :
    t.loaded = s.loaded ++ Source.marked events := by
  induction events generalizing s with
  | nil =>
      cases h
      exact (List.append_nil _).symm
  | cons event rest ih =>
      obtain ⟨u, hu, -⟩ := step_of_run_cons (congrArg Prod.snd h)
      rw [run_cons_of_none hu] at h
      have happend : Source.marked (event :: rest) = Source.marked [event] ++ Source.marked rest :=
        Source.marked_append [event] rest
      rw [ih h, loaded_step hu, happend, List.append_assoc]

theorem run_append_of_none {s t : Session} {events : List Event} (h : s.run events = (t, none))
    (more : List Event) : s.run (events ++ more) = t.run more := by
  rw [run_append, h]

theorem run_append_of_some {s t : Session} {events : List Event} {fault : Fault}
    (h : s.run events = (t, some fault)) (more : List Event) :
    s.run (events ++ more) = (t, some fault) := by
  rw [run_append, h]

theorem moments_append (s : Session) (events more : List Event) :
    s.moments (events ++ more) =
      s.moments events ++
        match s.run events with
        | (t, none) => t.moments more
        | (_, some _) => [] := by
  induction events generalizing s with
  | nil => rfl
  | cons event rest ih =>
      rw [List.cons_append, moments, moments, run]
      rcases s.step event with ⟨t, _ | fault⟩
      · simp only [ih, List.cons_append]
      · rfl

/-! ### Loads -/

/-- To load a file is to load its content under its name. -/
theorem load_eq_loadSource {fs : FileSystem} {path content : Text}
    (h : fs.read path = .ok content) (s : Session) :
    s.load fs path = s.loadSource fs path content := by
  rw [load, loadSource, Source.request_eq, Source.provide, h]

end Session

end FlatAssembler
