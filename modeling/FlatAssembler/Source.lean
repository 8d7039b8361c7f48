import FlatAssembler.Directive

/-!
# The stream of source lines

Which lines are assembled, and in which order, depends on the files alone: on which file includes
which, on lines that end a file, and on what was loaded before. No value and no symbol has a part
in it. So the include tree is first laid out flat, as a list of events, and a session then runs
through the events until one fails.

A path is requested at most once with effect: its cleaned text is marked before the file is read,
which is why files that include each other are no obstacle. Each file that is entered is one that
was not marked before (`unread_lt`), so the number of unmarked files bounds how deep inclusion can
go. The recursion runs on that bound; `request_eq` and `expand_cons` are free of it.
-/

namespace FlatAssembler

/-- What happens on the way through a source and all that it includes. -/
inductive Event where
  /-- A path is requested for the first time; its cleaned text is marked. -/
  | entered (key : Text)
  /-- A line is reached. -/
  | line (site : Site) (text : Text)
  /-- A path that was requested before is requested again. -/
  | repeated (path : Text)
  /-- The end of a source is reached. -/
  | completed (path : Text)
  /-- A file cannot be read; the line that includes it, if one does. -/
  | unreadable (failure : FileSystem.Failure) (origin : Option (Site × Text))
  deriving DecidableEq, Repr

namespace Source

/-- A line without the carriage return at its end, of which one is removed. -/
def withoutReturn (line : Text) : Text :=
  if line.getLast? = some '\r'.toUInt8 then line.dropLast else line

/-- The lines of a source. -/
def lines (source : Text) : List Text := (splitAt '\n'.toUInt8 source).map withoutReturn

/-- The paths that the lines of a file include, whether or not they are reached. -/
def includedPaths (file source : Text) : List Text :=
  (lines source).filterMap fun text => (Statement.parse text).included? file

/-- The cleaned paths that are marked by these events. -/
def marked (events : List Event) : List Text :=
  events.filterMap fun
    | .entered key => some key
    | _ => none

/-- Whether a path is among the marked ones, however it is spelled. -/
def isMarked (loaded : List Text) (path : Text) : Bool := loaded.contains (Path.clean path)

@[simp] theorem isMarked_iff {loaded : List Text} {path : Text} :
    isMarked loaded path = true ↔ Path.clean path ∈ loaded := by
  simp [isMarked]

/-- Whether the cleaned path of a file is not marked. -/
def isUnread (loaded : List Text) (file : Location × Text) : Bool :=
  !loaded.contains (Path.relative file.1)

/-- The number of files whose cleaned path is not marked. -/
def unread (fs : FileSystem) (loaded : List Text) : Nat := fs.files.countP (isUnread loaded)

theorem isUnread_of_append {loaded more : List Text} {file : Location × Text}
    (h : isUnread (loaded ++ more) file = true) : isUnread loaded file = true := by
  simp only [isUnread, List.contains_append, Bool.not_or, Bool.and_eq_true] at h
  exact h.1

theorem unread_append_le (fs : FileSystem) (loaded more : List Text) :
    unread fs (loaded ++ more) ≤ unread fs loaded :=
  List.countP_mono_left fun _ _ h => isUnread_of_append h

/-- Reading a file whose path is not marked leaves fewer unmarked files. -/
theorem unread_lt {fs : FileSystem} {loaded : List Text} {path content : Text}
    (hkey : ¬isMarked loaded path = true) (hread : fs.read path = .ok content) :
    unread fs (loaded ++ [Path.clean path]) < unread fs loaded := by
  obtain ⟨habs, hmem⟩ := FileSystem.mem_files_of_read hread
  have hclean : Path.clean path = Path.relative (Path.cleanParts path) := by
    simp [Path.clean, habs]
  have hle (fs' : List (Location × Text)) :
      fs'.countP (isUnread (loaded ++ [Path.clean path])) ≤ fs'.countP (isUnread loaded) :=
    List.countP_mono_left fun _ _ h => isUnread_of_append h
  obtain ⟨before, after, hfiles⟩ := List.append_of_mem hmem
  have hnow : isUnread (loaded ++ [Path.clean path]) (Path.cleanParts path, content) = false := by
    simp [isUnread, hclean]
  have hthen : isUnread loaded (Path.cleanParts path, content) = true := by
    simpa [isUnread, hclean] using hkey
  have hb := hle before
  have ha := hle after
  simp only [unread, hfiles, List.countP_append, List.countP_cons, hnow, hthen]
  simp only [Bool.false_eq_true, if_false, if_true]
  omega

/-- The events of the lines of `file` from the one with this index on, where `request` gives those
of a path that a line includes. -/
def expandWith (request : List Text → Text → Option (Site × Text) → List Event) (file : Text) :
    List Text → Nat → List Text → List Event
  | _, _, [] => [.completed file]
  | loaded, index, text :: rest =>
    let st := Statement.parse text
    .line ⟨file, index⟩ text ::
      if st.action = .stop then [.completed file]
      else match st.included? file with
        | none => expandWith request file loaded (index + 1) rest
        | some path =>
          let inner := request loaded path (some (⟨file, index⟩, text))
          inner ++ expandWith request file (loaded ++ marked inner) (index + 1) rest

/-- The events of a request for a path, when files may be entered to this depth. -/
def requestWithin (fs : FileSystem) (depth : Nat) (loaded : List Text) (path : Text)
    (origin : Option (Site × Text)) : List Event :=
  if isMarked loaded path then [.repeated path]
  else match fs.read path with
    | .error failure => [.entered (Path.clean path), .unreadable failure origin]
    | .ok content =>
      .entered (Path.clean path) ::
        match depth with
        | 0 => []
        | depth + 1 =>
          expandWith (requestWithin fs depth) path (loaded ++ [Path.clean path]) 0 (lines content)

/-- The events of a request for a path, made by a line or from outside. As many files can be inside
one another as are not marked. -/
def request (fs : FileSystem) (loaded : List Text) (path : Text)
    (origin : Option (Site × Text)) : List Event :=
  requestWithin fs (unread fs loaded) loaded path origin

/-- The events of the lines of `file` from the one with this index on. -/
def expand (fs : FileSystem) (file : Text) (loaded : List Text) (index : Nat)
    (texts : List Text) : List Event :=
  expandWith (request fs) file loaded index texts

/-- The events of a source that is given under a name instead of being read. -/
def provide (fs : FileSystem) (loaded : List Text) (name source : Text) : List Event :=
  if isMarked loaded name then [.repeated name]
  else .entered (Path.clean name) ::
    expand fs name (loaded ++ [Path.clean name]) 0 (lines source)

/-! ### The depth does not matter -/

/-- Two ways to answer requests that agree while no more than these files are unmarked give the
same events. -/
theorem expandWith_congr (fs : FileSystem)
    {answer answer' : List Text → Text → Option (Site × Text) → List Event} (file : Text)
    (loaded : List Text) (index : Nat) (texts : List Text)
    (h : ∀ loaded', unread fs loaded' ≤ unread fs loaded →
      ∀ path origin, answer loaded' path origin = answer' loaded' path origin) :
    expandWith answer file loaded index texts = expandWith answer' file loaded index texts := by
  induction texts generalizing loaded index with
  | nil => rfl
  | cons text rest ih =>
    simp only [expandWith]
    congr 1
    split
    · rfl
    · split
      · exact ih loaded (index + 1) h
      · rw [h loaded (Nat.le_refl _)]
        congr 1
        exact ih _ _ fun loaded' hle =>
          h loaded' (Nat.le_trans hle (unread_append_le fs loaded _))

/-- Any depth that the unmarked files cannot exceed gives the same events. -/
theorem requestWithin_eq {fs : FileSystem} (depth : Nat) (loaded : List Text) (path : Text)
    (origin : Option (Site × Text)) (h : unread fs loaded ≤ depth) :
    requestWithin fs depth loaded path origin = request fs loaded path origin := by
  induction depth using Nat.strongRecOn generalizing loaded path origin with
  | ind depth ih =>
    unfold request
    by_cases hd : depth = unread fs loaded
    · rw [hd]
    rw [requestWithin.eq_def fs depth, requestWithin.eq_def fs (unread fs loaded)]
    split
    · rfl
    · rename_i hkey
      split
      · rfl
      · rename_i content hread
        have hlt := unread_lt hkey hread
        congr 1
        cases hn : unread fs loaded with
        | zero => omega
        | succ n =>
          cases depth with
          | zero => omega
          | succ m =>
            simp only
            apply expandWith_congr fs
            intro loaded' hle path' origin'
            rw [ih m (by omega) loaded' path' origin' (by omega),
              ih n (by omega) loaded' path' origin' (by omega)]

/-- A request leads to the lines of the file, if it is not marked and can be read. -/
theorem request_eq (fs : FileSystem) (loaded : List Text) (path : Text)
    (origin : Option (Site × Text)) :
    request fs loaded path origin =
      if isMarked loaded path then [.repeated path]
      else match fs.read path with
        | .error failure => [.entered (Path.clean path), .unreadable failure origin]
        | .ok content =>
          .entered (Path.clean path) ::
            expand fs path (loaded ++ [Path.clean path]) 0 (lines content) := by
  conv => lhs; rw [request, requestWithin.eq_def]
  split
  · rfl
  · rename_i hkey
    split
    · rfl
    · rename_i content hread
      have hlt := unread_lt hkey hread
      congr 1
      cases hn : unread fs loaded with
      | zero => omega
      | succ n =>
        apply expandWith_congr fs
        intro loaded' hle path' origin'
        exact requestWithin_eq n loaded' path' origin' (by omega)

@[simp] theorem expand_nil (fs : FileSystem) (file : Text) (loaded : List Text) (index : Nat) :
    expand fs file loaded index [] = [.completed file] := rfl

theorem expand_cons (fs : FileSystem) (file : Text) (loaded : List Text) (index : Nat)
    (text : Text) (rest : List Text) :
    expand fs file loaded index (text :: rest) =
      .line ⟨file, index⟩ text ::
        if (Statement.parse text).action = .stop then [.completed file]
        else match (Statement.parse text).included? file with
          | none => expand fs file loaded (index + 1) rest
          | some path =>
            request fs loaded path (some (⟨file, index⟩, text)) ++
              expand fs file
                (loaded ++ marked (request fs loaded path (some (⟨file, index⟩, text))))
                (index + 1) rest := rfl

end Source

end FlatAssembler
