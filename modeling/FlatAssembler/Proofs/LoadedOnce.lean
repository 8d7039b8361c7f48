import FlatAssembler.Proofs.Requests

/-!
# Each path is loaded once

The marks of a session are the memory of its requests: a key is marked if and only
if it was requested, from outside or by a line, whether or not that request has
come to an end (`Accounts.known`). So a request can be told to be a repetition from
what was requested before it, and a repetition leaves a status and nothing else.

Each request that does not fail leaves one status, at the time when it is over.
`Requests.statuses` lists them: those of the requests inside, then its own, then
those of later requests. Which one its own is depends on the keys that were
requested before, and these are carried along in the order in which requests begin.
-/

namespace FlatAssembler

open Source

/-- The status that a request leaves if these keys were requested before. -/
def Request.status? (earlier : List Text) (request : Request) : Option Status :=
  if request.fault.isSome then none
  else if isMarked earlier request.path then some (.alreadyLoaded request.path)
  else some (.loaded request.path)

/-- Requests in the order in which they begin, each with the keys requested before. -/
def Request.inOrder (earlier : List Text) : List Request → List (List Text × Request)
  | [] => []
  | request :: rest => (earlier, request) :: inOrder (earlier ++ [request.key]) rest

/-- The request leaves a status and nothing else. -/
def Request.IsIdle (request : Request) : Prop :=
  request.after = request.before.note (.alreadyLoaded request.path) ∧ request.fault = none

theorem Request.inOrder_append (earlier : List Text) (requests more : List Request) :
    inOrder earlier (requests ++ more) =
      inOrder earlier requests ++ inOrder (earlier ++ requests.map key) more := by
  induction requests generalizing earlier with
  | nil => simp [inOrder]
  | cons request rest ih =>
      have hkeys : earlier ++ (request :: rest).map key =
          (earlier ++ [request.key]) ++ rest.map key := by simp
      rw [List.cons_append, inOrder, inOrder, ih, hkeys, List.cons_append]

namespace Requests

def keys (requests : Requests) : List Text := requests.made.map Request.key

/-- The statuses of requests in the order in which they are over, if these keys were
requested before. -/
def statuses (earlier : List Text) : Requests → List Status
  | nil => []
  | cons request inside rest =>
      inside.statuses (earlier ++ [request.key]) ++ (request.status? earlier).toList ++
        rest.statuses (earlier ++ request.key :: inside.keys)

/-- Those whose key was requested before are idle. -/
def RepeatsAreIdle (earlier : List Text) (requests : Requests) : Prop :=
  ∀ m ∈ Request.inOrder earlier requests.made, m.2.key ∈ m.1 → m.2.IsIdle

theorem keys_append (requests more : Requests) :
    (requests ++ more).keys = requests.keys ++ more.keys := by
  simp [keys]

theorem keys_cons (request : Request) (inside rest : Requests) :
    (cons request inside rest).keys = request.key :: (inside.keys ++ rest.keys) := by
  simp [keys]

theorem statuses_append (earlier : List Text) (requests more : Requests) :
    (requests ++ more).statuses earlier =
      requests.statuses earlier ++ more.statuses (earlier ++ requests.keys) := by
  induction requests generalizing earlier with
  | nil => simp [statuses, keys]
  | cons request inside rest _ ih =>
      have hkeys : earlier ++ (cons request inside rest).keys =
          (earlier ++ request.key :: inside.keys) ++ rest.keys := by simp [keys_cons]
      rw [cons_append, statuses, statuses, ih, hkeys, ← List.append_assoc]

/-- Each request leaves one status unless it fails. -/
theorem length_statuses (earlier : List Text) (requests : Requests) :
    (requests.statuses earlier).length = requests.made.countP (·.fault.isNone) := by
  have hone (earlier : List Text) (request : Request) :
      (request.status? earlier).toList.length = if request.fault.isNone then 1 else 0 := by
    rw [Request.status?]
    rcases request.fault with _ | fault
    · rcases isMarked earlier request.path <;> rfl
    · rfl
  induction requests generalizing earlier with
  | nil => rfl
  | cons request inside rest hinside hrest =>
      rw [statuses, List.length_append, List.length_append, hinside, hrest, hone, made_cons,
        List.countP_cons, List.countP_append]
      omega

theorem repeatsAreIdle_nil (earlier : List Text) : nil.RepeatsAreIdle earlier := by
  simp [RepeatsAreIdle, Request.inOrder]

theorem RepeatsAreIdle.append {earlier : List Text} {requests more : Requests}
    (h : requests.RepeatsAreIdle earlier)
    (hmore : more.RepeatsAreIdle (earlier ++ requests.keys)) :
    (requests ++ more).RepeatsAreIdle earlier := by
  intro m hm
  rw [made_append, Request.inOrder_append] at hm
  rcases List.mem_append.mp hm with hm | hm
  · exact h m hm
  · exact hmore m hm

theorem RepeatsAreIdle.single {earlier : List Text} {request : Request} {inside : Requests}
    (hrequest : request.key ∈ earlier → request.IsIdle)
    (hinside : inside.RepeatsAreIdle (earlier ++ [request.key])) :
    (cons request inside nil).RepeatsAreIdle earlier := by
  intro m hm
  rw [made_cons, made_nil, List.append_nil, Request.inOrder] at hm
  rcases List.mem_cons.mp hm with rfl | hm
  · exact hrequest
  · exact hinside m hm

end Requests

namespace Session

/-! ### The account of a task -/

/-- The marked keys are those that were requested. -/
def Knows (s : Session) (keys : List Text) : Prop := ∀ key, key ∈ s.loaded ↔ key ∈ keys

theorem Knows.isMarked_eq {s : Session} {keys : List Text} (h : s.Knows keys) (path : Text) :
    isMarked keys path = isMarked s.loaded path := by
  rw [Bool.eq_iff_iff, isMarked_iff, isMarked_iff]
  exact (h _).symm

theorem Knows.append_of_isMarked {s : Session} {keys : List Text} (h : s.Knows keys)
    {path : Text} (hmarked : isMarked s.loaded path = true) :
    s.Knows (keys ++ [Path.clean path]) := by
  intro key
  rw [h key, List.mem_append, List.mem_singleton]
  constructor
  · exact Or.inl
  · rintro (hkey | rfl)
    · exact hkey
    · exact (h _).mp (isMarked_iff.mp hmarked)

theorem Knows.marking {s : Session} {keys : List Text} (h : s.Knows keys) (path : Text) :
    (s.marking path).Knows (keys ++ [Path.clean path]) := by
  intro key
  simp [Session.marking, h key]

/-- What the requests between two sessions come to, if these keys were requested
before. The status `own` belongs to a file whose lines are being gone through. -/
structure Accounts (earlier : List Text) (s : Session) (requests : Requests)
    (own : List Status) (t : Session) : Prop where
  known : t.Knows (earlier ++ requests.keys)
  statuses : t.statuses.toList = s.statuses.toList ++ (requests.statuses earlier ++ own)
  repeats : requests.RepeatsAreIdle earlier

namespace Accounts

theorem trans {earlier : List Text} {s t u : Session} {requests more : Requests}
    {own : List Status} (h : Accounts earlier s requests [] t)
    (hmore : Accounts (earlier ++ requests.keys) t more own u) :
    Accounts earlier s (requests ++ more) own u where
  known := by
    rw [Requests.keys_append, ← List.append_assoc]
    exact hmore.known
  statuses := by
    rw [hmore.statuses, h.statuses, Requests.statuses_append]
    simp
  repeats := h.repeats.append hmore.repeats

theorem nil {earlier : List Text} {s t : Session} {own : List Status} (hs : s.Knows earlier)
    (hloaded : t.loaded = s.loaded)
    (hstatuses : t.statuses.toList = s.statuses.toList ++ own) :
    Accounts earlier s .nil own t where
  known := by simpa [Knows, hloaded, Requests.keys] using hs
  statuses := hstatuses
  repeats := Requests.repeatsAreIdle_nil earlier

theorem single {earlier : List Text} {s t : Session} {request : Request} {inside : Requests}
    (hknown : t.Knows (earlier ++ request.key :: inside.keys))
    (hstatuses : t.statuses.toList = s.statuses.toList ++
      (inside.statuses (earlier ++ [request.key]) ++ (request.status? earlier).toList))
    (hidle : isMarked earlier request.path = true → request.IsIdle)
    (hinside : inside.RepeatsAreIdle (earlier ++ [request.key])) :
    Accounts earlier s (.cons request inside .nil) [] t where
  known := by simpa [Requests.keys_cons, Requests.keys] using hknown
  statuses := by simpa [Requests.statuses] using hstatuses
  repeats := .single (fun hkey => hidle (isMarked_iff.mpr hkey)) hinside

/-- A line by itself makes no request and leaves no status. -/
theorem of_line {earlier : List Text} {s t u : Session} {requests : Requests}
    {own : List Status} {site : Site} {text : Text} {fault : Option Fault}
    (hstep : s.step (.line site text) = (t, fault)) (hs : s.Knows earlier)
    (h : t.Knows earlier → Accounts earlier t requests own u) :
    Accounts earlier s requests own u := by
  obtain ⟨warnings, hnotes⟩ := s.notes_step_line site text
  rw [hstep] at hnotes
  have hloaded : t.loaded = s.loaded := congrArg Notes.loaded hnotes
  have hstatuses : t.statuses = s.statuses := congrArg Notes.statuses hnotes
  have ht := h (by rw [Knows, hloaded]; exact hs)
  exact { ht with statuses := by rw [ht.statuses, hstatuses] }

end Accounts

end Session

/-- The status that a task leaves for itself. -/
def Task.own : Task → Option Fault → List Status
  | .request .., _ => []
  | .lines file _ _, fault => if fault.isNone then [.loaded file] else []

namespace Session

theorem Yields.accounts {fs : FileSystem} {task : Task} {s : Session}
    {r : Session × Option Fault} {requests : Requests} (h : Yields fs task s r requests)
    {earlier : List Text} (hs : s.Knows earlier) :
    Accounts earlier s requests (task.own r.2) r.1 := by
  induction h generalizing earlier with
  | @repeated s path _ _ marked =>
      have hmarked : isMarked earlier path = true := (hs.isMarked_eq path).trans marked
      refine .single (hs.append_of_isMarked marked) ?_ (fun _ => ⟨rfl, rfl⟩)
        (Requests.repeatsAreIdle_nil _)
      simp [note, Requests.statuses, Request.status?, hmarked]
  | @unreadable s path failure origin unmarked =>
      have hunmarked : ¬isMarked earlier path = true := hs.isMarked_eq path ▸ unmarked
      refine .single (hs.marking path) ?_ (fun hmarked => absurd hmarked hunmarked)
        (Requests.repeatsAreIdle_nil _)
      simp [Session.marking, Requests.statuses, Request.status?]
  | @entered s t path content origin fault requests unmarked lines ih =>
      have hunmarked : ¬isMarked earlier path = true := hs.isMarked_eq path ▸ unmarked
      have hinside := ih (hs.marking path)
      have hknown := hinside.known
      rw [List.append_assoc] at hknown
      -- A file that is entered for the first time leaves its status at its end.
      have hown : (Request.status? earlier ⟨path, s, t.placed s.site, fault, true⟩).toList =
          (Task.lines path 0 (Source.lines content)).own fault := by
        rcases fault <;> simp [Request.status?, Task.own, hunmarked]
      refine .single hknown ?_ (fun hmarked => absurd hmarked hunmarked) hinside.repeats
      rw [hown]
      exact hinside.statuses
  | finished => exact .nil hs rfl (by simp [note, Task.own])
  | failed step => exact .of_line step hs fun ht => .nil ht rfl (by simp [Task.own])
  | stopped step stop => exact .of_line step hs fun ht => .nil ht rfl (by simp [note, Task.own])
  | passed step unstopped plain next ih => exact .of_line step hs ih
  | included step includes inner next ihInner ihNext =>
      exact .of_line step hs fun ht => (ihInner ht).trans (ihNext (ihInner ht).known)
  | broken step includes inner ih => exact .of_line step hs ih

end Session

/-! ### The account of a session -/

/-- The path that an operation requests, and what is found there. -/
def Operation.sought? (fs : FileSystem) :
    Operation → Option (Text × Except FileSystem.Failure Text)
  | .load path => some (path, fs.read path)
  | .loadSource name source => some (name, .ok source)
  | _ => none

namespace Session

/-- The session makes these requests in the course of operations, each of which
finds the files as they are by then. -/
inductive Serves : Session → List (FileSystem × Operation) → Requests → Prop
  | nil {s : Session} : Serves s [] .nil
  | load {s : Session} {fs : FileSystem} {operation : Operation} {path : Text}
      {found : Except FileSystem.Failure Text} {r : Session × Option Fault}
      {rest : List (FileSystem × Operation)} {requests more : Requests}
      (sought : operation.sought? fs = some (path, found))
      (yields : Yields fs (.request path found none) s r requests)
      (later : Serves r.1 rest more) :
      Serves s ((fs, operation) :: rest) (requests ++ more)
  | other {s : Session} {fs : FileSystem} {operation : Operation}
      {rest : List (FileSystem × Operation)} {requests : Requests}
      (sought : operation.sought? fs = none)
      (later : Serves (s.operate fs operation).1 rest requests) :
      Serves s ((fs, operation) :: rest) requests

theorem Serves.unique {s : Session} {calls : List (FileSystem × Operation)}
    {requests requests' : Requests} (h : Serves s calls requests)
    (h' : Serves s calls requests') : requests = requests' := by
  induction h generalizing requests' with
  | nil =>
      cases h'
      rfl
  | load sought yields _ ih =>
      cases h' with
      | load sought' yields' later =>
          cases sought.symm.trans sought'
          obtain ⟨rfl, rfl⟩ := yields.unique yields'
          rw [ih later]
      | other sought' => cases sought.symm.trans sought'
  | other sought _ ih =>
      cases h' with
      | load sought' => cases sought.symm.trans sought'
      | other _ later => exact ih later

theorem exists_yields_operate {fs : FileSystem} {operation : Operation} {path : Text}
    {found : Except FileSystem.Failure Text} (s : Session)
    (h : operation.sought? fs = some (path, found)) :
    ∃ fault requests,
      Yields fs (.request path found none) s ((s.operate fs operation).1, fault) requests := by
  cases operation with
  | load path =>
      cases h
      exact ⟨_, exists_yields_load fs s path⟩
  | loadSource name source =>
      cases h
      exact ⟨_, exists_yields_loadSource fs s path source⟩
  | rebase _ | setStrict _ | setListed _ => cases h

theorem notes_operate_of_sought?_eq_none {fs : FileSystem} {operation : Operation}
    (s : Session) (h : operation.sought? fs = none) :
    (s.operate fs operation).1.notes = s.notes := by
  cases operation with
  | load _ | loadSource _ _ => cases h
  | rebase base =>
      obtain ⟨_, _, _, heq⟩ := s.exists_operate_rebase_eq fs base
      rw [heq]
      rfl
  | setStrict _ | setListed _ => rfl

theorem exists_serves_accounts {s : Session} {earlier : List Text} (hs : s.Knows earlier)
    (calls : List (FileSystem × Operation)) :
    ∃ requests, Serves s calls requests ∧
      Accounts earlier s requests [] (s.operateEach calls) := by
  induction calls generalizing s earlier with
  | nil => exact ⟨_, .nil, .nil hs rfl (List.append_nil _).symm⟩
  | cons call rest ih =>
      obtain ⟨fs, operation⟩ := call
      cases hsought : operation.sought? fs with
      | some sought =>
          obtain ⟨fault, requests, hyields⟩ := exists_yields_operate s hsought
          have hfirst := hyields.accounts hs
          obtain ⟨more, hserves, haccounts⟩ := ih hfirst.known
          exact ⟨_, .load hsought hyields hserves, hfirst.trans haccounts⟩
      | none =>
          have hnotes := notes_operate_of_sought?_eq_none s hsought
          have hloaded : (s.operate fs operation).1.loaded = s.loaded :=
            congrArg Notes.loaded hnotes
          have hstatuses : (s.operate fs operation).1.statuses = s.statuses :=
            congrArg Notes.statuses hnotes
          obtain ⟨requests, hserves, haccounts⟩ := ih (by rw [Knows, hloaded]; exact hs)
          refine ⟨_, .other hsought hserves, { haccounts with statuses := ?_ }⟩
          rw [operateEach_cons, haccounts.statuses, hstatuses]

theorem perform_of_isMarked {s : Session} {path : Text} {events : List Event}
    (hmarked : isMarked s.loaded path = true) (hevents : events = [.repeated path]) :
    s.perform path events =
      (s.note (.alreadyLoaded path), .ok (.alreadyLoaded path)) := by
  rw [hevents, perform, if_pos hmarked]
  rfl

/-- The requests of a new session, in the course of any operations, are one tree. A
request whose key was requested before, perhaps by a request that is still going on,
leaves the session as it is but for a status; and so does every later one, whatever
the files or the given text are by then. All statuses are those of requests that did
not fail, one for each, in the order in which requests are over, and say that a path
was loaded for the first request of its key only. -/
theorem exists_requests_of_operations (base : UInt32) (constants : Constants)
    (strict listed : Bool) (calls : List (FileSystem × Operation)) :
    let s : Session := { base, constants, strict, listed }
    let t := s.operateEach calls
    ∃ requests, (∀ requests', Serves s calls requests' ↔ requests' = requests) ∧
      (∀ earlier request later, requests.made = earlier ++ request :: later →
        (∃ other ∈ earlier, other.key = request.key) →
        request.after = request.before.note (.alreadyLoaded request.path) ∧
          request.fault = none) ∧
      (∀ request ∈ requests.made, ∀ fs path source, Path.clean path = request.key →
        t.load fs path = (t.note (.alreadyLoaded path), .ok (.alreadyLoaded path)) ∧
        t.loadSource fs path source =
          (t.note (.alreadyLoaded path), .ok (.alreadyLoaded path))) ∧
      t.statuses.toList = requests.statuses [] ∧
      t.statuses.size = requests.made.countP (·.fault.isNone) ∧
      ∀ path, (Status.alreadyLoaded path).message = path ++ (" was already loaded" : Text) ∧
        (Status.loaded path).message = path ++ (" loaded with no issues" : Text) := by
  intro s t
  have hknows : s.Knows [] := fun _ => Iff.rfl
  obtain ⟨requests, hserves, haccounts⟩ := exists_serves_accounts hknows calls
  have hstatuses : t.statuses.toList = requests.statuses [] := by
    simpa [s] using haccounts.statuses
  refine ⟨requests, fun requests' => ⟨fun h => h.unique hserves, fun h => h ▸ hserves⟩, ?_, ?_,
    hstatuses, ?_, ?_⟩
  · intro earlier request later hmade hrepeat
    obtain ⟨other, hother, hkey⟩ := hrepeat
    have hmem : (earlier.map Request.key, request) ∈ Request.inOrder [] requests.made := by
      rw [hmade, Request.inOrder_append]
      simp [Request.inOrder]
    exact haccounts.repeats _ hmem (hkey ▸ List.mem_map_of_mem hother)
  · intro request hrequest fs path source hkey
    have hmarked : isMarked t.loaded path = true := by
      rw [isMarked_iff, hkey]
      exact (haccounts.known _).mpr (List.mem_map_of_mem hrequest)
    constructor
    · exact perform_of_isMarked hmarked (by rw [request_eq, if_pos hmarked])
    · exact perform_of_isMarked hmarked (by rw [provide, if_pos hmarked])
  · rw [← Array.length_toList, hstatuses, Requests.length_statuses]
  · intro path
    simp [Status.message, Text.concat]

-- Two files that include each other, one of them also itself, and a request for a file that is
-- not there any more.
example :
    let fs : FileSystem :=
      { files := [(["a.s"], ".include \"b.s\""), (["b.s"], ".include \"./a.s\"\n.include b.s")] }
    (({} : Session).operateEach [(fs, .load "./a.s"), ({}, .load "b.s")]).statuses =
      #[.alreadyLoaded "a.s", .alreadyLoaded "b.s", .loaded "b.s", .loaded "./a.s",
        .alreadyLoaded "b.s"] := by
  decide +kernel

end Session

end FlatAssembler
