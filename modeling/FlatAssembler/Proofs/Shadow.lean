import FlatAssembler.Proofs.Stream

/-!
# Sessions in step

`Shadows key s t` relates two sessions that differ in their notes only, where what
is marked in one is marked in the other, with the possible exception of `key`,
which may be marked in `s` alone. Runs through the same lines, in files that may
have different names but lie in one directory, keep two sessions in step: they
end in sessions that are in step, without a failure or with failures of the same
kind and text (`Outcome`).

The one thing that could tell them apart is a request for `key` while it is
marked. `Fresh` excludes it, for what is reached of the run of `s`. The proof goes
by the number of files that are not marked yet, which grows smaller with each
file that is entered, and inside of a file by its lines.
-/

namespace FlatAssembler

/-- Whether a line is reached that includes the path with this cleaned text. -/
def Event.requests (key : Text) : Event → Bool
  | .line site text =>
      ((Statement.parse text).included? site.file).any fun path => Path.clean path == key
  | _ => false

namespace Session

/-- Each time that a line includes this path, it is not loaded yet. -/
def Fresh (key : Text) (s : Session) (events : List Event) : Prop :=
  ∀ m ∈ s.moments events, m.2.requests key = true → key ∉ m.1.loaded

instance (key : Text) (s : Session) (events : List Event) : Decidable (Fresh key s events) :=
  List.decidableBAll (fun m : Session × Event => m.2.requests key = true → key ∉ m.1.loaded) _

theorem Fresh.left {key : Text} {s : Session} {events more : List Event}
    (h : Fresh key s (events ++ more)) : Fresh key s events := by
  intro m hm
  apply h m
  rw [moments_append]
  exact List.mem_append_left _ hm

theorem Fresh.right {key : Text} {s t : Session} {events more : List Event}
    (h : Fresh key s (events ++ more)) (ht : s.run events = (t, none)) : Fresh key t more := by
  intro m hm
  apply h m
  rw [moments_append, ht]
  exact List.mem_append_right _ hm

theorem Fresh.tail {key : Text} {s t : Session} {event : Event} {events : List Event}
    (h : Fresh key s (event :: events)) (ht : s.step event = (t, none)) : Fresh key t events := by
  intro m hm
  apply h m
  rw [moments_cons_of_none ht]
  exact List.mem_cons_of_mem _ hm

theorem Fresh.head {key path : Text} {s : Session} {site : Site} {text : Text}
    {events : List Event} (h : Fresh key s (.line site text :: events))
    (hpath : (Statement.parse text).included? site.file = some path)
    (hkey : Path.clean path = key) : key ∉ s.loaded := by
  apply h (s, .line site text)
  · rw [moments]
    exact List.mem_cons_self
  · simp [Event.requests, hpath, hkey]

/-! ### Two sessions -/

/-- The sessions differ in notes only, and `key` alone may be marked in the one
and not in the other. -/
structure Shadows (key : Text) (s t : Session) : Prop where
  eq_with : t = s.withNotes t.notes
  mem_iff : ∀ k, k ≠ key → (k ∈ t.loaded ↔ k ∈ s.loaded)
  mem_of_mem : key ∈ t.loaded → key ∈ s.loaded

/-- Two runs end in step, and fail or succeed alike. -/
def Outcome (key : Text) (r r' : Session × Option Fault) : Prop :=
  Shadows key r.1 r'.1 ∧ r.2.map Fault.outline = r'.2.map Fault.outline

theorem Shadows.refl (key : Text) (s : Session) : Shadows key s s where
  eq_with := rfl
  mem_iff := fun _ _ => Iff.rfl
  mem_of_mem := id

/-- Notes that keep the marks keep sessions in step. -/
theorem Shadows.withNotes {key : Text} {s t : Session} (h : Shadows key s t) {n m : Notes}
    (hn : n.loaded = s.loaded) (hm : m.loaded = t.loaded) :
    Shadows key (s.withNotes n) (t.withNotes m) where
  eq_with := by
    rw [h.eq_with]
    rfl
  mem_iff := by
    intro k hk
    change k ∈ m.loaded ↔ k ∈ n.loaded
    rw [hm, hn]
    exact h.mem_iff k hk
  mem_of_mem := by
    change key ∈ m.loaded → key ∈ n.loaded
    rw [hm, hn]
    exact h.mem_of_mem

/-- A session that has marked `key` shadows the one that has not. -/
theorem shadows_marked (key : Text) (s : Session) (site : Site) :
    Shadows key { s with site, loaded := s.loaded ++ [key] } s where
  eq_with := rfl
  mem_iff := by
    intro k hk
    simp [hk]
  mem_of_mem := List.mem_append_left _

theorem Shadows.isMarked_eq {key path : Text} {s t : Session} (h : Shadows key s t)
    (hpath : Path.clean path = key → key ∉ s.loaded) :
    Source.isMarked t.loaded path = Source.isMarked s.loaded path := by
  rw [Bool.eq_iff_iff, Source.isMarked_iff, Source.isMarked_iff]
  by_cases hkey : Path.clean path = key
  · rw [hkey]
    constructor
    · exact h.mem_of_mem
    · intro hmem
      exact absurd hmem (hpath hkey)
  · exact h.mem_iff _ hkey

theorem Shadows.entered {key : Text} {s t : Session} (h : Shadows key s t) (path : Text) :
    Shadows key { s with loaded := s.loaded ++ [path] }
      { t with loaded := t.loaded ++ [path] } where
  eq_with := by
    rw [h.eq_with]
    rfl
  mem_iff := by
    intro k hk
    simp only [List.mem_append, h.mem_iff k hk]
  mem_of_mem := by
    intro hmem
    rcases List.mem_append.mp hmem with hold | hnew
    · exact List.mem_append_left _ (h.mem_of_mem hold)
    · exact List.mem_append_right _ hnew

theorem Shadows.note {key : Text} {s t : Session} (h : Shadows key s t)
    (status status' : Status) : Shadows key (s.note status) (t.note status') :=
  h.withNotes (n := { s.notes with statuses := s.statuses.push status })
    (m := { t.notes with statuses := t.statuses.push status' }) rfl rfl

theorem Shadows.line {key : Text} {s t : Session} (h : Shadows key s t) (site site' : Site)
    (text : Text) : Outcome key (s.step (.line site text)) (t.step (.line site' text)) := by
  obtain ⟨warnings, hsession, hfault⟩ := s.step_line_withNotes t.notes site site' text
  rw [← h.eq_with] at hsession hfault
  refine ⟨?_, hfault.symm⟩
  obtain ⟨more, hnotes⟩ := s.notes_step_line site text
  have hloaded : (s.step (.line site text)).1.loaded = s.loaded := congrArg Notes.loaded hnotes
  rw [hsession]
  constructor
  · rfl
  · intro k hk
    rw [hloaded]
    exact h.mem_iff k hk
  · rw [hloaded]
    exact h.mem_of_mem

/-! ### Runs in step -/

theorem Outcome.refl (key : Text) (r : Session × Option Fault) : Outcome key r r :=
  ⟨Shadows.refl key r.1, rfl⟩

theorem Outcome.append {key : Text} {s t : Session} {events events' more more' : List Event}
    (h : Outcome key (s.run events) (t.run events'))
    (hmore : ∀ u v, s.run events = (u, none) → t.run events' = (v, none) → Shadows key u v →
      Outcome key (u.run more) (v.run more')) :
    Outcome key (s.run (events ++ more)) (t.run (events' ++ more')) := by
  obtain ⟨hshadows, hfault⟩ := h
  rcases hs : s.run events with ⟨u, _ | fault⟩
  · rcases ht : t.run events' with ⟨v, _ | fault'⟩
    · rw [hs, ht] at hshadows
      rw [run_append_of_none hs, run_append_of_none ht]
      exact hmore u v hs ht hshadows
    · rw [hs, ht] at hfault
      cases hfault
  · rcases ht : t.run events' with ⟨v, _ | fault'⟩
    · rw [hs, ht] at hfault
      cases hfault
    · rw [hs, ht] at hshadows hfault
      rw [run_append_of_some hs, run_append_of_some ht]
      exact ⟨hshadows, hfault⟩

theorem run_singleton (s : Session) (event : Event) : s.run [event] = s.step event := by
  rw [run]
  rcases s.step event with ⟨t, _ | fault⟩
  · rfl
  · rfl

theorem Outcome.cons {key : Text} {s t : Session} {event event' : Event}
    {events events' : List Event} (h : Outcome key (s.step event) (t.step event'))
    (hmore : ∀ u v, s.step event = (u, none) → t.step event' = (v, none) → Shadows key u v →
      Outcome key (u.run events) (v.run events')) :
    Outcome key (s.run (event :: events)) (t.run (event' :: events')) := by
  rw [← run_singleton, ← run_singleton] at h
  rw [← run_singleton, ← run_singleton] at hmore
  exact Outcome.append h hmore

theorem Shadows.completed {key : Text} {s t : Session} (h : Shadows key s t) (file : Text) :
    Outcome key (s.run [.completed file]) (t.run [.completed file]) := by
  rw [run_singleton, run_singleton]
  exact ⟨h.note _ _, rfl⟩

/-! ### Requests, lines and files in step -/

/-- Requests keep sessions in step while there are no more unmarked files than
this. -/
def Answers (fs : FileSystem) (key : Text) (bound : Nat) : Prop :=
  ∀ (s t : Session) (path : Text) (site site' : Site) (text : Text),
    Source.unread fs s.loaded ≤ bound → Shadows key s t →
    (Path.clean path = key → key ∉ s.loaded) →
    Fresh key s (Source.request fs s.loaded path (some (site, text))) →
    Outcome key (s.run (Source.request fs s.loaded path (some (site, text))))
      (t.run (Source.request fs t.loaded path (some (site', text))))

theorem included?_congr {file file' : Text} (h : Path.directory file' = Path.directory file)
    (st : Statement) : st.included? file' = st.included? file := by
  rw [Statement.included?, Statement.included?]
  simp only [Path.ofArgument, h]

section InStep

variable {fs : FileSystem} {key file file' : Text} {bound : Nat} {s t : Session}

theorem Shadows.lineEvents (h : Shadows key s t) (hanswers : Answers fs key bound)
    (hdirectory : Path.directory file' = Path.directory file)
    (hbound : Source.unread fs s.loaded ≤ bound) {index index' : Nat} {text : Text}
    (hfresh : Fresh key s (Source.lineEvents fs file s.loaded index text)) :
    Outcome key (s.run (Source.lineEvents fs file s.loaded index text))
      (t.run (Source.lineEvents fs file' t.loaded index' text)) := by
  cases hpath : (Statement.parse text).included? file with
  | none =>
      rw [Source.lineEvents_of_none hpath,
        Source.lineEvents_of_none ((included?_congr hdirectory _).trans hpath), run_singleton,
        run_singleton]
      exact h.line _ _ text
  | some path =>
      rw [Source.lineEvents_of_some hpath] at hfresh ⊢
      rw [Source.lineEvents_of_some ((included?_congr hdirectory _).trans hpath)]
      refine Outcome.cons (h.line _ _ text) ?_
      intro u v hu hv huv
      have hs : u.loaded = s.loaded := (loaded_step hu).trans (List.append_nil _)
      have ht : v.loaded = t.loaded := (loaded_step hv).trans (List.append_nil _)
      have hhead := hfresh.head hpath
      have htail := hfresh.tail hu
      rw [← hs] at hbound hhead htail ⊢
      rw [← ht]
      exact hanswers u v path _ _ text hbound huv hhead htail

theorem Shadows.body (h : Shadows key s t) (hanswers : Answers fs key bound)
    (hdirectory : Path.directory file' = Path.directory file)
    (hbound : Source.unread fs s.loaded ≤ bound) {index index' : Nat} {texts : List Text}
    (hfresh : Fresh key s (Source.body fs file s.loaded index texts)) :
    Outcome key (s.run (Source.body fs file s.loaded index texts))
      (t.run (Source.body fs file' t.loaded index' texts)) := by
  induction texts generalizing s t index index' with
  | nil => exact ⟨h, rfl⟩
  | cons text rest ih =>
      rw [Source.body] at hfresh
      rw [Source.body, Source.body]
      refine Outcome.append (h.lineEvents hanswers hdirectory hbound hfresh.left) ?_
      intro u v hu hv huv
      have hrest := hfresh.right hu
      rw [← loaded_run hu] at hrest ⊢
      rw [← loaded_run hv]
      refine ih huv ?_ hrest
      rw [loaded_run hu]
      exact Nat.le_trans (Source.unread_append_le fs _ _) hbound

/-- Two sessions in step answer every request alike. -/
theorem answers (fs : FileSystem) (key : Text) (bound : Nat) : Answers fs key bound := by
  induction bound using Nat.strongRecOn with
  | ind bound ih =>
      -- A file that is entered leaves fewer unmarked ones, so its lines may use `ih`.
      intro s t path site site' text hbound h hpath hfresh
      have hmark := h.isMarked_eq hpath
      by_cases hmarked : Source.isMarked s.loaded path = true
      · rw [Source.request_eq, if_pos hmarked, Source.request_eq, if_pos (hmark.trans hmarked),
          run_singleton, run_singleton]
        exact ⟨h.note _ _, rfl⟩
      · have hmarked' : ¬Source.isMarked t.loaded path = true := fun hyes =>
          hmarked (hmark.symm.trans hyes)
        cases hread : fs.read path with
        | error failure =>
            rw [Source.request_eq, if_neg hmarked, Source.request_eq, if_neg hmarked', hread]
            refine Outcome.cons ⟨h.entered (Path.clean path), rfl⟩ ?_
            intro u v hu hv huv
            rw [run_singleton, run_singleton]
            exact ⟨huv, rfl⟩
        | ok content =>
            rw [Source.request_of_ok hmarked hread] at hfresh ⊢
            rw [Source.request_of_ok hmarked' hread]
            refine Outcome.cons ⟨h.entered (Path.clean path), rfl⟩ ?_
            intro u v hu hv huv
            have hlt := Source.unread_lt hmarked hread
            have hinner := hfresh.tail hu
            cases hu
            cases hv
            refine Outcome.append
              (huv.body (ih _ (Nat.lt_of_lt_of_le hlt hbound)) rfl (Nat.le_refl _) hinner.left) ?_
            intro u v _ _ huv
            exact huv.completed path

end InStep

end Session

end FlatAssembler
