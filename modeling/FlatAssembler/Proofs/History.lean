import FlatAssembler.Proofs.Growth
import FlatAssembler.Proofs.Rebase

/-!
# Histories of a session

A session lives through the operations of its caller: loads, moves to another
base, and changes of its settings. `operate` carries one out and tells whether it
succeeded, `operateAll` goes through a list of them, and `Always` says that
something holds each time that an operation is about to begin. Files may change
from one operation to the next; `operateEach` takes each with the files of its time.

Inside a load, `moments` lists the events that are reached, each with the session
that meets it, up to and including the one that fails. What a source consults or
puts out is said over these moments, so that nothing is asked of lines that are
never reached.
-/

namespace FlatAssembler

/-- What a caller can ask of a session. -/
inductive Operation where
  | load (path : Text)
  | loadSource (name source : Text)
  | rebase (base : UInt32)
  | setStrict (enabled : Bool)
  | setListed (enabled : Bool)
  deriving DecidableEq, Repr

namespace Operation

/-- Whether source is assembled. -/
def isLoad : Operation → Bool
  | .load _ | .loadSource .. => true
  | _ => false

/-- Whether the output is moved to another base. -/
def isRebase : Operation → Bool
  | .rebase _ => true
  | _ => false

/-- The events of the source that the operation makes a session go through. -/
def events (fs : FileSystem) (s : Session) : Operation → List Event
  | .load path => Source.request fs s.loaded path none
  | .loadSource name source => Source.provide fs s.loaded name source
  | _ => []

/-- The base that is in effect after operations that begin at a base. -/
def lastBase : UInt32 → List Operation → UInt32
  | base, [] => base
  | _, .rebase base :: rest => lastBase base rest
  | base, _ :: rest => lastBase base rest

end Operation

namespace Session

/-- The events that a run reaches, each with the session that meets it. -/
def moments (s : Session) : List Event → List (Session × Event)
  | [] => []
  | event :: rest =>
      (s, event) ::
        match s.step event with
        | (t, none) => t.moments rest
        | (_, some _) => []

/-- Carries out an operation, and tells whether it succeeded. -/
def operate (s : Session) (fs : FileSystem) : Operation → Session × Bool
  | .load path => ((s.load fs path).1, (s.load fs path).2.isOk)
  | .loadSource name source =>
      ((s.loadSource fs name source).1, (s.loadSource fs name source).2.isOk)
  | .rebase base =>
      match s.rebase base with
      | .ok t => (t, true)
      | .error e => (e.session, false)
  | .setStrict enabled => ({ s with strict := enabled }, true)
  | .setListed enabled => ({ s with listed := enabled }, true)

/-- The operation succeeds. -/
def Succeeds (fs : FileSystem) (s : Session) (operation : Operation) : Prop :=
  (s.operate fs operation).2 = true

instance (fs : FileSystem) (s : Session) (operation : Operation) :
    Decidable (Succeeds fs s operation) :=
  inferInstanceAs (Decidable (_ = true))

/-- The operation is a load that fails with this fault. -/
def FailsWith (fs : FileSystem) (s : Session) (operation : Operation) (fault : Fault) : Prop :=
  match operation with
  | .load path => (s.load fs path).2 = .error fault
  | .loadSource name source => (s.loadSource fs name source).2 = .error fault
  | _ => False

/-- The session after a list of operations, whether or not they succeed. -/
def operateAll (s : Session) (fs : FileSystem) (operations : List Operation) : Session :=
  operations.foldl (fun s operation => (s.operate fs operation).1) s

/-- Each of the operations begins in a session of which `P` holds. -/
def Always (fs : FileSystem) (P : Session → Operation → Prop) :
    Session → List Operation → Prop
  | _, [] => True
  | s, operation :: rest => P s operation ∧ Always fs P (s.operate fs operation).1 rest

instance Always.decidable (fs : FileSystem) (P : Session → Operation → Prop)
    [∀ s operation, Decidable (P s operation)] :
    ∀ (s : Session) (operations : List Operation), Decidable (Always fs P s operations)
  | _, [] => .isTrue trivial
  | s, operation :: rest =>
      have := Always.decidable fs P (s.operate fs operation).1 rest
      inferInstanceAs (Decidable (P s operation ∧ _))

/-- The moments of all loads among a list of operations. -/
def history (s : Session) (fs : FileSystem) : List Operation → List (Session × Event)
  | [] => []
  | operation :: rest =>
      s.moments (operation.events fs s) ++ (s.operate fs operation).1.history fs rest

/-- The session after operations, each of which finds the files as they are by then. -/
def operateEach (s : Session) (calls : List (FileSystem × Operation)) : Session :=
  calls.foldl (fun s call => (s.operate call.1 call.2).1) s

/-- The moments of all loads among them. -/
def historyEach (s : Session) : List (FileSystem × Operation) → List (Session × Event)
  | [] => []
  | (fs, operation) :: rest =>
      s.moments (operation.events fs s) ++ (s.operate fs operation).1.historyEach rest

/-! ### Runs, one event at a time -/

theorem run_cons_of_none {s t : Session} {event : Event} (h : s.step event = (t, none))
    (rest : List Event) : s.run (event :: rest) = t.run rest := by
  rw [run, h]

theorem run_cons_of_some {s t : Session} {event : Event} {fault : Fault}
    (h : s.step event = (t, some fault)) (rest : List Event) :
    s.run (event :: rest) = (t, some fault) := by
  rw [run, h]

theorem step_of_run_cons {s : Session} {event : Event} {rest : List Event}
    (h : (s.run (event :: rest)).2 = none) :
    ∃ t, s.step event = (t, none) ∧ (t.run rest).2 = none := by
  rcases hstep : s.step event with ⟨t, _ | fault⟩
  · rw [run_cons_of_none hstep] at h
    exact ⟨t, rfl, h⟩
  · rw [run_cons_of_some hstep] at h
    cases h

theorem moments_cons_of_none {s t : Session} {event : Event} (h : s.step event = (t, none))
    (rest : List Event) : s.moments (event :: rest) = (s, event) :: t.moments rest := by
  rw [moments, h]

theorem moments_cons_of_some {s t : Session} {event : Event} {fault : Fault}
    (h : s.step event = (t, some fault)) (rest : List Event) :
    s.moments (event :: rest) = [(s, event)] := by
  rw [moments, h]

/-- Two sessions whose every event keeps them related stay related, and where
the one run has no failure the other has none. -/
theorem run_related {R : Session → Session → Prop} {s u : Session} {events : List Event}
    (hs : R s u) (h : (s.run events).2 = none)
    (hstep : ∀ m ∈ s.moments events, ∀ t v, m.1.step m.2 = (t, none) →
      Grows t (s.run events).1 → R m.1 v → ∃ w, v.step m.2 = (w, none) ∧ R t w) :
    (u.run events).2 = none ∧ R (s.run events).1 (u.run events).1 := by
  induction events generalizing s u with
  | nil => exact ⟨rfl, hs⟩
  | cons event rest ih =>
      obtain ⟨t, ht, hrest⟩ := step_of_run_cons h
      rw [run_cons_of_none ht, moments_cons_of_none ht] at *
      obtain ⟨w, hw, hR⟩ :=
        hstep (s, event) List.mem_cons_self t u ht (t.grows_run rest) hs
      rw [run_cons_of_none hw]
      exact ih hR hrest fun m hm => hstep m (List.mem_cons_of_mem _ hm)

/-! ### Operations -/

theorem perform_eq (s : Session) (path : Text) (events : List Event) :
    (s.perform path events).1 = { (s.run events).1 with site := s.site } ∧
      ((s.perform path events).2.isOk = true ↔ (s.run events).2 = none) := by
  rw [perform]
  cases h : (s.run events).2 with
  | none => simp [Except.isOk, Except.toBool]
  | some fault => simp [Except.isOk, Except.toBool]

theorem perform_eq_error_iff (s : Session) (path : Text) (events : List Event) (fault : Fault) :
    (s.perform path events).2 = .error fault ↔ (s.run events).2 = some fault := by
  rw [perform]
  cases h : (s.run events).2 with
  | none => simp
  | some fault' => simp

theorem failsWith_iff {s : Session} {fs : FileSystem} {operation : Operation}
    (h : operation.isLoad = true) (fault : Fault) :
    FailsWith fs s operation fault ↔ (s.run (operation.events fs s)).2 = some fault := by
  cases operation with
  | load path => exact s.perform_eq_error_iff path _ fault
  | loadSource name source => exact s.perform_eq_error_iff name _ fault
  | rebase _ => cases h
  | setStrict _ => cases h
  | setListed _ => cases h

theorem operate_of_isLoad (s : Session) (fs : FileSystem) {operation : Operation}
    (h : operation.isLoad = true) :
    (s.operate fs operation).1 =
        { (s.run (operation.events fs s)).1 with site := s.site } ∧
      (Succeeds fs s operation ↔ (s.run (operation.events fs s)).2 = none) := by
  cases operation with
  | load path => exact s.perform_eq path _
  | loadSource name source => exact s.perform_eq name _
  | rebase _ => cases h
  | setStrict _ => cases h
  | setListed _ => cases h

theorem operate_rebase_of_ok {s t : Session} {base : UInt32} (h : s.rebase base = .ok t)
    (fs : FileSystem) : s.operate fs (.rebase base) = (t, true) := by
  rw [operate, h]

theorem rebase_of_operate {s : Session} {fs : FileSystem} {base : UInt32}
    (h : Succeeds fs s (.rebase base)) :
    s.rebase base = .ok (s.operate fs (.rebase base)).1 := by
  rw [Succeeds, operate] at h
  rw [operate]
  cases hrebase : s.rebase base with
  | ok t => rfl
  | error _ =>
      rw [hrebase] at h
      cases h

theorem operateAll_cons (s : Session) (fs : FileSystem) (operation : Operation)
    (rest : List Operation) :
    s.operateAll fs (operation :: rest) =
      (s.operate fs operation).1.operateAll fs rest := rfl

theorem operateEach_cons (s : Session) (fs : FileSystem) (operation : Operation)
    (rest : List (FileSystem × Operation)) :
    s.operateEach ((fs, operation) :: rest) = (s.operate fs operation).1.operateEach rest := rfl

/-- A move, whether or not it succeeds, changes at most the base and the bytes. -/
theorem exists_operate_rebase_eq (s : Session) (fs : FileSystem) (base : UInt32) :
    ∃ (b : UInt32) (bytes : Array UInt8), bytes.size = s.bytes.size ∧
      (s.operate fs (.rebase base)).1 = { s with base := b, bytes } := by
  rw [operate]
  cases hrebase : s.rebase base with
  | ok t =>
      have hmoved := moved_of_rebase hrebase
      exact ⟨base, t.bytes, hmoved.size_eq, hmoved.eq_with⟩
  | error e => exact ⟨s.base, s.bytes, rfl, session_of_rebase_eq_error hrebase⟩

/-- An operation goes through the events of a source, moves the output, or
changes a setting. -/
theorem operate_cases (s : Session) (fs : FileSystem) (operation : Operation) :
    ((s.operate fs operation).1 = { (s.run (operation.events fs s)).1 with site := s.site } ∧
        (Succeeds fs s operation ↔ (s.run (operation.events fs s)).2 = none)) ∨
      (∃ base, operation = .rebase base) ∨ (∃ enabled, operation = .setStrict enabled) ∨
      ∃ enabled, operation = .setListed enabled := by
  cases operation with
  | load path => exact Or.inl (s.operate_of_isLoad fs rfl)
  | loadSource name source => exact Or.inl (s.operate_of_isLoad fs rfl)
  | rebase base => exact Or.inr (Or.inl ⟨base, rfl⟩)
  | setStrict enabled => exact Or.inr (Or.inr (Or.inl ⟨enabled, rfl⟩))
  | setListed enabled => exact Or.inr (Or.inr (Or.inr ⟨enabled, rfl⟩))

theorem size_operate_le (s : Session) (fs : FileSystem) (operation : Operation) :
    s.bytes.size ≤ (s.operate fs operation).1.bytes.size := by
  rcases s.operate_cases fs operation with ⟨heq, -⟩ | ⟨base, rfl⟩ | ⟨_, rfl⟩ | ⟨_, rfl⟩
  · rw [heq]
    exact (s.grows_run _).size_le
  · obtain ⟨b, bytes, hsize, heq⟩ := s.exists_operate_rebase_eq fs base
    rw [heq]
    exact Nat.le_of_eq hsize.symm
  · exact Nat.le_refl _
  · exact Nat.le_refl _

theorem size_operateAll_le (s : Session) (fs : FileSystem) (operations : List Operation) :
    s.bytes.size ≤ (s.operateAll fs operations).bytes.size := by
  induction operations generalizing s with
  | nil => exact Nat.le_refl _
  | cons operation rest ih => exact Nat.le_trans (s.size_operate_le fs operation) (ih _)

theorem base_operate {s : Session} {fs : FileSystem} {operation : Operation}
    (h : Succeeds fs s operation) :
    (s.operate fs operation).1.base = Operation.lastBase s.base [operation] := by
  cases operation with
  | load path =>
      rw [(s.operate_of_isLoad fs rfl).1]
      exact (s.grows_run _).base
  | loadSource name source =>
      rw [(s.operate_of_isLoad fs rfl).1]
      exact (s.grows_run _).base
  | rebase base =>
      have hmoved := moved_of_rebase (rebase_of_operate h)
      exact congrArg Session.base hmoved.eq_with
  | setStrict _ => rfl
  | setListed _ => rfl

theorem base_operateAll {s : Session} {fs : FileSystem} {operations : List Operation}
    (h : Always fs (Succeeds fs) s operations) :
    (s.operateAll fs operations).base = Operation.lastBase s.base operations := by
  induction operations generalizing s with
  | nil => rfl
  | cons operation rest ih =>
      rw [operateAll_cons, ih h.2, base_operate h.1]
      cases operation <;> rfl

end Session

theorem Operation.lastBase_filter (base : UInt32) (operations : List Operation) :
    lastBase base (operations.filter (!·.isRebase)) = base := by
  induction operations with
  | nil => rfl
  | cons operation rest ih => cases operation <;> exact ih

end FlatAssembler
