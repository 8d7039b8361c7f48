import FlatAssembler.Proofs.Persistence

/-!
# Constants are for good

A constant keeps its value from the point at which it has one: through every line,
every load, whether or not it fails, and every move. `timeline` lists the sessions of
a history in the order of time, also those in the middle of a load, and
`pairwise_timeline` compares any earlier one with any later one.

A name that is a constant is not looked up among the symbols, so a label of the same
name, or an export, changes nothing of what it stands for and leaves no trace in the
relocations. And a line that would define it again fails before it looks at its
expression.
-/

namespace FlatAssembler

namespace Scope

/-- A name that is no literal stands for its constant, whatever the symbols are. -/
theorem evaluate_of_constant {scope : Scope} {name : List Char} {value : Int64}
    (hblank : ∀ c ∈ name, isBlank c = false) (hliteral : Literal.parse? name = none)
    (h : scope.constants.get? (Text.ofChars name) = some value) :
    scope.evaluate (Text.ofChars name) = { value := .ok value } := by
  have hatom : scope.atom? name = some { value := .ok value } := by
    rw [atom?, hliteral]
    simp only [h]
  rw [evaluate, Text.unspaced_ofChars, withoutBlanks_eq_self hblank, evaluateChars, hatom]

end Scope

namespace Session

/-- The sessions of a history in the order of time: at the beginning of each call, at
each event that it reaches, and at the end. -/
def timeline (s : Session) : List (FileSystem × Operation) → List Session
  | [] => [s]
  | (fs, operation) :: rest =>
      s :: ((s.moments (operation.events fs s)).map Prod.fst ++
        (s.operate fs operation).1.timeline rest)

/-- Every constant of the one session has its value in the other. -/
def ConstantsPersist (s t : Session) : Prop := s.constants.Persists t.constants

theorem ConstantsPersist.trans {s t u : Session} (h : ConstantsPersist s t)
    (h' : ConstantsPersist t u) : ConstantsPersist s u :=
  Constants.Persists.trans h h'

theorem constantsPersist_step (s : Session) (event : Event) :
    ConstantsPersist s (s.step event).1 :=
  (compatible_keeps.step s event).constants

theorem constantsPersist_run (s : Session) (events : List Event) :
    ConstantsPersist s (s.run events).1 :=
  (compatible_keeps.run s events).constants

theorem constantsPersist_operate (s : Session) (fs : FileSystem) (operation : Operation) :
    ConstantsPersist s (s.operate fs operation).1 := by
  rcases s.operate_cases fs operation with ⟨heq, -⟩ | ⟨base, rfl⟩ | ⟨_, rfl⟩ | ⟨_, rfl⟩
  · rw [heq]
    exact s.constantsPersist_run _
  · obtain ⟨_, _, -, heq⟩ := s.exists_operate_rebase_eq fs base
    rw [heq]
    exact Constants.Persists.refl _
  · exact Constants.Persists.refl _
  · exact Constants.Persists.refl _

/-! ### From moment to moment -/

/-- The sessions in the middle of a run lie between its two ends. -/
theorem constantsPersist_of_mem_moments {s t : Session} {events : List Event}
    (ht : t ∈ (s.moments events).map Prod.fst) :
    ConstantsPersist s t ∧ ConstantsPersist t (s.run events).1 := by
  induction events generalizing s with
  | nil => cases ht
  | cons event rest ih =>
      have hstep := s.constantsPersist_step event
      rcases h : s.step event with ⟨u, _ | fault⟩ <;> rw [h] at hstep
      · rw [moments_cons_of_none h, List.map_cons] at ht
        rcases List.mem_cons.mp ht with rfl | ht
        · exact ⟨Constants.Persists.refl _, constantsPersist_run _ _⟩
        · obtain ⟨hbefore, hafter⟩ := ih ht
          rw [run_cons_of_none h]
          exact ⟨hstep.trans hbefore, hafter⟩
      · rw [moments_cons_of_some h] at ht
        rw [List.mem_singleton.mp ht]
        exact ⟨Constants.Persists.refl _, constantsPersist_run _ _⟩

theorem pairwise_moments (s : Session) (events : List Event) :
    ((s.moments events).map Prod.fst).Pairwise ConstantsPersist := by
  induction events generalizing s with
  | nil => exact List.Pairwise.nil
  | cons event rest ih =>
      have hstep := s.constantsPersist_step event
      rcases h : s.step event with ⟨u, _ | fault⟩ <;> rw [h] at hstep
      · rw [moments_cons_of_none h, List.map_cons]
        refine List.Pairwise.cons ?_ (ih u)
        intro t ht
        exact hstep.trans (constantsPersist_of_mem_moments ht).1
      · rw [moments_cons_of_some h]
        exact List.pairwise_singleton _ _

theorem constantsPersist_of_mem_timeline {s t : Session} {calls : List (FileSystem × Operation)}
    (ht : t ∈ s.timeline calls) : ConstantsPersist s t := by
  induction calls generalizing s with
  | nil =>
      rw [List.mem_singleton.mp ht]
      exact Constants.Persists.refl _
  | cons call rest ih =>
      obtain ⟨fs, operation⟩ := call
      rw [timeline, List.mem_cons, List.mem_append] at ht
      rcases ht with rfl | ht | ht
      · exact Constants.Persists.refl _
      · exact (constantsPersist_of_mem_moments ht).1
      · exact (s.constantsPersist_operate fs operation).trans (ih ht)

/-- A constant of any session of a history has its value in all later ones. -/
theorem pairwise_timeline (s : Session) (calls : List (FileSystem × Operation)) :
    (s.timeline calls).Pairwise ConstantsPersist := by
  induction calls generalizing s with
  | nil => exact List.pairwise_singleton _ _
  | cons call rest ih =>
      obtain ⟨fs, operation⟩ := call
      rw [timeline, List.pairwise_cons, List.pairwise_append]
      refine ⟨?_, s.pairwise_moments _, ih _, ?_⟩
      · intro t ht
        have hmem : t ∈ s.timeline ((fs, operation) :: rest) := List.mem_cons_of_mem _ ht
        exact constantsPersist_of_mem_timeline hmem
      · -- The end of the run is where the call ends, but for the place in the source.
        intro t ht u hu
        have hend : ConstantsPersist t (s.operate fs operation).1 := by
          rcases s.operate_cases fs operation with ⟨heq, -⟩ | ⟨_, rfl⟩ | ⟨_, rfl⟩ | ⟨_, rfl⟩
          · rw [heq]
            exact (constantsPersist_of_mem_moments ht).2
          all_goals cases ht
        exact hend.trans (constantsPersist_of_mem_timeline hu)

theorem get?_of_timeline {s t u : Session} {calls : List (FileSystem × Operation)} {i j : Nat}
    (hij : i ≤ j) (ht : (s.timeline calls)[i]? = some t) (hu : (s.timeline calls)[j]? = some u)
    {name : Text} {value : Int64} (h : t.constants.get? name = some value) :
    u.constants.get? name = some value := by
  obtain ⟨hi, rfl⟩ := List.getElem?_eq_some_iff.mp ht
  obtain ⟨hj, rfl⟩ := List.getElem?_eq_some_iff.mp hu
  rcases Nat.lt_or_eq_of_le hij with hlt | rfl
  · exact List.pairwise_iff_getElem.mp (s.pairwise_timeline calls) i j hi hj hlt name value h
  · exact h

/-! ### Uses and second definitions -/

theorem evaluate_of_constant {s : Session} {name : List Char} {value : Int64}
    (hblank : ∀ c ∈ name, isBlank c = false) (hliteral : Literal.parse? name = none)
    (h : s.constants.get? (Text.ofChars name) = some value) :
    s.evaluate (Text.ofChars name) = (s, .ok value) := by
  have hscope : s.scope.evaluate (Text.ofChars name) = { value := .ok value } :=
    Scope.evaluate_of_constant hblank hliteral h
  rw [evaluate, hscope]
  rfl

/-- A line that defines a constant again does nothing but bind its label. -/
theorem assembleLine_of_constant {s : Session} {name : Text} {value : Int64}
    (h : s.constants.get? name = some value) (site : Site) {text expression : Text}
    (haction : (Statement.parse text).action = .constant)
    (harguments : (Statement.parse text).arguments = [name, expression]) :
    s.assembleLine site text =
      (s.atLine site (Statement.parse text),
        some ((Cause.alreadyDefined name).onLine site text)) := by
  have hline : (s.atLine site (Statement.parse text)).constants.get? name = some value := by
    rw [atLine_eq]
    exact h
  apply assembleLine_of_some
  rw [execute_constant haction harguments, defineConstant_of_some hline]

/-- Take a name that is a constant at some point of a history. At this point and at
every later one it has the same value, it evaluates to this value in any slot without
a trace in the session, and a line that defines it again fails with a definition error
and adds neither relocations nor warnings nor constants. -/
theorem constant_immutable (name : List Char) (hblank : ∀ c ∈ name, isBlank c = false)
    (hliteral : Literal.parse? name = none) (s : Session)
    (calls : List (FileSystem × Operation)) (i j : Nat) (hij : i ≤ j) (t u : Session)
    (ht : (s.timeline calls)[i]? = some t) (hu : (s.timeline calls)[j]? = some u)
    (value : Int64) (hvalue : t.constants.get? (Text.ofChars name) = some value) :
    u.constants.get? (Text.ofChars name) = some value ∧
      (∀ slot, { u with slot }.evaluate (Text.ofChars name) = ({ u with slot }, .ok value)) ∧
      ∀ site text expression, (Statement.parse text).action = .constant →
        (Statement.parse text).arguments = [Text.ofChars name, expression] →
        ∃ v fault, u.assembleLine site text = (v, some fault) ∧ fault.kind = .definition ∧
          v.relocations = u.relocations ∧ v.warnings = u.warnings ∧
          v.constants = u.constants := by
  have hlater : u.constants.get? (Text.ofChars name) = some value :=
    get?_of_timeline hij ht hu hvalue
  refine ⟨hlater, ?_, ?_⟩
  · intro slot
    exact evaluate_of_constant hblank hliteral hlater
  · intro site text expression haction harguments
    refine ⟨_, _, assembleLine_of_constant hlater site haction harguments, rfl, ?_⟩
    rw [atLine_eq]
    exact ⟨rfl, rfl, rfl⟩

/-- A constant is defined in the middle of a load, when a label of the same name has
been used already. The load fails, the output is moved, and the name is exported. -/
theorem constant_immutable_shadowing :
    let calls : List (FileSystem × Operation) :=
      [({}, .loadSource "m.s" "N: .word N\n.equ N,7\nN: .byte N,?"), ({}, .rebase 4096),
        ({}, .loadSource "n.s" ".global N\n.byte N\n.equ N,N/0")]
    let u := ({} : Session).operateEach calls
    u.symbols = [⟨"N", 4, true⟩] ∧ u.bytes = #[0, 16, 0, 0, 7, 7] ∧ u.relocations = #[0] ∧
      ∀ slot, { u with slot }.evaluate (Text.ofChars ['N']) = ({ u with slot }, .ok 7) := by
  intro calls u
  obtain ⟨t, ht⟩ : ∃ t, (({} : Session).timeline calls)[4]? = some t :=
    Option.isSome_iff_exists.mp (by decide +kernel)
  have hvalue : ((({} : Session).timeline calls)[4]?).map
      (·.constants.get? (Text.ofChars ['N'])) = some (some 7) := by
    decide +kernel
  rw [ht] at hvalue
  have hu : (({} : Session).timeline calls)[11]? = some u := by decide +kernel
  exact ⟨by decide +kernel, by decide +kernel, by decide +kernel,
    (constant_immutable ['N'] (List.forall_mem_singleton.mpr rfl) (by decide) {} calls 4 11
      (by decide) t u ht hu 7 (Option.some.inj hvalue)).2.1⟩

end Session

end FlatAssembler
