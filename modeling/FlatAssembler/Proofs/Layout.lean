import FlatAssembler.Proofs.History
import FlatAssembler.Proofs.LabelUse

/-!
# The layout does not depend on values

Values decide what the bytes are, and nothing else: not how many there are, not
where labels stand, not which slots are recorded. Two sessions that know the same
names with whatever values, at whatever bases, have the `SameLayout` and keep it
through every source.

An expression resolves its operands by their names alone, so two evaluations
differ in their values only (`Evaluation.shape`). The single branch that looks at
a value is the test for a zero divisor. Where one session meets a zero and the
other does not, their ways part: `Parallel` results agree unless one of them is
such a failure.
-/

namespace FlatAssembler

def Cause.IsDivision (cause : Cause) : Prop := ∃ expression, cause = .divisionByZero expression

/-- The fault is a definition error that a division by zero has caused. -/
def Fault.IsDivision (fault : Fault) : Prop :=
  fault.kind = .definition ∧ ∃ cause, fault.cause = some cause ∧ cause.IsDivision

theorem Cause.IsDivision.onLine {cause : Cause} (h : cause.IsDivision) (site : Site)
    (text : Text) : (cause.onLine site text).IsDivision := by
  refine ⟨?_, cause, rfl, h⟩
  obtain ⟨expression, rfl⟩ := h
  rfl

/-! ### Expressions -/

theorem cases_of_isSome_eq {α : Type} {o o' : Option α} (h : o'.isSome = o.isSome) :
    (∃ v v', o = some v ∧ o' = some v') ∨ o = none ∧ o' = none := by
  cases o <;> cases o' <;> simp_all

namespace Evaluation

/-- The evaluation with any value made zero: the labels that were consulted, and
what went wrong. -/
def shape (e : Evaluation) : Evaluation := e.map fun _ => 0

def Divides (e : Evaluation) : Prop := ∃ cause : Cause, e.value = .error cause ∧ cause.IsDivision

/-- The evaluations differ in their values only, unless one of them ended in a
division by zero. -/
def Alike (e e' : Evaluation) : Prop := e'.shape = e.shape ∨ e.Divides ∨ e'.Divides

@[simp] theorem shape_map (e : Evaluation) (f : Int64 → Int64) : (e.map f).shape = e.shape := by
  rcases e with ⟨labels, _ | value⟩ <;> rfl

theorem cases_of_shape_eq {e e' : Evaluation} (h : e'.shape = e.shape) :
    e'.labels = e.labels ∧
      ((∃ v v', e.value = .ok v ∧ e'.value = .ok v') ∨
        ∃ cause, e.value = .error cause ∧ e'.value = .error cause) := by
  rcases e with ⟨labels, cause | v⟩ <;> rcases e' with ⟨labels', cause' | v'⟩ <;>
    simp_all [shape, map, Except.map]

end Evaluation

namespace Scope

open Evaluation

/-- The scopes have the same symbols, and the same names for constants. -/
structure SameNames (scope scope' : Scope) : Prop where
  constants : ∀ name,
    (scope'.constants.get? name).isSome = (scope.constants.get? name).isSome
  symbols : scope'.symbols = scope.symbols

section SameNames

variable {scope scope' : Scope} (h : SameNames scope scope')
include h

theorem cases_atom? (cs : List Char) :
    (∃ e e', scope.atom? cs = some e ∧ scope'.atom? cs = some e' ∧ e'.shape = e.shape) ∨
      scope.atom? cs = none ∧ scope'.atom? cs = none := by
  unfold atom?
  cases Literal.parse? cs with
  | some l => exact Or.inl ⟨_, _, rfl, rfl, rfl⟩
  | none =>
      rcases cases_of_isSome_eq (h.constants (Text.ofChars cs)) with ⟨v, v', hv, hv'⟩ | ⟨hv, hv'⟩
      · rw [hv, hv']
        exact Or.inl ⟨_, _, rfl, rfl, rfl⟩
      · rw [hv, hv', h.symbols]
        cases scope.symbols.find (Text.ofChars cs) with
        | some symbol => exact Or.inl ⟨_, _, rfl, rfl, rfl⟩
        | none => exact Or.inr ⟨rfl, rfl⟩

theorem shape_atom (cs : List Char) : (scope'.atom cs).shape = (scope.atom cs).shape := by
  unfold atom
  rcases cases_atom? h cs with ⟨e, e', he, he', hshape⟩ | ⟨he, he'⟩
  · rw [he, he']
    exact hshape
  · rw [he, he']

theorem shape_operand (whole cs : List Char) :
    (scope'.operand whole cs).shape = (scope.operand whole cs).shape := by
  cases cs with
  | nil => rfl
  | cons c rest =>
      simp only [operand]
      cases Sign.ofChar? c with
      | none => exact shape_atom h _
      | some sign =>
          dsimp only
          split
          · rfl
          · cases Literal.parse? (c :: rest) with
            | some l => rfl
            | none => simp [shape_atom h rest]

/-- The accumulated values may differ from the start; only a divisor that is zero
in one scope tells the chains apart. -/
theorem alike_accumulate (whole : List Char) (terms : List Term) (acc acc' : Int64) :
    Alike (scope.accumulate whole terms acc) (scope'.accumulate whole terms acc') := by
  induction terms generalizing acc acc' with
  | nil => exact Or.inl rfl
  | cons term rest ih =>
      have hdivides {acc v : Int64} {scope : Scope}
          (hv : (scope.operand whole term.operand).value = .ok v)
          (hnext : term.operator.apply acc v = none) :
          (scope.accumulate whole (term :: rest) acc).Divides := by
        rw [accumulate_cons_of_none hv hnext]
        exact ⟨_, rfl, _, rfl⟩
      have hoperand := shape_operand h whole term.operand
      obtain ⟨hlabels, ⟨v, v', hv, hv'⟩ | ⟨cause, hv, hv'⟩⟩ := cases_of_shape_eq hoperand
      · cases hnext : term.operator.apply acc v with
        | none => exact Or.inr (Or.inl (hdivides hv hnext))
        | some next =>
            cases hnext' : term.operator.apply acc' v' with
            | none => exact Or.inr (Or.inr (hdivides hv' hnext'))
            | some next' =>
                rw [accumulate_cons_of_some hv hnext, accumulate_cons_of_some hv' hnext', hlabels]
                rcases ih next next' with hshape | hleft | hright
                · obtain ⟨hrest, -⟩ := cases_of_shape_eq hshape
                  have hvalue := congrArg Evaluation.value hshape
                  refine Or.inl ?_
                  rw [hrest]
                  exact congrArg (Evaluation.mk _) hvalue
                · exact Or.inr (Or.inl hleft)
                · exact Or.inr (Or.inr hright)
      · rw [accumulate_cons_of_error hv, accumulate_cons_of_error hv']
        exact Or.inl hoperand

theorem alike_evaluate (text : Text) : Alike (scope.evaluate text) (scope'.evaluate text) := by
  unfold evaluate evaluateChars
  rcases cases_atom? h text.unspaced with ⟨e, e', he, he', hshape⟩ | ⟨he, he'⟩
  · rw [he, he']
    exact Or.inl hshape
  · rw [he, he']
    dsimp only
    split
    · exact alike_accumulate h _ _ 0 0
    · exact Or.inl rfl

end SameNames

end Scope

namespace Session

/-! ### Lines -/

/-- The sessions may differ in their base, in the values of constants and in what
the bytes and the listing say. -/
structure SameLayout (s t : Session) : Prop where
  size : t.bytes.size = s.bytes.size
  symbols : t.symbols = s.symbols
  relocations : t.relocations = s.relocations
  warnings : t.warnings = s.warnings
  statuses : t.statuses = s.statuses
  loaded : t.loaded = s.loaded
  names : ∀ name, (t.constants.get? name).isSome = (s.constants.get? name).isSome
  strict : t.strict = s.strict
  slot : t.slot = s.slot
  site : t.site = s.site

/-- The results have the same layout and the same failure, if any, unless one of
them is a division by zero. -/
def Parallel {ε : Type} (IsDivision : ε → Prop) (r r' : Session × Option ε) : Prop :=
  (SameLayout r.1 r'.1 ∧ r'.2 = r.2) ∨ (∃ e, r.2 = some e ∧ IsDivision e) ∨
    ∃ e, r'.2 = some e ∧ IsDivision e

namespace SameLayout

variable {s t : Session} (h : SameLayout s t)
include h

theorem sameNames : Scope.SameNames s.scope t.scope := ⟨h.names, h.symbols⟩

theorem cursor_eq : t.cursor = s.cursor := by
  rw [cursor, cursor, h.size]

theorem record (labels : List Text) : SameLayout (s.record labels) (t.record labels) := by
  rw [record_eq, record_eq]
  have hentries : t.entries labels = s.entries labels := by
    simp only [entries, h.slot, h.strict, h.cursor_eq]
  have hcautions : t.cautions labels = s.cautions labels := by
    simp only [cautions, h.slot, h.strict, h.site]
  exact { h with
    relocations := by rw [h.relocations, hentries]
    warnings := by rw [h.warnings, hcautions] }

theorem append (width : Width) (value value' : Int64) :
    SameLayout (s.append width value) (t.append width value') :=
  { h with size := by rw [size_append, size_append, h.size] }

/-- What an argument consults and whether it has a value is the same in both
sessions, unless it divides by zero in one of them. -/
theorem evaluate (text : Text) :
    (SameLayout (s.record (s.scope.evaluate text).labels)
        (t.record (t.scope.evaluate text).labels) ∧
      ((∃ v v', (s.scope.evaluate text).value = .ok v ∧ (t.scope.evaluate text).value = .ok v') ∨
        ∃ cause, (s.scope.evaluate text).value = .error cause ∧
          (t.scope.evaluate text).value = .error cause)) ∨
      (s.scope.evaluate text).Divides ∨ (t.scope.evaluate text).Divides := by
  rcases Scope.alike_evaluate h.sameNames text with hshape | hdivides
  · obtain ⟨hlabels, hvalues⟩ := Evaluation.cases_of_shape_eq hshape
    rw [hlabels]
    exact Or.inl ⟨h.record _, hvalues⟩
  · exact Or.inr hdivides

end SameLayout

theorem parallel_fill {s t : Session} (h : SameLayout s t) (width : Width)
    (arguments : List Text) :
    Parallel Cause.IsDivision (s.fill width arguments) (t.fill width arguments) := by
  induction arguments generalizing s t with
  | nil => exact Or.inl ⟨h, rfl⟩
  | cons argument rest ih =>
      have hdivides {u : Session} (hu : (u.scope.evaluate argument).Divides) :
          ∃ cause, (u.fill width (argument :: rest)).2 = some cause ∧ cause.IsDivision := by
        obtain ⟨cause, hvalue, hcause⟩ := hu
        rw [fill_cons_of_error hvalue]
        exact ⟨cause, rfl, hcause⟩
      rcases h.evaluate argument with
        ⟨hrecord, ⟨v, v', hv, hv'⟩ | ⟨cause, hv, hv'⟩⟩ | hs | ht
      · rw [fill_cons_of_ok hv, fill_cons_of_ok hv']
        exact ih (hrecord.append width v v')
      · rw [fill_cons_of_error hv, fill_cons_of_error hv']
        exact Or.inl ⟨hrecord, rfl⟩
      · exact Or.inr (Or.inl (hdivides hs))
      · exact Or.inr (Or.inr (hdivides ht))

theorem parallel_emit {s t : Session} (h : SameLayout s t) (width : Width)
    (arguments : List Text) :
    Parallel Cause.IsDivision (s.emit width arguments) (t.emit width arguments) := by
  have hslot : SameLayout { s with slot := some width } { t with slot := some width } :=
    { h with slot := rfl }
  rcases parallel_fill hslot width arguments with ⟨hfill, hfailure⟩ | hdivides
  · exact Or.inl ⟨{ hfill with slot := rfl }, hfailure⟩
  · exact Or.inr hdivides

theorem parallel_defineConstant {s t : Session} (h : SameLayout s t) (name expression : Text) :
    Parallel Cause.IsDivision (s.defineConstant name expression)
      (t.defineConstant name expression) := by
  rcases cases_of_isSome_eq (h.names name) with ⟨v, v', hs, ht⟩ | ⟨hs, ht⟩
  · rw [defineConstant_of_some hs, defineConstant_of_some ht]
    exact Or.inl ⟨h, rfl⟩
  · have hdivides {u : Session} (hu : u.constants.get? name = none)
        (hd : (u.scope.evaluate expression).Divides) :
        ∃ cause, (u.defineConstant name expression).2 = some cause ∧ cause.IsDivision := by
      obtain ⟨cause, hvalue, hcause⟩ := hd
      rw [defineConstant_of_error hu hvalue]
      exact ⟨cause, rfl, hcause⟩
    rcases h.evaluate expression with
      ⟨hrecord, ⟨v, v', hv, hv'⟩ | ⟨cause, hv, hv'⟩⟩ | hd | hd
    · rw [defineConstant_of_ok hs hv, defineConstant_of_ok ht hv']
      refine Or.inl ⟨{ hrecord with names := ?_ }, rfl⟩
      intro other
      simp only [Constants.get?_add, Option.isSome_or, h.names other]
      split <;> rfl
    · rw [defineConstant_of_error hs hv, defineConstant_of_error ht hv']
      exact Or.inl ⟨hrecord, rfl⟩
    · exact Or.inr (Or.inl (hdivides hs hd))
    · exact Or.inr (Or.inr (hdivides ht hd))

theorem parallel_execute {s t : Session} (h : SameLayout s t) (st : Statement) :
    Parallel Cause.IsDivision (s.execute st) (t.execute st) := by
  rw [execute, execute]
  split
  · exact Or.inl ⟨h, rfl⟩
  · exact Or.inl ⟨h, rfl⟩
  · exact Or.inl ⟨h, rfl⟩
  · exact Or.inl ⟨h, rfl⟩
  · split
    · exact parallel_defineConstant h _ _
    · exact Or.inl ⟨h, rfl⟩
  · split
    · exact Or.inl ⟨{ h with symbols := congrArg (SymbolTable.publish · _) h.symbols }, rfl⟩
    · exact Or.inl ⟨h, rfl⟩
  · split
    · exact Or.inl ⟨h, rfl⟩
    · exact parallel_emit h _ _
  · exact Or.inl ⟨h, rfl⟩

theorem SameLayout.atLine {s t : Session} (h : SameLayout s t) (site : Site) (st : Statement) :
    SameLayout (s.atLine site st) (t.atLine site st) := by
  rw [atLine_eq, atLine_eq, h.cursor_eq, h.symbols]
  exact { h with symbols := rfl, site := rfl }

theorem SameLayout.list {s t : Session} (h : SameLayout s t) (start start' : Nat)
    (source : Text) : SameLayout (s.list start source) (t.list start' source) := by
  rw [Session.list, Session.list]
  split <;> split <;> exact { h with }

theorem parallel_assembleLine {s t : Session} (h : SameLayout s t) (site : Site) (text : Text) :
    Parallel Fault.IsDivision (s.assembleLine site text) (t.assembleLine site text) := by
  have hdivides {u : Session} (hu : ∃ cause, ((u.atLine site (Statement.parse text)).execute
      (Statement.parse text)).2 = some cause ∧ cause.IsDivision) :
      ∃ fault, (u.assembleLine site text).2 = some fault ∧ fault.IsDivision := by
    obtain ⟨cause, hcause, hdivision⟩ := hu
    rw [assembleLine_of_some (Prod.ext rfl hcause)]
    exact ⟨_, rfl, hdivision.onLine site text⟩
  have hexecute := parallel_execute (h.atLine site (Statement.parse text)) (Statement.parse text)
  rcases hexecute with ⟨hlayout, hfailure⟩ | hs | ht
  · rcases hs : (s.atLine site (Statement.parse text)).execute (Statement.parse text) with
      ⟨u, _ | cause⟩ <;> rw [hs] at hlayout hfailure
    · rw [assembleLine_of_none hs, assembleLine_of_none (Prod.ext rfl hfailure)]
      exact Or.inl ⟨hlayout.list .., rfl⟩
    · rw [assembleLine_of_some hs, assembleLine_of_some (Prod.ext rfl hfailure)]
      exact Or.inl ⟨hlayout, rfl⟩
  · exact Or.inr (Or.inl (hdivides hs))
  · exact Or.inr (Or.inr (hdivides ht))

/-! ### Runs -/

theorem parallel_step {s t : Session} (h : SameLayout s t) (event : Event) :
    Parallel Fault.IsDivision (s.step event) (t.step event) := by
  cases event with
  | entered key =>
      exact Or.inl ⟨{ h with loaded := congrArg (· ++ [key]) h.loaded }, rfl⟩
  | line site text => exact parallel_assembleLine h site text
  | repeated path =>
      exact Or.inl ⟨{ h with statuses := congrArg (Array.push · _) h.statuses }, rfl⟩
  | completed path =>
      exact Or.inl ⟨{ h with statuses := congrArg (Array.push · _) h.statuses }, rfl⟩
  | unreadable failure origin => cases origin <;> exact Or.inl ⟨h, rfl⟩

theorem parallel_run {s t : Session} (h : SameLayout s t) (events : List Event) :
    Parallel Fault.IsDivision (s.run events) (t.run events) := by
  induction events generalizing s t with
  | nil => exact Or.inl ⟨h, rfl⟩
  | cons event rest ih =>
      have hdivides {u : Session} (hu : ∃ fault, (u.step event).2 = some fault ∧ fault.IsDivision) :
          ∃ fault, (u.run (event :: rest)).2 = some fault ∧ fault.IsDivision := by
        obtain ⟨fault, hfault, hdivision⟩ := hu
        rw [run_cons_of_some (Prod.ext rfl hfault)]
        exact ⟨fault, rfl, hdivision⟩
      rcases parallel_step h event with ⟨hlayout, hfailure⟩ | hs | ht
      · rcases hs : s.step event with ⟨u, _ | fault⟩ <;> rw [hs] at hlayout hfailure
        · rw [run_cons_of_none hs, run_cons_of_none (Prod.ext rfl hfailure)]
          exact ih hlayout
        · rw [run_cons_of_some hs, run_cons_of_some (Prod.ext rfl hfailure)]
          exact Or.inl ⟨hlayout, rfl⟩
      · exact Or.inr (Or.inl (hdivides hs))
      · exact Or.inr (Or.inr (hdivides ht))

/-! ### Loads -/

theorem SameLayout.symm {s t : Session} (h : SameLayout s t) : SameLayout t s where
  size := h.size.symm
  symbols := h.symbols.symm
  relocations := h.relocations.symm
  warnings := h.warnings.symm
  statuses := h.statuses.symm
  loaded := h.loaded.symm
  names := fun name => (h.names name).symm
  strict := h.strict.symm
  slot := h.slot.symm
  site := h.site.symm

theorem SameLayout.events_eq {s t : Session} (h : SameLayout s t) (fs : FileSystem)
    (operation : Operation) : operation.events fs t = operation.events fs s := by
  cases operation <;> simp only [Operation.events, h.loaded]

theorem SameLayout.operate {s t : Session} (h : SameLayout s t) {fs : FileSystem}
    {operation : Operation} (hload : operation.isLoad = true)
    (hs : Succeeds fs s operation) (ht : Succeeds fs t operation) :
    SameLayout (s.operate fs operation).1 (t.operate fs operation).1 := by
  obtain ⟨heq, hok⟩ := s.operate_of_isLoad fs hload
  obtain ⟨heq', hok'⟩ := t.operate_of_isLoad fs hload
  rw [hok] at hs
  rw [hok', h.events_eq] at ht
  rw [heq, heq', h.events_eq]
  rcases parallel_run h (operation.events fs s) with ⟨hlayout, -⟩ | ⟨fault, hfault, -⟩ |
    ⟨fault, hfault, -⟩
  · exact { hlayout with site := h.site }
  · rw [hs] at hfault
    cases hfault
  · rw [ht] at hfault
    cases hfault

theorem SameLayout.operateAll {s t : Session} (h : SameLayout s t) {fs : FileSystem}
    {operations : List Operation} (hloads : ∀ operation ∈ operations, operation.isLoad = true)
    (hs : Always fs (Succeeds fs) s operations) (ht : Always fs (Succeeds fs) t operations) :
    SameLayout (s.operateAll fs operations) (t.operateAll fs operations) := by
  induction operations generalizing s t with
  | nil => exact h
  | cons operation rest ih =>
      rw [List.forall_mem_cons] at hloads
      exact ih (h.operate hloads.1 hs.1 ht.1) hloads.2 hs.2 ht.2

/-- A load that fails in one of two sessions with the same layout and succeeds in
the other fails by a division by zero. -/
theorem SameLayout.isDivision_of_failsWith {s t : Session} (h : SameLayout s t)
    {fs : FileSystem} {operation : Operation} {fault : Fault} (hload : operation.isLoad = true)
    (hs : FailsWith fs s operation fault) (ht : Succeeds fs t operation) :
    fault.IsDivision := by
  rw [failsWith_iff hload] at hs
  rw [(t.operate_of_isLoad fs hload).2, h.events_eq] at ht
  rcases parallel_run h (operation.events fs s) with ⟨-, hsame⟩ | ⟨fault', hfault, hdivision⟩ |
    ⟨fault', hfault, -⟩
  · rw [hs, ht] at hsame
    cases hsame
  · rw [hs] at hfault
    cases hfault
    exact hdivision
  · rw [ht] at hfault
    cases hfault

/-- Take two new sessions with the same settings, at any two bases, whose constants
have the same names and any values. As long as the same loads succeed in both, they
have the same layout; and if the first load that fails in one of them succeeds in
the other, it fails by a division by zero. -/
theorem sameLayout_of_sameNames (fs : FileSystem) (base base' : UInt32)
    (constants constants' : Constants) (strict listed : Bool) (operations : List Operation)
    (hnames : ∀ name, (constants'.get? name).isSome = (constants.get? name).isSome)
    (hloads : ∀ operation ∈ operations, operation.isLoad = true) :
    let s : Session := { base, constants, strict, listed }
    let t : Session := { base := base', constants := constants', strict, listed }
    (Always fs (Succeeds fs) s operations → Always fs (Succeeds fs) t operations →
      SameLayout (s.operateAll fs operations) (t.operateAll fs operations)) ∧
    ∀ before operation after fault, operations = before ++ operation :: after →
      Always fs (Succeeds fs) s before → Always fs (Succeeds fs) t before →
      (FailsWith fs (s.operateAll fs before) operation fault ∧
          Succeeds fs (t.operateAll fs before) operation ∨
        Succeeds fs (s.operateAll fs before) operation ∧
          FailsWith fs (t.operateAll fs before) operation fault) →
      fault.IsDivision := by
  intro s t
  have hfresh : SameLayout s t := ⟨rfl, rfl, rfl, rfl, rfl, rfl, hnames, rfl, rfl, rfl⟩
  refine ⟨hfresh.operateAll hloads, ?_⟩
  rintro before operation after fault rfl hs ht hfail
  rw [List.forall_mem_append, List.forall_mem_cons] at hloads
  obtain ⟨hbefore, hload, -⟩ := hloads
  have hlayout := hfresh.operateAll hbefore hs ht
  rcases hfail with ⟨hfail, hok⟩ | ⟨hok, hfail⟩
  · exact hlayout.isDivision_of_failsWith hload hfail hok
  · exact hlayout.symm.isDivision_of_failsWith hload hfail hok

/-- Another value of `K`, and another base, changes the bytes of a first load and
not their layout; the second load divides by it. -/
theorem sameLayout_of_sameNames_quotient :
    let fs : FileSystem := { files := [(["x.s"], "L: .equ N,K*2\n.byte L,N")] }
    let first : Operation := .loadSource "m.s" ".include \"x.s\"\nM: .word L+K,M-N/7"
    let second : Operation := .loadSource "n.s" ".word 6/K"
    let s : Session := ({ constants := [("K", 3)] } : Session).operateAll fs [first]
    let t : Session :=
      ({ base := 4096, constants := [("K", 0)] } : Session).operateAll fs [first]
    let fault : Fault :=
      (Cause.divisionByZero "6/K").onLine ⟨"n.s", 0⟩ ".word 6/K"
    s.bytes ≠ t.bytes ∧ SameLayout s t ∧ Succeeds fs s second ∧
      FailsWith fs t second fault ∧ fault.IsDivision := by
  intro fs first second s t fault
  have hnames (name : Text) : (Constants.get? [("K", 0)] name).isSome =
      (Constants.get? [("K", 3)] name).isSome := by
    simp only [Constants.get?_cons, Constants.get?_nil]
    split <;> rfl
  have hs : Always fs (Succeeds fs) { constants := [("K", 3)] } [first] := by decide +kernel
  have ht : Always fs (Succeeds fs) { base := 4096, constants := [("K", 0)] } [first] := by
    decide +kernel
  have hok : Succeeds fs s second := by decide +kernel
  have hfails : FailsWith fs t second fault := by
    rw [failsWith_iff rfl]
    decide +kernel
  obtain ⟨hlayout, -⟩ :=
    sameLayout_of_sameNames fs 0 4096 _ _ false false [first] hnames (by simp [first]; rfl)
  obtain ⟨-, hdivision⟩ :=
    sameLayout_of_sameNames fs 0 4096 _ _ false false [first, second] hnames
      (by simp [first, second]; decide)
  exact ⟨by decide +kernel, hlayout hs ht, hok, hfails,
    hdivision [first] second [] fault rfl hs ht (Or.inr ⟨hok, hfails⟩)⟩

end Session

end FlatAssembler
