import FlatAssembler.Session.Load

/-!
# What a source line does

Equations for the steps of one line, each under the condition that selects its
branch. A line is met by the session `atLine`, which stands at the line and has
bound its label; its directive is carried out from there. Labels that are
consulted on the way become relocation entries and warnings (`record_eq`), and
nothing else of the session changes by an evaluation.
-/

namespace FlatAssembler.Session

/-! ### Consulted labels -/

/-- The relocation entries for labels that are consulted now. -/
def entries (s : Session) (labels : List Text) : List UInt32 :=
  if s.slot = some .word ∨ s.strict = false then
    List.replicate labels.length s.cursor
  else []

/-- The warnings for labels that are consulted now. -/
def cautions (s : Session) (labels : List Text) : List Warning :=
  if s.slot = some .word ∨ s.strict = true then []
  else labels.map fun label => { site := s.site, label, slot := s.slot }

/-- Consulting labels adds relocation entries and warnings and nothing else. -/
theorem record_eq (s : Session) (labels : List Text) :
    s.record labels =
      { s with
        relocations := s.relocations ++ s.entries labels
        warnings := s.warnings ++ s.cautions labels } := by
  induction labels generalizing s with
  | nil => simp [record, entries, cautions]
  | cons label labels ih =>
      have hcons : s.record (label :: labels) = (s.recordLabel label).record labels := rfl
      rw [hcons, ih]
      by_cases hword : s.slot = some .word
      · simp [recordLabel, hword, entries, cautions, cursor, List.replicate_succ]
      · cases hstrict : s.strict with
        | true => simp [recordLabel, hword, hstrict, entries, cautions]
        | false =>
            simp [recordLabel, hword, hstrict, entries, cautions, cursor, List.replicate_succ]

@[simp] theorem record_nil (s : Session) : s.record [] = s := rfl

@[simp] theorem bytes_record (s : Session) (labels : List Text) :
    (s.record labels).bytes = s.bytes := by
  rw [record_eq]

@[simp] theorem scope_record (s : Session) (labels : List Text) :
    (s.record labels).scope = s.scope := by
  rw [record_eq]
  rfl

@[simp] theorem scope_append (s : Session) (width : Width) (value : Int64) :
    (s.append width value).scope = s.scope := rfl

@[simp] theorem size_append (s : Session) (width : Width) (value : Int64) :
    (s.append width value).bytes.size = s.bytes.size + width.size := by
  simp [append, ← Array.length_toList]

@[simp] theorem bytes_list (s : Session) (start : Nat) (source : Text) :
    (s.list start source).bytes = s.bytes := by
  rw [list]
  split <;> rfl

@[simp] theorem constants_list (s : Session) (start : Nat) (source : Text) :
    (s.list start source).constants = s.constants := by
  rw [list]
  split <;> rfl

/-! ### Slots -/

theorem fill_cons_of_ok {s : Session} {width : Width} {argument : Text} {rest : List Text}
    {value : Int64} (h : (s.scope.evaluate argument).value = .ok value) :
    s.fill width (argument :: rest) =
      ((s.record (s.scope.evaluate argument).labels).append width value).fill width rest := by
  simp [fill, evaluate, h]

theorem fill_cons_of_error {s : Session} {width : Width} {argument : Text} {rest : List Text}
    {cause : Cause} (h : (s.scope.evaluate argument).value = .error cause) :
    s.fill width (argument :: rest) =
      (s.record (s.scope.evaluate argument).labels, some cause) := by
  simp [fill, evaluate, h]

/-- An argument of a line that has values for all of its arguments has one. -/
theorem exists_value_of_fill {s : Session} {width : Width} {argument : Text} {rest : List Text}
    (h : (s.fill width (argument :: rest)).2 = none) :
    ∃ value, (s.scope.evaluate argument).value = .ok value := by
  cases hvalue : (s.scope.evaluate argument).value with
  | ok value => exact ⟨value, rfl⟩
  | error cause =>
      rw [fill_cons_of_error hvalue] at h
      cases h

/-! ### Constants -/

theorem defineConstant_of_some {s : Session} {name expression : Text} {value : Int64}
    (h : s.constants.get? name = some value) :
    s.defineConstant name expression = (s, some (.alreadyDefined name)) := by
  simp [defineConstant, h]

theorem defineConstant_of_error {s : Session} {name expression : Text} {cause : Cause}
    (h : s.constants.get? name = none)
    (hvalue : (s.scope.evaluate expression).value = .error cause) :
    s.defineConstant name expression =
      (s.record (s.scope.evaluate expression).labels, some cause) := by
  simp [defineConstant, evaluate, h, hvalue]

theorem defineConstant_of_ok {s : Session} {name expression : Text} {value : Int64}
    (h : s.constants.get? name = none)
    (hvalue : (s.scope.evaluate expression).value = .ok value) :
    s.defineConstant name expression =
      ({ s.record (s.scope.evaluate expression).labels with
          constants := s.constants.add name value }, none) := by
  simp [defineConstant, evaluate, h, hvalue, record_eq]

theorem defineConstant_cases {s t : Session} {name expression : Text}
    (h : s.defineConstant name expression = (t, none)) :
    s.constants.get? name = none ∧
      ∃ value, (s.scope.evaluate expression).value = .ok value ∧
        t = { s.record (s.scope.evaluate expression).labels with
          constants := s.constants.add name value } := by
  cases hname : s.constants.get? name with
  | some value =>
      rw [defineConstant_of_some hname] at h
      cases h
  | none =>
      cases hvalue : (s.scope.evaluate expression).value with
      | error cause =>
          rw [defineConstant_of_error hname hvalue] at h
          cases h
      | ok value =>
          rw [defineConstant_of_ok hname hvalue] at h
          cases h
          exact ⟨rfl, value, rfl, rfl⟩

/-! ### Directives -/

theorem execute_constant {st : Statement} {name expression : Text} (h : st.action = .constant)
    (hargs : st.arguments = [name, expression]) (s : Session) :
    s.execute st = s.defineConstant name expression := by
  simp [execute, h, hargs]

theorem execute_publication {st : Statement} {name : Text} (h : st.action = .publication)
    (hargs : st.arguments = [name]) (s : Session) :
    s.execute st = (s.exportSymbol name, none) := by
  simp [execute, h, hargs]

theorem execute_data {st : Statement} {width : Width} (h : st.action = .data width)
    (hargs : st.arguments ≠ []) (s : Session) :
    s.execute st = s.emit width st.arguments := by
  simp [execute, h, hargs]

/-- What a directive can do without failing: nothing in any session, define a
constant, export a symbol, or put out values. -/
theorem execute_cases {s t : Session} {st : Statement} (h : s.execute st = (t, none)) :
    (t = s ∧ (∀ width, st.action ≠ .data width) ∧ ∀ u : Session, u.execute st = (u, none)) ∨
      (∃ name expression, st.action = .constant ∧ st.arguments = [name, expression] ∧
        s.defineConstant name expression = (t, none)) ∨
      (∃ name, st.action = .publication ∧ st.arguments = [name] ∧ t = s.exportSymbol name) ∨
      ∃ width, st.action = .data width ∧ st.arguments ≠ [] ∧
        s.emit width st.arguments = (t, none) := by
  have hsilent (cause : Option Cause) (hdata : ∀ width, st.action ≠ .data width)
      (hexecute : ∀ u : Session, u.execute st = (u, cause)) :
      t = s ∧ (∀ width, st.action ≠ .data width) ∧ ∀ u : Session, u.execute st = (u, none) := by
    rw [hexecute s] at h
    cases h
    exact ⟨rfl, hdata, hexecute⟩
  cases haction : st.action with
  | absent =>
      exact Or.inl (haction ▸ hsilent none (by simp [haction]) fun u => by simp [execute, haction])
  | stop =>
      exact Or.inl (haction ▸ hsilent none (by simp [haction]) fun u => by simp [execute, haction])
  | ignored =>
      exact Or.inl (haction ▸ hsilent none (by simp [haction]) fun u => by simp [execute, haction])
  | inclusion =>
      exact Or.inl (haction ▸ hsilent (arityFailure st 1) (by simp [haction]) fun u => by
        simp [execute, haction])
  | unknown =>
      simp [execute, haction] at h
  | constant =>
      by_cases hargs : ∃ name expression, st.arguments = [name, expression]
      · obtain ⟨name, expression, hargs⟩ := hargs
        rw [execute_constant haction hargs] at h
        exact Or.inr (Or.inl ⟨name, expression, rfl, hargs, h⟩)
      · refine Or.inl (haction ▸ hsilent (arityFailure st 2) (by simp [haction]) fun u => ?_)
        simp only [execute, haction]
        split
        · rename_i name expression heq
          exact absurd ⟨name, expression, heq⟩ hargs
        · rfl
  | publication =>
      by_cases hargs : ∃ name, st.arguments = [name]
      · obtain ⟨name, hargs⟩ := hargs
        rw [execute_publication haction hargs] at h
        exact Or.inr (Or.inr (Or.inl ⟨name, rfl, hargs, (Prod.mk.inj h).1.symm⟩))
      · refine Or.inl (haction ▸ hsilent (arityFailure st 1) (by simp [haction]) fun u => ?_)
        simp only [execute, haction]
        split
        · rename_i name heq
          exact absurd ⟨name, heq⟩ hargs
        · rfl
  | data width =>
      by_cases hargs : st.arguments = []
      · simp [execute, haction, hargs] at h
      · rw [execute_data haction hargs] at h
        exact Or.inr (Or.inr (Or.inr ⟨width, rfl, hargs, h⟩))

/-! ### Lines -/

/-- The session that carries out the directive of a line: it stands at the line
and has bound its label. -/
def atLine (s : Session) (site : Site) (st : Statement) : Session :=
  { s with site }.bindLabel st

theorem atLine_eq (s : Session) (site : Site) (st : Statement) :
    s.atLine site st =
      { s with
        site
        symbols := if st.label = [] then s.symbols else s.symbols.define st.label s.cursor } := by
  rw [atLine, bindLabel]
  split <;> rfl

theorem assembleLine_of_none {s t : Session} {site : Site} {text : Text}
    (h : (s.atLine site (Statement.parse text)).execute (Statement.parse text) = (t, none)) :
    s.assembleLine site text = (t.list s.bytes.size text.trim, none) := by
  have hsize : ({ s with site }.bindLabel (Statement.parse text)).bytes.size = s.bytes.size := by
    rw [bindLabel]
    split <;> rfl
  rw [atLine] at h
  simp [assembleLine, h, hsize]

theorem assembleLine_of_some {s t : Session} {site : Site} {text : Text} {cause : Cause}
    (h : (s.atLine site (Statement.parse text)).execute (Statement.parse text) = (t, some cause)) :
    s.assembleLine site text = (t, some (cause.onLine site text)) := by
  rw [atLine] at h
  simp [assembleLine, h]

end FlatAssembler.Session
