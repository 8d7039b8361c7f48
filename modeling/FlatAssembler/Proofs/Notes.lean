import FlatAssembler.Proofs.History

/-!
# Notes beside the output

A session keeps notes for its user and its loader: what was loaded, warnings,
statuses, and the line that it stands on. `withNotes` exchanges them. No line
looks at them: carried out with other notes it puts out the same bytes, symbols,
constants and relocation entries, and fails for the same cause (`step_line_withNotes`).
It changes the notes in two ways only, by adding warnings and by taking its own
place.
-/

namespace FlatAssembler

/-- The part of a session that has no influence on what lines do. -/
structure Notes where
  loaded : List Text
  warnings : Array Warning
  statuses : Array Status
  site : Site

/-- What a fault says apart from its place and its cause. -/
def Fault.outline (fault : Fault) : Kind × Text := (fault.kind, fault.text)

namespace Session

def notes (s : Session) : Notes := ⟨s.loaded, s.warnings, s.statuses, s.site⟩

def withNotes (s : Session) (n : Notes) : Session :=
  { s with loaded := n.loaded, warnings := n.warnings, statuses := n.statuses, site := n.site }

/-- The operation does not depend on notes and adds nothing to them but warnings. -/
def Framed {α : Type} (f : Session → Session × α) : Prop :=
  ∀ (s : Session) (n : Notes), ∃ warnings,
    f (s.withNotes n) = ((f s).1.withNotes { n with warnings }, (f s).2)

theorem framed_id {α : Type} (a : α) : Framed fun s => (s, a) :=
  fun _ n => ⟨n.warnings, rfl⟩

theorem record_withNotes (s : Session) (n : Notes) (labels : List Text) :
    ∃ warnings,
      (s.withNotes n).record labels = (s.record labels).withNotes { n with warnings } := by
  rw [record_eq, record_eq]
  exact ⟨_, rfl⟩

theorem framed_fill (width : Width) (arguments : List Text) :
    Framed (fill · width arguments) := by
  induction arguments with
  | nil => exact framed_id none
  | cons argument rest ih =>
      intro s n
      obtain ⟨warnings, hrecord⟩ := s.record_withNotes n (s.scope.evaluate argument).labels
      cases hvalue : (s.scope.evaluate argument).value with
      | error cause =>
          dsimp only
          rw [fill_cons_of_error (s := s.withNotes n) hvalue, fill_cons_of_error hvalue]
          exact ⟨warnings, congrArg (·, some cause) hrecord⟩
      | ok value =>
          dsimp only
          rw [fill_cons_of_ok (s := s.withNotes n) hvalue, fill_cons_of_ok hvalue]
          obtain ⟨more, hrest⟩ :=
            ih ((s.record (s.scope.evaluate argument).labels).append width value)
              { n with warnings }
          refine ⟨more, ?_⟩
          rw [← hrest]
          exact congrArg (fun t => (append t width value).fill width rest) hrecord

theorem framed_emit (width : Width) (arguments : List Text) :
    Framed (emit · width arguments) := by
  intro s n
  obtain ⟨warnings, hfill⟩ := framed_fill width arguments { s with slot := some width } n
  have hslot : ({ s.withNotes n with slot := some width } : Session) =
      ({ s with slot := some width } : Session).withNotes n := rfl
  refine ⟨warnings, ?_⟩
  simp only [emit, hslot, hfill]
  rfl

theorem framed_defineConstant (name expression : Text) :
    Framed (defineConstant · name expression) := by
  intro s n
  cases hname : s.constants.get? name with
  | some value =>
      dsimp only
      rw [defineConstant_of_some (s := s.withNotes n) hname, defineConstant_of_some hname]
      exact ⟨n.warnings, rfl⟩
  | none =>
      obtain ⟨warnings, hrecord⟩ := s.record_withNotes n (s.scope.evaluate expression).labels
      refine ⟨warnings, ?_⟩
      dsimp only
      cases hvalue : (s.scope.evaluate expression).value with
      | error cause =>
          rw [defineConstant_of_error (s := s.withNotes n) hname hvalue,
            defineConstant_of_error hname hvalue]
          exact congrArg (·, some cause) hrecord
      | ok value =>
          rw [defineConstant_of_ok (s := s.withNotes n) hname hvalue,
            defineConstant_of_ok hname hvalue]
          exact congrArg (fun t : Session =>
            ({ t with constants := s.constants.add name value }, none)) hrecord

theorem framed_execute (st : Statement) : Framed (execute · st) := by
  intro s n
  simp only [execute]
  split
  · exact framed_id none s n
  · exact framed_id none s n
  · exact framed_id none s n
  · exact framed_id _ s n
  · split
    · exact framed_defineConstant _ _ s n
    · exact framed_id _ s n
  · split
    · exact ⟨n.warnings, rfl⟩
    · exact framed_id _ s n
  · split
    · exact framed_id _ s n
    · exact framed_emit _ _ s n
  · exact framed_id _ s n

theorem atLine_withNotes (s : Session) (n : Notes) (site site' : Site) (st : Statement) :
    (s.withNotes n).atLine site' st = (s.atLine site st).withNotes { n with site := site' } := by
  rw [atLine_eq, atLine_eq]
  rfl

theorem list_withNotes (s : Session) (n : Notes) (start : Nat) (source : Text) :
    (s.withNotes n).list start source = (s.list start source).withNotes n := by
  have hif : ((s.withNotes n).listed && start < (s.withNotes n).bytes.size) =
      (s.listed && start < s.bytes.size) := rfl
  rw [list, list, hif]
  split
  · rfl
  · rfl

/-- A line does the same in whatever place and with whatever notes it is met. -/
theorem step_line_withNotes (s : Session) (n : Notes) (site site' : Site) (text : Text) :
    ∃ warnings,
      ((s.withNotes n).step (.line site' text)).1 =
        (s.step (.line site text)).1.withNotes { n with warnings, site := site' } ∧
      ((s.withNotes n).step (.line site' text)).2.map Fault.outline =
        (s.step (.line site text)).2.map Fault.outline := by
  obtain ⟨warnings, hframe⟩ := framed_execute (Statement.parse text)
    (s.atLine site (Statement.parse text)) { n with site := site' }
  rw [← atLine_withNotes] at hframe
  dsimp only at hframe
  refine ⟨warnings, ?_⟩
  rcases h : (s.atLine site (Statement.parse text)).execute (Statement.parse text) with
    ⟨t, _ | cause⟩
  · rw [h] at hframe
    rw [step, step, assembleLine_of_none h, assembleLine_of_none hframe]
    exact ⟨list_withNotes .., rfl⟩
  · rw [h] at hframe
    rw [step, step, assembleLine_of_some h, assembleLine_of_some hframe]
    exact ⟨rfl, rfl⟩

theorem notes_step_line (s : Session) (site : Site) (text : Text) :
    ∃ warnings, (s.step (.line site text)).1.notes = { s.notes with warnings, site } := by
  obtain ⟨warnings, h, -⟩ := s.step_line_withNotes s.notes site site text
  exact ⟨warnings, congrArg Session.notes h⟩

/-- A line that binds no label and whose directive does nothing leaves no trace
but its place. -/
theorem step_line_of_idle {text : Text} (hlabel : (Statement.parse text).label = [])
    (haction : ∀ s : Session, s.execute (Statement.parse text) = (s, none)) (s : Session)
    (site : Site) : s.step (.line site text) = ({ s with site }, none) := by
  have hline : s.atLine site (Statement.parse text) = { s with site } := by
    rw [atLine_eq, if_pos hlabel]
  rw [step, assembleLine_of_none (haction _), hline, list, if_neg]
  simp

end Session

end FlatAssembler
