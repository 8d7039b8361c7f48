import FlatAssembler.Proofs.Line

/-!
# Relations along a run

Whatever source a session goes through, it changes by a handful of elementary
changes: a label is recorded, a slot is appended, a constant, a symbol, a mark or
a note is added. A preorder on sessions that each of them respects is `Compatible`,
and then holds from the beginning of every run to its end, whether or not the run
fails (`Compatible.run`). The induction over arguments, directives and events is
done here once.
-/

namespace FlatAssembler.Session

/-- The relation holds across each elementary change of a session. Slots are set
for a stretch and set back behind it, so `slot` speaks of the whole stretch. -/
structure Compatible (R : Session → Session → Prop) : Prop where
  refl : ∀ s, R s s
  trans : ∀ {s t u}, R s t → R t u → R s u
  record : ∀ s labels, R s (s.record labels)
  append : ∀ s width value, R s (s.append width value)
  slot : ∀ s t width, R { s with slot := some width } t → R s { t with slot := none }
  constant : ∀ s name value, s.constants.get? name = none →
    R s { s with constants := s.constants.add name value }
  publication : ∀ s name, R s (s.exportSymbol name)
  label : ∀ s name, R s (s.defineLabel name)
  place : ∀ s site, R s { s with site }
  list : ∀ s start source, R s (s.list start source)
  mark : ∀ s key, R s { s with loaded := s.loaded ++ [key] }
  note : ∀ s status, R s (s.note status)

namespace Compatible

variable {R : Session → Session → Prop} (h : Compatible R)
include h

theorem fill (s : Session) (width : Width) (arguments : List Text) :
    R s (s.fill width arguments).1 := by
  induction arguments generalizing s with
  | nil => exact h.refl s
  | cons argument rest ih =>
      have hrecord := h.record s (s.scope.evaluate argument).labels
      cases hvalue : (s.scope.evaluate argument).value with
      | error cause =>
          rw [fill_cons_of_error hvalue]
          exact hrecord
      | ok value =>
          rw [fill_cons_of_ok hvalue]
          exact h.trans hrecord (h.trans (h.append _ width value) (ih _))

theorem emit (s : Session) (width : Width) (arguments : List Text) :
    R s (s.emit width arguments).1 :=
  h.slot s _ width (h.fill _ width arguments)

theorem defineConstant (s : Session) (name expression : Text) :
    R s (s.defineConstant name expression).1 := by
  cases hname : s.constants.get? name with
  | some value =>
      rw [defineConstant_of_some hname]
      exact h.refl s
  | none =>
      have hrecord := h.record s (s.scope.evaluate expression).labels
      cases hvalue : (s.scope.evaluate expression).value with
      | error cause =>
          rw [defineConstant_of_error hname hvalue]
          exact hrecord
      | ok value =>
          have hconstants :
              (s.record (s.scope.evaluate expression).labels).constants = s.constants := by
            rw [record_eq]
          have hadd := h.constant (s.record (s.scope.evaluate expression).labels) name value
            (by rw [hconstants, hname])
          rw [hconstants] at hadd
          rw [defineConstant_of_ok hname hvalue]
          exact h.trans hrecord hadd

theorem execute (s : Session) (st : Statement) : R s (s.execute st).1 := by
  rw [Session.execute]
  split
  · exact h.refl s
  · exact h.refl s
  · exact h.refl s
  · exact h.refl s
  · split
    · exact h.defineConstant s _ _
    · exact h.refl s
  · split
    · exact h.publication s _
    · exact h.refl s
  · split
    · exact h.refl s
    · exact h.emit s _ _
  · exact h.refl s

theorem atLine (s : Session) (site : Site) (st : Statement) : R s (s.atLine site st) := by
  rw [Session.atLine, bindLabel]
  split
  · exact h.place s site
  · exact h.trans (h.place s site) (h.label _ _)

theorem assembleLine (s : Session) (site : Site) (text : Text) :
    R s (s.assembleLine site text).1 := by
  have hline := h.atLine s site (Statement.parse text)
  have hexecute := h.execute (s.atLine site (Statement.parse text)) (Statement.parse text)
  rcases heq : (s.atLine site (Statement.parse text)).execute (Statement.parse text) with
    ⟨t, _ | cause⟩
  · rw [heq] at hexecute
    rw [assembleLine_of_none heq]
    exact h.trans hline (h.trans hexecute (h.list t _ _))
  · rw [heq] at hexecute
    rw [assembleLine_of_some heq]
    exact h.trans hline hexecute

theorem step (s : Session) (event : Event) : R s (s.step event).1 := by
  cases event with
  | entered key => exact h.mark s key
  | line site text => exact h.assembleLine s site text
  | repeated path => exact h.note s _
  | completed path => exact h.note s _
  | unreadable failure origin => cases origin <;> exact h.refl s

theorem run (s : Session) (events : List Event) : R s (s.run events).1 := by
  induction events generalizing s with
  | nil => exact h.refl s
  | cons event rest ih =>
      have hstep := h.step s event
      rw [Session.run]
      split
      · rename_i t ht
        rw [ht] at hstep
        exact h.trans hstep (ih t)
      · rename_i t fault ht
        rw [ht] at hstep
        exact hstep

end Compatible

end FlatAssembler.Session
