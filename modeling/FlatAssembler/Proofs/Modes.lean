import FlatAssembler.Proofs.Persistence

/-!
# Modes only observe

Strict relocation and listing change what a session writes down about its output and
nothing else. `core` is a session without what the modes decide: two sessions with one
core go through every source alike, with the same failures, and keep one core
(`alike_run`).

What the modes do decide is read off the labels that were consulted. A `Consultation`
is a label with the slot in which it was used and the entry that would be recorded for
it, and `consultations` lists them for a stretch of history. A session records all of
them and warns of those outside of a word, or in strict mode records those in words
only; lines that fail halfway have consulted what they have consulted (`consults_run`).
-/

namespace FlatAssembler

/-- A label that was consulted, and the slot that was being filled. -/
structure Consultation where
  /-- The end of the output, which is the start of the slot. -/
  entry : UInt32
  site : Site
  label : Text
  slot : Option Width

namespace Consultation

/-- Whether the label would be relocated although it was not used as a word. -/
def isHazard (c : Consultation) : Bool := decide (c.slot ≠ some .word)

def warning (c : Consultation) : Warning := { site := c.site, label := c.label, slot := c.slot }

/-- The relocation entries for consulted labels. -/
def entries (strict : Bool) (consulted : List Consultation) : List UInt32 :=
  (consulted.filter fun c => !(strict && c.isHazard)).map entry

/-- The warnings for consulted labels. -/
def warnings (strict : Bool) (consulted : List Consultation) : List Warning :=
  (consulted.filter fun c => !strict && c.isHazard).map warning

theorem entries_false (consulted : List Consultation) :
    entries false consulted = consulted.map entry := by
  simp [entries, List.filter_eq_self.mpr]

theorem warnings_true (consulted : List Consultation) : warnings true consulted = [] := by
  simp [warnings]

/-- Each entry that strict mode leaves out is warned of otherwise. -/
theorem length_entries (consulted : List Consultation) :
    (entries false consulted).length =
      (entries true consulted).length + (warnings false consulted).length := by
  have hsplit := consulted.length_eq_countP_add_countP isHazard
  rw [entries_false, entries, warnings]
  simpa [List.countP_eq_length_filter, Nat.add_comm] using hsplit

theorem entries_append (strict : Bool) (consulted more : List Consultation) :
    entries strict (consulted ++ more) = entries strict consulted ++ entries strict more := by
  simp [entries]

theorem warnings_append (strict : Bool) (consulted more : List Consultation) :
    warnings strict (consulted ++ more) = warnings strict consulted ++ warnings strict more := by
  simp [warnings]

end Consultation

/-- The labels that arguments consult from an offset on, up to and including those of
an argument without a value. -/
def Scope.consultations (scope : Scope) (site : Site) (width : Width) :
    Nat → List Text → List Consultation
  | _, [] => []
  | offset, argument :: rest =>
      ((scope.evaluate argument).labels.map fun label =>
          ⟨UInt32.ofNat offset, site, label, some width⟩) ++
        match (scope.evaluate argument).value with
        | .error _ => []
        | .ok _ => scope.consultations site width (offset + width.size) rest

namespace Session

/-- The labels that the directive of a statement consults. A constant is defined
outside of any slot, and for a name that is taken nothing is looked at. -/
def consultationsFor (s : Session) (st : Statement) : List Consultation :=
  match st.action, st.arguments with
  | .data width, arguments => s.scope.consultations s.site width s.bytes.size arguments
  | .constant, [name, expression] =>
      if (s.constants.get? name).isSome then []
      else (s.scope.evaluate expression).labels.map fun label =>
        ⟨s.cursor, s.site, label, none⟩
  | _, _ => []

/-- The labels that an event makes the session consult. -/
def consultationsAt (s : Session) : Event → List Consultation
  | .line site text =>
      (s.atLine site (Statement.parse text)).consultationsFor (Statement.parse text)
  | _ => []

/-- The labels that are consulted in a stretch of history. -/
def consultations (moments : List (Session × Event)) : List Consultation :=
  moments.flatMap fun m => m.1.consultationsAt m.2

theorem consultations_cons (s : Session) (event : Event) (moments : List (Session × Event)) :
    consultations ((s, event) :: moments) = s.consultationsAt event ++ consultations moments :=
  List.flatMap_cons

theorem consultations_append (moments more : List (Session × Event)) :
    consultations (moments ++ more) = consultations moments ++ consultations more :=
  List.flatMap_append

/-- What a call returns, if it is a load. -/
def response? (s : Session) (fs : FileSystem) : Operation → Option (Except Fault Status)
  | .load path => some (s.load fs path).2
  | .loadSource name source => some (s.loadSource fs name source).2
  | _ => none

/-- What calls return one after the other. -/
def responses (s : Session) :
    List (FileSystem × Operation) → List (Option (Except Fault Status))
  | [] => []
  | (fs, operation) :: rest =>
      s.response? fs operation :: (s.operate fs operation).1.responses rest

/-! ### What is written down -/

/-- Between the sessions these labels are consulted, and the modes decide what is
recorded and warned of. -/
structure Consults (s : Session) (consulted : List Consultation) (t : Session) : Prop where
  strict : t.strict = s.strict
  relocations : t.relocations.toList =
    s.relocations.toList ++ Consultation.entries s.strict consulted
  warnings : t.warnings.toList =
    s.warnings.toList ++ Consultation.warnings s.strict consulted

namespace Consults

theorem of_same {s t : Session} (hstrict : t.strict = s.strict)
    (hrelocations : t.relocations = s.relocations) (hwarnings : t.warnings = s.warnings) :
    Consults s [] t where
  strict := hstrict
  relocations := by simp [Consultation.entries, hrelocations]
  warnings := by simp [Consultation.warnings, hwarnings]

theorem trans {s t u : Session} {consulted more : List Consultation}
    (h : Consults s consulted t) (hmore : Consults t more u) :
    Consults s (consulted ++ more) u where
  strict := hmore.strict.trans h.strict
  relocations := by
    rw [hmore.relocations, h.relocations, h.strict, Consultation.entries_append,
      List.append_assoc]
  warnings := by
    rw [hmore.warnings, h.warnings, h.strict, Consultation.warnings_append, List.append_assoc]

theorem trans_same {s t u : Session} {consulted : List Consultation}
    (h : Consults s consulted t) (hsame : Consults t [] u) : Consults s consulted u := by
  have htrans := h.trans hsame
  rwa [List.append_nil] at htrans

end Consults

/-- All labels of one argument are consulted in one slot, so that the modes decide on
them alike. -/
theorem consults_record (s : Session) (labels : List Text) :
    Consults s (labels.map fun label => ⟨s.cursor, s.site, label, s.slot⟩) (s.record labels) := by
  rw [record_eq]
  have hentries : s.entries labels = Consultation.entries s.strict
      (labels.map fun label => ⟨s.cursor, s.site, label, s.slot⟩) := by
    by_cases hword : s.slot = some .word <;> cases hstrict : s.strict <;>
      simp [entries, Consultation.entries, Consultation.isHazard, hword, hstrict, List.filter_map,
        Function.comp_def, List.filter_eq_self.mpr, List.map_const']
  have hcautions : s.cautions labels = Consultation.warnings s.strict
      (labels.map fun label => ⟨s.cursor, s.site, label, s.slot⟩) := by
    by_cases hword : s.slot = some .word <;> cases hstrict : s.strict <;>
      simp [cautions, Consultation.warnings, Consultation.isHazard, Consultation.warning, hword,
        hstrict, List.filter_map, Function.comp_def, List.filter_eq_self.mpr]
  exact ⟨rfl, by simp [hentries], by simp [hcautions]⟩

theorem consults_fill {s : Session} {width : Width} (hslot : s.slot = some width)
    (arguments : List Text) :
    Consults s (s.scope.consultations s.site width s.bytes.size arguments)
      (s.fill width arguments).1 := by
  induction arguments generalizing s with
  | nil => exact .of_same rfl rfl rfl
  | cons argument rest ih =>
      have hrecord := s.consults_record (s.scope.evaluate argument).labels
      rw [hslot] at hrecord
      cases hvalue : (s.scope.evaluate argument).value with
      | error cause =>
          -- The labels of an argument without a value are consulted all the same.
          rw [fill_cons_of_error hvalue, Scope.consultations, hvalue]
          exact hrecord.trans (.of_same rfl rfl rfl)
      | ok value =>
          have happend : Consults (s.record (s.scope.evaluate argument).labels) []
              ((s.record (s.scope.evaluate argument).labels).append width value) :=
            .of_same rfl rfl rfl
          have hsite : ((s.record (s.scope.evaluate argument).labels).append width value).site =
              s.site := by
            rw [record_eq]
            rfl
          have hrest := ih (s := (s.record (s.scope.evaluate argument).labels).append width value)
            (by rw [record_eq]; exact hslot)
          rw [scope_append, scope_record, size_append, bytes_record, hsite] at hrest
          rw [fill_cons_of_ok hvalue, Scope.consultations, hvalue]
          exact (hrecord.trans_same happend).trans hrest

theorem consults_emit (s : Session) (width : Width) (arguments : List Text) :
    Consults s (s.scope.consultations s.site width s.bytes.size arguments)
      (s.emit width arguments).1 := by
  have hfill := consults_fill (s := { s with slot := some width }) rfl arguments
  exact ⟨hfill.strict, hfill.relocations, hfill.warnings⟩

theorem consults_defineConstant {s : Session} (hslot : s.slot = none) (name expression : Text) :
    Consults s
      (if (s.constants.get? name).isSome then []
        else (s.scope.evaluate expression).labels.map fun label =>
          ⟨s.cursor, s.site, label, none⟩)
      (s.defineConstant name expression).1 := by
  have hrecord := s.consults_record (s.scope.evaluate expression).labels
  rw [hslot] at hrecord
  cases hname : s.constants.get? name with
  | some value =>
      rw [defineConstant_of_some hname]
      exact .of_same rfl rfl rfl
  | none =>
      cases hvalue : (s.scope.evaluate expression).value with
      | error cause =>
          rw [defineConstant_of_error hname hvalue]
          exact hrecord
      | ok value =>
          rw [defineConstant_of_ok hname hvalue]
          exact hrecord.trans_same (.of_same rfl rfl rfl)

theorem consults_execute {s : Session} (hslot : s.slot = none) (st : Statement) :
    Consults s (s.consultationsFor st) (s.execute st).1 := by
  have hidle : Consults s [] s := .of_same rfl rfl rfl
  rw [consultationsFor.eq_def, execute]
  cases st.action with
  | data width =>
      dsimp only
      split
      · rename_i hnone
        rw [hnone]
        exact hidle
      · exact s.consults_emit width st.arguments
  | constant =>
      rcases st.arguments with _ | ⟨name, _ | ⟨expression, _ | ⟨other, more⟩⟩⟩
      · exact hidle
      · exact hidle
      · exact consults_defineConstant hslot name expression
      · exact hidle
  | publication =>
      rcases st.arguments with _ | ⟨name, _ | ⟨other, more⟩⟩
      · exact hidle
      · exact .of_same rfl rfl rfl
      · exact hidle
  | absent | inclusion | stop | ignored | unknown => exact hidle

theorem consults_step {s : Session} (hslot : s.slot = none) (event : Event) :
    Consults s (s.consultationsAt event) (s.step event).1 := by
  cases event with
  | entered _ | repeated _ | completed _ => exact .of_same rfl rfl rfl
  | unreadable failure origin => cases origin <;> exact .of_same rfl rfl rfl
  | line site text =>
      have hline : Consults s [] (s.atLine site (Statement.parse text)) := by
        rw [atLine_eq]
        exact .of_same rfl rfl rfl
      have hslot' : (s.atLine site (Statement.parse text)).slot = none := by
        rw [atLine_eq]
        exact hslot
      have hexecute := hline.trans (consults_execute hslot' (Statement.parse text))
      rcases h : (s.atLine site (Statement.parse text)).execute (Statement.parse text) with
        ⟨t, _ | cause⟩ <;> rw [h] at hexecute
      · have hlist : Consults t [] (t.list s.bytes.size text.trim) := by
          rw [list]
          split <;> exact .of_same rfl rfl rfl
        rw [step, assembleLine_of_none h]
        exact hexecute.trans_same hlist
      · rw [step, assembleLine_of_some h]
        exact hexecute

theorem consults_run {s : Session} (hslot : s.slot = none) (events : List Event) :
    Consults s (consultations (s.moments events)) (s.run events).1 := by
  induction events generalizing s with
  | nil => exact .of_same rfl rfl rfl
  | cons event rest ih =>
      have hstep := consults_step hslot event
      have hkeeps := (compatible_keeps.step s event).slot hslot
      rcases h : s.step event with ⟨t, _ | fault⟩ <;> rw [h] at hstep hkeeps
      · rw [run_cons_of_none h, moments_cons_of_none h]
        exact hstep.trans (ih hkeeps)
      · rw [run_cons_of_some h, moments_cons_of_some h]
        exact hstep.trans (.of_same rfl rfl rfl)

theorem consults_operate {s : Session} (hslot : s.slot = none) (fs : FileSystem)
    {operation : Operation} (h : operation.isLoad = true) :
    Consults s (consultations (s.moments (operation.events fs s)))
        (s.operate fs operation).1 ∧
      (s.operate fs operation).1.slot = none := by
  rw [(s.operate_of_isLoad fs h).1]
  have hrun := consults_run hslot (operation.events fs s)
  exact ⟨⟨hrun.strict, hrun.relocations, hrun.warnings⟩,
    (compatible_keeps.run s (operation.events fs s)).slot hslot⟩

theorem consults_operateEach {s : Session} (hslot : s.slot = none)
    {calls : List (FileSystem × Operation)} (h : ∀ call ∈ calls, call.2.isLoad = true) :
    Consults s (consultations (s.historyEach calls)) (s.operateEach calls) := by
  induction calls generalizing s with
  | nil => exact .of_same rfl rfl rfl
  | cons call rest ih =>
      obtain ⟨hload, hrest⟩ := List.forall_mem_cons.mp h
      obtain ⟨hoperate, hslot'⟩ := consults_operate hslot call.1 hload
      rw [operateEach_cons, historyEach, consultations_append]
      exact hoperate.trans (ih hslot' hrest)

/-! ### Two sessions -/

/-- The session without what the modes decide. -/
def core (s : Session) : Session :=
  { s with strict := false, listed := false, relocations := #[], warnings := #[], listing := #[] }

/-- Two results with one core and one answer. -/
structure Alike {α : Type} (r r' : Session × α) : Prop where
  core : r'.1.core = r.1.core
  answer : r'.2 = r.2

theorem core_list (s : Session) (start : Nat) (source : Text) :
    (s.list start source).core = s.core := by
  rw [list]
  split <;> rfl

section Alike

variable {s t : Session} (h : t.core = s.core)
include h

theorem scope_eq_of_core : t.scope = s.scope := (congrArg scope h :)

theorem core_record_eq (labels : List Text) :
    (t.record labels).core = (s.record labels).core := by
  rw [record_eq, record_eq]
  exact h

theorem alike_fill (width : Width) (arguments : List Text) :
    Alike (s.fill width arguments) (t.fill width arguments) := by
  induction arguments generalizing s t with
  | nil => exact ⟨h, rfl⟩
  | cons argument rest ih =>
      have hrecord := core_record_eq h (s.scope.evaluate argument).labels
      have hscope := scope_eq_of_core h
      cases hvalue : (s.scope.evaluate argument).value with
      | error cause =>
          rw [fill_cons_of_error hvalue, fill_cons_of_error (hscope ▸ hvalue), hscope]
          exact ⟨hrecord, rfl⟩
      | ok value =>
          rw [fill_cons_of_ok hvalue, fill_cons_of_ok (hscope ▸ hvalue), hscope]
          exact ih (congrArg (append · width value) hrecord)

theorem alike_emit (width : Width) (arguments : List Text) :
    Alike (s.emit width arguments) (t.emit width arguments) := by
  have hfill := alike_fill (s := { s with slot := some width }) (t := { t with slot := some width })
    (congrArg (fun u : Session => { u with slot := some width }) h) width arguments
  exact ⟨congrArg (fun u : Session => { u with slot := none }) hfill.core, hfill.answer⟩

theorem alike_defineConstant (name expression : Text) :
    Alike (s.defineConstant name expression) (t.defineConstant name expression) := by
  have hscope := scope_eq_of_core h
  have hconstants : t.constants = s.constants := (congrArg constants h :)
  have hrecord := core_record_eq h (s.scope.evaluate expression).labels
  cases hname : s.constants.get? name with
  | some value =>
      rw [defineConstant_of_some hname, defineConstant_of_some (hconstants ▸ hname)]
      exact ⟨h, rfl⟩
  | none =>
      cases hvalue : (s.scope.evaluate expression).value with
      | error cause =>
          rw [defineConstant_of_error hname hvalue,
            defineConstant_of_error (hconstants ▸ hname) (hscope ▸ hvalue), hscope]
          exact ⟨hrecord, rfl⟩
      | ok value =>
          rw [defineConstant_of_ok hname hvalue,
            defineConstant_of_ok (hconstants ▸ hname) (hscope ▸ hvalue), hscope, hconstants]
          exact ⟨congrArg (fun u : Session =>
            { u with constants := s.constants.add name value }) hrecord, rfl⟩

theorem alike_execute (st : Statement) : Alike (s.execute st) (t.execute st) := by
  have hidle (cause : Option Cause) : Alike (s, cause) (t, cause) := ⟨h, rfl⟩
  simp only [execute]
  split
  · exact hidle none
  · exact hidle none
  · exact hidle none
  · exact hidle _
  · split
    · exact alike_defineConstant h _ _
    · exact hidle _
  · split
    · exact ⟨congrArg (exportSymbol · _) h, rfl⟩
    · exact hidle _
  · split
    · exact hidle _
    · exact alike_emit h _ _
  · exact hidle _

theorem core_atLine_eq (site : Site) (st : Statement) :
    (t.atLine site st).core = (s.atLine site st).core := by
  have hline := congrArg (atLine · site st) h
  simp only [atLine_eq] at hline ⊢
  exact hline

theorem alike_step (event : Event) : Alike (s.step event) (t.step event) := by
  cases event with
  | entered key =>
      exact ⟨congrArg (fun u : Session => { u with loaded := u.loaded ++ [key] }) h, rfl⟩
  | repeated path => exact ⟨congrArg (note · _) h, rfl⟩
  | completed path => exact ⟨congrArg (note · _) h, rfl⟩
  | unreadable failure origin => cases origin <;> exact ⟨h, rfl⟩
  | line site text =>
      have hexecute := alike_execute (core_atLine_eq h site (Statement.parse text))
        (Statement.parse text)
      rcases hs : (s.atLine site (Statement.parse text)).execute (Statement.parse text) with
        ⟨u, answer⟩
      rcases ht : (t.atLine site (Statement.parse text)).execute (Statement.parse text) with
        ⟨v, answer'⟩
      rw [hs, ht] at hexecute
      obtain ⟨hcore, rfl⟩ := hexecute
      cases answer' with
      | none =>
          rw [step, step, assembleLine_of_none hs, assembleLine_of_none ht]
          exact ⟨by rw [core_list, core_list, hcore], rfl⟩
      | some cause =>
          rw [step, step, assembleLine_of_some hs, assembleLine_of_some ht]
          exact ⟨hcore, rfl⟩

theorem consultationsAt_eq_of_core (event : Event) :
    t.consultationsAt event = s.consultationsAt event := by
  cases event with
  | line site text =>
      have hline := core_atLine_eq h site (Statement.parse text)
      exact (congrArg (consultationsFor · (Statement.parse text)) hline :)
  | entered _ | repeated _ | completed _ | unreadable _ _ => rfl

theorem alike_run (events : List Event) :
    Alike (s.run events) (t.run events) ∧
      consultations (t.moments events) = consultations (s.moments events) := by
  induction events generalizing s t with
  | nil => exact ⟨⟨h, rfl⟩, rfl⟩
  | cons event rest ih =>
      have hconsulted := consultationsAt_eq_of_core h event
      have hstep := alike_step h event
      rcases hs : s.step event with ⟨u, answer⟩
      rcases ht : t.step event with ⟨v, answer'⟩
      rw [hs, ht] at hstep
      obtain ⟨hcore, rfl⟩ := hstep
      cases answer' with
      | none =>
          obtain ⟨hrun, hrest⟩ := ih hcore
          rw [run_cons_of_none hs, run_cons_of_none ht, moments_cons_of_none hs,
            moments_cons_of_none ht, consultations_cons, consultations_cons, hconsulted, hrest]
          exact ⟨hrun, rfl⟩
      | some fault =>
          rw [run_cons_of_some hs, run_cons_of_some ht, moments_cons_of_some hs,
            moments_cons_of_some ht, consultations_cons, consultations_cons, hconsulted]
          exact ⟨⟨hcore, rfl⟩, rfl⟩

theorem alike_perform (path : Text) (events : List Event) :
    Alike (s.perform path events) (t.perform path events) := by
  have hloaded : t.loaded = s.loaded := (congrArg loaded h :)
  have hsite : t.site = s.site := (congrArg site h :)
  obtain ⟨⟨hcore, hanswer⟩, -⟩ := alike_run h events
  have hback := congrArg (fun u : Session => { u with site := s.site }) hcore
  rw [perform, perform, hloaded, hsite, hanswer]
  cases (s.run events).2 with
  | none => exact ⟨hback, rfl⟩
  | some fault => exact ⟨hback, rfl⟩

theorem alike_operate (fs : FileSystem) {operation : Operation}
    (hload : operation.isLoad = true) :
    (t.operate fs operation).1.core = (s.operate fs operation).1.core ∧
      t.response? fs operation = s.response? fs operation ∧
      consultations (t.moments (operation.events fs t)) =
        consultations (s.moments (operation.events fs s)) := by
  have hloaded : t.loaded = s.loaded := (congrArg loaded h :)
  have hevents : operation.events fs t = operation.events fs s := by
    cases operation <;> simp [Operation.events, hloaded]
  have hmoments := (alike_run h (operation.events fs s)).2
  rw [hevents]
  cases operation with
  | load path =>
      have hperform := alike_perform h path (Operation.events fs s (.load path))
      rw [operate, operate, response?, response?, load, load, hloaded]
      exact ⟨hperform.core, congrArg some hperform.answer, hmoments⟩
  | loadSource name source =>
      have hperform := alike_perform h name (Operation.events fs s (.loadSource name source))
      rw [operate, operate, response?, response?, loadSource, loadSource, hloaded]
      exact ⟨hperform.core, congrArg some hperform.answer, hmoments⟩
  | rebase _ | setStrict _ | setListed _ => cases hload

theorem alike_operateEach {calls : List (FileSystem × Operation)}
    (hloads : ∀ call ∈ calls, call.2.isLoad = true) :
    (t.operateEach calls).core = (s.operateEach calls).core ∧
      t.responses calls = s.responses calls ∧
      consultations (t.historyEach calls) = consultations (s.historyEach calls) := by
  induction calls generalizing s t with
  | nil => exact ⟨h, rfl, rfl⟩
  | cons call rest ih =>
      obtain ⟨hload, hrest⟩ := List.forall_mem_cons.mp hloads
      obtain ⟨hcore, hresponse, hmoments⟩ := alike_operate h call.1 hload
      obtain ⟨hcore', hresponses, hhistory⟩ := ih hcore hrest
      rw [operateEach_cons, operateEach_cons, responses, responses, historyEach, historyEach,
        consultations_append, consultations_append, hresponse, hresponses, hmoments, hhistory]
      exact ⟨hcore', rfl, rfl⟩

end Alike

/-- Loads in two sessions that differ in their modes have the same answers and leave the
same session but for what the modes decide. Where the one session relocates all labels and
the other one words only, the other one has the entries of the first without those for
labels outside of a word, and the first one has a warning for each of these. -/
theorem modes_observe (base : UInt32) (constants : Constants) (strict listed strict' listed' : Bool)
    {calls : List (FileSystem × Operation)} (h : ∀ call ∈ calls, call.2.isLoad = true) :
    let s : Session := { base, constants, strict, listed }
    let t : Session := { base, constants, strict := strict', listed := listed' }
    let u := s.operateEach calls
    let v := t.operateEach calls
    t.responses calls = s.responses calls ∧
      (v.bytes, v.symbols, v.constants, v.statuses, v.loaded) =
        (u.bytes, u.symbols, u.constants, u.statuses, u.loaded) ∧
      (strict' = strict → v.relocations = u.relocations ∧ v.warnings = u.warnings) ∧
      (strict = false → strict' = true →
        u.relocations.toList = (consultations (s.historyEach calls)).map Consultation.entry ∧
        v.relocations.toList =
          ((consultations (s.historyEach calls)).filter (!·.isHazard)).map Consultation.entry ∧
        u.warnings.toList =
          ((consultations (s.historyEach calls)).filter (·.isHazard)).map Consultation.warning ∧
        v.warnings = #[] ∧
        u.relocations.size = v.relocations.size + u.warnings.size) := by
  intro s t u v
  obtain ⟨hcore, hresponses, hconsulted⟩ := alike_operateEach (s := s) (t := t) rfl h
  have hu : Consults s _ u := consults_operateEach rfl h
  have hv : Consults t _ v := consults_operateEach rfl h
  rw [hconsulted] at hv
  refine ⟨hresponses, ?_, ?_, ?_⟩
  · exact (congrArg (fun w : Session =>
      (w.bytes, w.symbols, w.constants, w.statuses, w.loaded)) hcore :)
  · rintro rfl
    exact ⟨Array.toList_inj.mp (hv.relocations.trans hu.relocations.symm),
      Array.toList_inj.mp (hv.warnings.trans hu.warnings.symm)⟩
  · rintro rfl rfl
    have hwarnings : v.warnings = #[] :=
      Array.toList_inj.mp (hv.warnings.trans (Consultation.warnings_true _))
    refine ⟨hu.relocations.trans (Consultation.entries_false _), hv.relocations, hu.warnings,
      hwarnings, ?_⟩
    rw [← Array.length_toList, ← Array.length_toList, ← Array.length_toList, hu.relocations,
      hv.relocations, hu.warnings]
    exact Consultation.length_entries _

/-- A label in a word and, in an included file, in a byte, in a constant and in a half word
of a line that fails behind it; then a load that succeeds. -/
theorem modes_observe_failing :
    let fs : FileSystem := { files := [(["x.s"], ".byte 1,L\n.equ K,L\n.hword L,?")] }
    let calls : List (FileSystem × Operation) :=
      [(fs, .loadSource "m.s" "L: .word L\n.include \"x.s\""), (fs, .loadSource "n.s" ".int L")]
    let u := ({ base := 4096 } : Session).operateEach calls
    let v := ({ base := 4096, strict := true, listed := true } : Session).operateEach calls
    (∀ call ∈ calls, call.2.isLoad = true) ∧
      (u.relocations, u.warnings.map Warning.slot) =
        (#[0, 5, 6, 6, 8], #[some .byte, none, some .half]) ∧
      v.relocations = #[0, 8] ∧ v.statuses = u.statuses ∧ v.warnings = #[] ∧
      u.relocations.size = v.relocations.size + u.warnings.size := by
  intro fs calls u v
  have hloads : ∀ call ∈ calls, call.2.isLoad = true := by simp [calls, Operation.isLoad]
  obtain ⟨-, hsame, -, hmodes⟩ := modes_observe 4096 [] false false true true hloads
  obtain ⟨-, -, -, hwarnings, hsize⟩ := hmodes rfl rfl
  simp only [Prod.mk.injEq] at hsame
  exact ⟨hloads, by decide +kernel, by decide +kernel, hsame.2.2.2.1, hwarnings, hsize⟩

end Session

end FlatAssembler
