import FlatAssembler.Proofs.CanonicalLine
import FlatAssembler.Proofs.Slots
import FlatAssembler.Proofs.SymbolHistory

/-!
# Empty arguments

Two commas in a row leave an empty argument between them, and an empty text has a value
only if it is the name of something. No symbol has the empty name: a line has a label or
has none, and a single argument is not empty. But a directive that defines a constant
has two arguments, and nothing keeps the first of them from being empty.

So the constants are followed through a history, as the symbols are: a name has a value
from the first line on that defines it. `assembleLine_of_empty_argument` says what this
means for a data line with an empty argument, and `not_forall_empty_argument_fails` that
such a line can go through.
-/

namespace FlatAssembler

theorem Constants.get?_eq_none {constants : Constants} {name : Text}
    (h : ∀ constant ∈ constants, constant.1 ≠ name) : constants.get? name = none := by
  induction constants with
  | nil => rfl
  | cons constant rest ih =>
      obtain ⟨hfirst, hrest⟩ := List.forall_mem_cons.mp h
      rw [get?_cons, if_neg (Ne.symm hfirst), ih hrest]

namespace Statement

/-- An argument that is alone is not empty. -/
theorem ne_nil_of_arguments_eq_singleton {line argument : Text}
    (h : (parse line).arguments = [argument]) : argument ≠ [] := by
  rintro rfl
  exact (isCanonical_parse line).arguments_ne h

/-- The name of the constant that is defined. -/
def defined? (st : Statement) : Option Text :=
  match st.action, st.arguments with
  | .constant, [name, _] => some name
  | _, _ => none

theorem label?_ne_some_nil (st : Statement) : st.label? ≠ some [] := by
  rw [label?]
  split
  · simp
  · rename_i hlabel
    simpa using hlabel

theorem exported?_parse_ne_some_nil (line : Text) : (parse line).exported? ≠ some [] := by
  rw [exported?]
  split
  · rename_i name haction harguments
    simpa using ne_nil_of_arguments_eq_singleton harguments
  · simp

end Statement

/-- The name of the constant that a line defines. -/
def Event.defined? : Event → Option Text
  | .line _ text => (Statement.parse text).defined?
  | _ => none

/-- Without a symbol of the empty name, the empty text stands for the constant of this
name, if there is one. -/
theorem Scope.exists_evaluate_nil_iff {scope : Scope} (h : scope.symbols.find [] = none) :
    (∃ value, (scope.evaluate []).value = .ok value) ↔
      (scope.constants.get? []).isSome = true := by
  have hsymbols : scope.symbols.find (Text.ofChars []) = none := h
  have hempty : Text.unspaced [] = [] := rfl
  rw [evaluate, hempty, evaluateChars, atom?, hsymbols]
  have hname : Text.ofChars [] = [] := rfl
  cases hconstant : scope.constants.get? [] with
  | none => simp [hname, hconstant, Literal.parse?, Evaluation.fail]
  | some value => simp [hname, hconstant, Literal.parse?]

namespace Session

/-! ### Constants along a history -/

/-- At this moment a line defines the constant of this name. -/
def Defines (m : Session × Event) (name : Text) : Prop :=
  m.2.defined? = some name ∧ (m.1.step m.2).2 = none

instance (m : Session × Event) (name : Text) : Decidable (Defines m name) :=
  inferInstanceAs (Decidable (_ ∧ _))

theorem isSome_get?_defineConstant (s : Session) (name expression other : Text) :
    ((s.defineConstant name expression).1.constants.get? other).isSome = true ↔
      (s.constants.get? other).isSome = true ∨
        name = other ∧ (s.defineConstant name expression).2 = none := by
  cases hname : s.constants.get? name with
  | some value => simp [defineConstant_of_some hname]
  | none =>
      cases hvalue : (s.scope.evaluate expression).value with
      | error cause => simp [defineConstant_of_error hname hvalue, record_eq]
      | ok value =>
          rw [defineConstant_of_ok hname hvalue]
          simp only [Constants.get?_add, and_true]
          by_cases hother : other = name
          · simp [hother]
          · simp [hother, Ne.symm hother]

theorem isSome_get?_execute (s : Session) (st : Statement) (name : Text) :
    ((s.execute st).1.constants.get? name).isSome = true ↔
      (s.constants.get? name).isSome = true ∨
        st.defined? = some name ∧ (s.execute st).2 = none := by
  rw [execute, Statement.defined?]
  cases st.action with
  | constant =>
      rcases st.arguments with _ | ⟨first, _ | ⟨expression, _ | ⟨third, more⟩⟩⟩
      · simp
      · simp
      · simpa using s.isSome_get?_defineConstant first expression name
      · simp
  | publication =>
      rcases st.arguments with _ | ⟨first, _ | ⟨second, more⟩⟩ <;> simp [exportSymbol]
  | data width =>
      have hconstants : (s.emit width st.arguments).1.constants = s.constants :=
        congrArg Scope.constants (scope_fill { s with slot := some width } width st.arguments)
      by_cases hnone : st.arguments = []
      · simp [hnone]
      · simp [hnone, hconstants]
  | absent | inclusion | stop | ignored | unknown => simp

/-- A name has a value after a line if it had one before or the line defines it. -/
theorem isSome_get?_step (s : Session) (event : Event) (name : Text) :
    ((s.step event).1.constants.get? name).isSome = true ↔
      (s.constants.get? name).isSome = true ∨ Defines (s, event) name := by
  cases event with
  | entered _ | repeated _ | completed _ => simp [step, note, Defines, Event.defined?]
  | unreadable failure origin => cases origin <;> simp [step, Defines, Event.defined?]
  | line site text =>
      have hexecute := isSome_get?_execute (s.atLine site (Statement.parse text))
        (Statement.parse text) name
      have hline : (s.atLine site (Statement.parse text)).constants = s.constants := by
        rw [atLine_eq]
      rw [hline] at hexecute
      rcases h : (s.atLine site (Statement.parse text)).execute (Statement.parse text) with
        ⟨t, _ | cause⟩ <;> rw [h] at hexecute
      · simpa [step, Defines, Event.defined?, assembleLine_of_none h] using hexecute
      · simpa [step, Defines, Event.defined?, assembleLine_of_some h] using hexecute

/-- The session `t` knows the constants that it was given and those that lines of the
past defined, and no symbol with the empty name. -/
structure KnowsFrom (constants : Constants) (past : List (Session × Event)) (t : Session) :
    Prop where
  constants : ∀ name, (t.constants.get? name).isSome = true ↔
    (constants.get? name).isSome = true ∨ ∃ m ∈ past, Defines m name
  symbols : t.symbols.find [] = none

namespace KnowsFrom

variable {given : Constants} {past : List (Session × Event)} {s : Session}

theorem of_same {t : Session} (h : KnowsFrom given past s) (hconstants : t.constants = s.constants)
    (hsymbols : t.symbols = s.symbols) : KnowsFrom given past t :=
  ⟨hconstants ▸ h.constants, hsymbols ▸ h.symbols⟩

theorem step (h : KnowsFrom given past s) (event : Event) :
    KnowsFrom given (past ++ [(s, event)]) (s.step event).1 where
  constants := by
    intro name
    rw [isSome_get?_step, h.constants]
    simp [or_and_right, exists_or, or_assoc]
  symbols := by
    have hlabel : event.label? ≠ some [] := by
      cases event with
      | line site text => exact Statement.label?_ne_some_nil _
      | entered _ | repeated _ | completed _ | unreadable _ _ => exact nofun
    have hexported : event.exported? ≠ some [] := by
      cases event with
      | line site text => exact Statement.exported?_parse_ne_some_nil _
      | entered _ | repeated _ | completed _ | unreadable _ _ => exact nofun
    rw [symbols_step, SymbolTable.find_revise]
    simp only [hlabel, hexported, if_false]
    exact h.symbols

/-- It holds at each moment of a run and at its end. -/
theorem run (h : KnowsFrom given past s) (events : List Event) :
    KnowsFrom given (past ++ s.moments events) (s.run events).1 ∧
      ∀ (i : Nat) (t : Session) (event : Event), (s.moments events)[i]? = some (t, event) →
        KnowsFrom given (past ++ (s.moments events).take i) t := by
  induction events generalizing past s with
  | nil =>
      refine ⟨by simpa [moments] using h, ?_⟩
      intro i t event hm
      cases hm
  | cons event rest ih =>
      have hstep := h.step event
      rcases hnext : s.step event with ⟨u, _ | fault⟩ <;> rw [hnext] at hstep
      · obtain ⟨hend, hmoments⟩ := ih hstep
        rw [run_cons_of_none hnext, moments_cons_of_none hnext]
        refine ⟨by simpa using hend, ?_⟩
        intro i t event' hm
        cases i with
        | zero =>
            cases hm
            simpa using h
        | succ i => simpa using hmoments i t event' hm
      · rw [run_cons_of_some hnext, moments_cons_of_some hnext]
        refine ⟨hstep, ?_⟩
        intro i t event' hm
        cases i with
        | zero =>
            cases hm
            simpa using h
        | succ i => cases hm

theorem operate (h : KnowsFrom given past s) (fs : FileSystem) (operation : Operation) :
    KnowsFrom given (past ++ s.moments (operation.events fs s)) (s.operate fs operation).1 := by
  have hidle : KnowsFrom given (past ++ []) s := by rwa [List.append_nil]
  rcases s.operate_cases fs operation with ⟨heq, -⟩ | ⟨base, rfl⟩ | ⟨_, rfl⟩ | ⟨_, rfl⟩
  · rw [heq]
    exact (h.run _).1.of_same rfl rfl
  · obtain ⟨_, _, -, heq⟩ := s.exists_operate_rebase_eq fs base
    rw [heq]
    exact hidle.of_same rfl rfl
  · exact hidle.of_same rfl rfl
  · exact hidle.of_same rfl rfl

/-- It holds at each moment of a history, with the moments before it for the past. -/
theorem historyEach (h : KnowsFrom given past s) {calls : List (FileSystem × Operation)} {i : Nat}
    {t : Session} {event : Event} (hm : (s.historyEach calls)[i]? = some (t, event)) :
    KnowsFrom given (past ++ (s.historyEach calls).take i) t := by
  induction calls generalizing past s i with
  | nil => cases hm
  | cons call rest ih =>
      obtain ⟨fs, operation⟩ := call
      rw [Session.historyEach] at hm ⊢
      rcases Nat.lt_or_ge i (s.moments (operation.events fs s)).length with hlt | hge
      · rw [List.getElem?_append_left hlt] at hm
        rw [List.take_append_of_le_length (Nat.le_of_lt hlt)]
        exact (h.run _).2 i t event hm
      · rw [List.getElem?_append_right hge] at hm
        have hrest := ih (h.operate fs operation) hm
        rwa [List.take_append, List.take_of_length_le hge, ← List.append_assoc]

end KnowsFrom

/-! ### Data lines -/

theorem fill_eq_none_iff (s : Session) (width : Width) (arguments : List Text) :
    (s.fill width arguments).2 = none ↔
      ∀ argument ∈ arguments, ∃ value, (s.scope.evaluate argument).value = .ok value := by
  induction arguments generalizing s with
  | nil => simp [fill]
  | cons argument rest ih =>
      rw [List.forall_mem_cons]
      cases hvalue : (s.scope.evaluate argument).value with
      | error cause => simp [fill_cons_of_error hvalue]
      | ok value =>
          rw [fill_cons_of_ok hvalue, ih, scope_append, scope_record]
          simp

/-- Whether or not all arguments have values, the slots of those up to the first one
without a value are put out. -/
theorem bytes_fill (s : Session) (width : Width) (arguments : List Text) :
    (s.fill width arguments).1.bytes =
      s.bytes ++ (s.scope.slots width s.bytes.size arguments).flatMap Slot.bytes := by
  induction arguments generalizing s with
  | nil => simp [fill, Scope.slots]
  | cons argument rest ih =>
      cases hvalue : (s.scope.evaluate argument).value with
      | error cause => simp [fill_cons_of_error hvalue, Scope.slots, hvalue]
      | ok value =>
          rw [fill_cons_of_ok hvalue, ih, Scope.slots_cons_of_ok hvalue, scope_append,
            scope_record, size_append, bytes_record, List.flatMap_cons, ← appendList_append]
          simp [append, Slot.bytes]

/-- Where the empty text has no value, nothing is put out from the first empty argument
on. -/
theorem slots_takeWhile {scope : Scope} (h : ¬∃ value, (scope.evaluate []).value = .ok value)
    (width : Width) (offset : Nat) (arguments : List Text) :
    scope.slots width offset (arguments.takeWhile (· ≠ [])) =
      scope.slots width offset arguments := by
  induction arguments generalizing offset with
  | nil => rfl
  | cons argument rest ih =>
      by_cases hempty : argument = []
      · subst hempty
        cases hvalue : (scope.evaluate []).value with
        | error cause => simp [Scope.slots, hvalue]
        | ok value => exact absurd ⟨value, hvalue⟩ h
      · rw [List.takeWhile_cons_of_pos (by simpa using hempty), Scope.slots, Scope.slots, ih]

theorem emit_eq_none_iff (s : Session) (width : Width) (arguments : List Text) :
    (s.emit width arguments).2 = none ↔
      ∀ argument ∈ arguments, ∃ value, (s.scope.evaluate argument).value = .ok value :=
  fill_eq_none_iff { s with slot := some width } width arguments

theorem bytes_emit (s : Session) (width : Width) (arguments : List Text) :
    (s.emit width arguments).1.bytes =
      s.bytes ++ (s.scope.slots width s.bytes.size arguments).flatMap Slot.bytes :=
  bytes_fill { s with slot := some width } width arguments

theorem find_nil_atLine {s : Session} (h : s.symbols.find [] = none) (site : Site)
    (st : Statement) : (s.atLine site st).symbols.find [] = none := by
  rw [atLine_eq]
  dsimp only
  split
  · exact h
  · rename_i hlabel
    have hfind := SymbolTable.find_update_of_ne s.symbols
      (fun symbol => { symbol with offset := s.cursor }) (fun _ => rfl) (Ne.symm hlabel)
    exact hfind.trans h

/-- On a line, the empty text has a value if a line before it has defined the empty name. -/
theorem KnowsFrom.exists_evaluate_nil_iff {given : Constants} {past : List (Session × Event)}
    {s : Session} (h : KnowsFrom given past s) (hnames : ∀ constant ∈ given, constant.1 ≠ [])
    (site : Site) (st : Statement) :
    (∃ value, ((s.atLine site st).scope.evaluate []).value = .ok value) ↔
      ∃ m ∈ past, Defines m [] := by
  have hconstants : (s.atLine site st).constants = s.constants := by
    rw [atLine_eq]
  have hgiven : given.get? [] = none := Constants.get?_eq_none hnames
  rw [Scope.exists_evaluate_nil_iff (find_nil_atLine h.symbols site st)]
  exact (hconstants ▸ h.constants []).trans (by simp [hgiven])

/-- A data line succeeds if all of its arguments have values, and it puts out the slots of
those up to the first one without. -/
theorem assembleLine_data (s : Session) (site : Site) {text : Text} {width : Width}
    (haction : (Statement.parse text).action = .data width)
    (harguments : (Statement.parse text).arguments ≠ []) :
    let arguments := (Statement.parse text).arguments
    let scope := (s.atLine site (Statement.parse text)).scope
    ((s.assembleLine site text).2 = none ↔
        ∀ argument ∈ arguments, ∃ value, (scope.evaluate argument).value = .ok value) ∧
      (s.assembleLine site text).1.bytes =
        s.bytes ++ (scope.slots width s.bytes.size arguments).flatMap Slot.bytes := by
  intro arguments scope
  have hline : (s.atLine site (Statement.parse text)).bytes = s.bytes := by
    rw [atLine_eq]
  have hexecute : (s.atLine site (Statement.parse text)).execute (Statement.parse text) =
      (s.atLine site (Statement.parse text)).emit width arguments :=
    execute_data haction harguments _
  rw [← emit_eq_none_iff, ← hline, ← bytes_emit, ← hexecute]
  rcases h : (s.atLine site (Statement.parse text)).execute (Statement.parse text) with
    ⟨t, _ | cause⟩
  · rw [assembleLine_of_none h]
    exact ⟨by simp, bytes_list _ _ _⟩
  · rw [assembleLine_of_some h]
    exact ⟨by simp, rfl⟩

/-- Take any point of the history of a session whose given constants have names, and a
data line with an empty argument. The line succeeds if and only if a line before that
point has defined a constant with the empty name, and its other arguments have values.
If no line has, it fails and puts out nothing from the empty argument on. -/
theorem assembleLine_of_empty_argument (base : UInt32) (constants : Constants)
    (strict listed : Bool) (hnames : ∀ constant ∈ constants, constant.1 ≠ [])
    (calls : List (FileSystem × Operation)) (i : Nat) (t : Session) (event : Event)
    (hm : (({ base, constants, strict, listed } : Session).historyEach calls)[i]? =
      some (t, event))
    (site : Site) (text : Text) (width : Width)
    (haction : (Statement.parse text).action = .data width)
    (hempty : [] ∈ (Statement.parse text).arguments) :
    let past := (({ base, constants, strict, listed } : Session).historyEach calls).take i
    let st := Statement.parse text
    let scope := (t.atLine site st).scope
    ((t.assembleLine site text).2 = none ↔
        (∃ m ∈ past, Defines m []) ∧ ∀ argument ∈ st.arguments, argument ≠ [] →
          ∃ value, (scope.evaluate argument).value = .ok value) ∧
      ((¬∃ m ∈ past, Defines m []) →
        (∃ fault, (t.assembleLine site text).2 = some fault) ∧
          (t.assembleLine site text).1.bytes =
            t.bytes ++ (scope.slots width t.bytes.size
              (st.arguments.takeWhile (· ≠ []))).flatMap Slot.bytes) := by
  intro past st scope
  have hknows : KnowsFrom constants past t := by
    have hstart : KnowsFrom constants [] ({ base, constants, strict, listed } : Session) :=
      ⟨by simp, rfl⟩
    exact hstart.historyEach hm
  have hvalue : (∃ value, (scope.evaluate []).value = .ok value) ↔ ∃ m ∈ past, Defines m [] :=
    hknows.exists_evaluate_nil_iff hnames site st
  obtain ⟨hanswer, hbytes⟩ := t.assembleLine_data site haction (List.ne_nil_of_mem hempty)
  have hiff : (t.assembleLine site text).2 = none ↔
      (∃ m ∈ past, Defines m []) ∧ ∀ argument ∈ st.arguments, argument ≠ [] →
        ∃ value, (scope.evaluate argument).value = .ok value := by
    rw [hanswer, ← hvalue]
    constructor
    · intro h
      exact ⟨h [] hempty, fun argument hmem _ => h argument hmem⟩
    · rintro ⟨hnil, hothers⟩ argument hmem
      by_cases hargument : argument = []
      · rw [hargument]
        exact hnil
      · exact hothers argument hmem hargument
  refine ⟨hiff, ?_⟩
  intro hno
  constructor
  · rw [← Option.ne_none_iff_exists']
    intro hnone
    exact hno (hiff.mp hnone).1
  · rw [hbytes, slots_takeWhile (hvalue.not.mpr hno)]

/-- A line before and after another one that defines the empty name. Before, it stops at
its empty argument; after, it goes through. -/
theorem assembleLine_of_empty_argument_defined :
    let calls : List (FileSystem × Operation) := [({}, .loadSource "m.s" ".equ ,5\n.end")]
    let s : Session := { constants := [("K", 3)] }
    let t : Session := { s with loaded := ["m.s"] }
    let u : Session := { t with constants := [("K", 3), ("", 5)], site := ⟨"m.s", 0⟩ }
    ((s.historyEach calls)[1]? = some (t, .line ⟨"m.s", 0⟩ ".equ ,5") ∧
        (∃ fault, (t.assembleLine ⟨"m.s", 0⟩ ".byte K,,2").2 = some fault) ∧
        (t.assembleLine ⟨"m.s", 0⟩ ".byte K,,2").1.bytes = #[3]) ∧
      (s.historyEach calls)[2]? = some (u, .line ⟨"m.s", 1⟩ ".end") ∧
        ((u.assembleLine ⟨"m.s", 1⟩ ".byte K,,2").2 = none ∧
          ∃ m ∈ (s.historyEach calls).take 2, Defines m []) := by
  intro calls s t u
  have hnames : ∀ constant ∈ s.constants, constant.1 ≠ [] := by decide
  have haction : (Statement.parse ".byte K,,2").action = .data .byte := by decide +kernel
  have hempty : [] ∈ (Statement.parse ".byte K,,2").arguments := by decide +kernel
  have ht : (s.historyEach calls)[1]? = some (t, .line ⟨"m.s", 0⟩ ".equ ,5") := by decide +kernel
  have hu : (s.historyEach calls)[2]? = some (u, .line ⟨"m.s", 1⟩ ".end") := by decide +kernel
  have hgoes : (u.assembleLine ⟨"m.s", 1⟩ ".byte K,,2").2 = none := by decide +kernel
  obtain ⟨hfault, hbytes⟩ := (assembleLine_of_empty_argument 0 s.constants false false hnames
    calls 1 t _ ht ⟨"m.s", 0⟩ ".byte K,,2" .byte haction hempty).2 (by decide +kernel)
  have hafter := (assembleLine_of_empty_argument 0 s.constants false false hnames
    calls 2 u _ hu ⟨"m.s", 1⟩ ".byte K,,2" .byte haction hempty).1
  exact ⟨⟨ht, hfault, hbytes.trans (by decide +kernel)⟩, hu, hgoes, (hafter.mp hgoes).1⟩

/-- So an empty argument can have a value: a line defines a constant with the empty name,
and the next one puts it out. -/
theorem not_forall_empty_argument_fails :
    ¬∀ (base : UInt32) (constants : Constants) (strict listed : Bool),
      (∀ constant ∈ constants, constant.1 ≠ []) →
      ∀ (calls : List (FileSystem × Operation)) (i : Nat) (t : Session) (event : Event),
        (({ base, constants, strict, listed } : Session).historyEach calls)[i]? =
          some (t, event) →
        ∀ (site : Site) (text : Text) (width : Width),
          (Statement.parse text).action = .data width →
          [] ∈ (Statement.parse text).arguments →
          (t.assembleLine site text).2 ≠ none := by
  intro h
  let t : Session := { constants := [("", 5)], loaded := ["m.s"], site := ⟨"m.s", 0⟩ }
  apply h 0 [] false false nofun [({}, .loadSource "m.s" ".equ ,5\n.byte 1,,2")] 2 t
    (.line ⟨"m.s", 1⟩ ".byte 1,,2") (by decide +kernel) ⟨"m.s", 1⟩ ".byte 1,,2" .byte
  · decide +kernel
  · decide +kernel
  · decide +kernel

end Session

end FlatAssembler
