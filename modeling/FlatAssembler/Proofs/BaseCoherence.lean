import FlatAssembler.Proofs.History
import FlatAssembler.Proofs.LabelUse

/-!
# Assembling at a base and moving there

A source is label-clean when its labels are consulted by words only, each of
which adds one label. Such a source may be assembled at any base and its output
moved at any time: what comes out in the end is what a session produces that has
stood at the last base from the beginning (`operateAll_eq_of_labelClean`).

The proof follows two sessions through the same source. They are `Coherent`
while they have the same tables and relocation entries and while the output of
the one is the output of the other, `Displaced` by the distance of their bases:
the same bytes outside the recorded words, and words that differ by the distance.
A line keeps them coherent because the value of a label-clean argument moves with
the base; a move of one of the two keeps them coherent because every recorded word
is recorded once.
-/

namespace FlatAssembler.Session

open LittleEndian

/-! ### Label-clean source -/

/-- Whether the value of an argument consults no label, or adds one label and
goes into a word. -/
def isCleanArgument (scope : Scope) (width : Width) (argument : Text) : Bool :=
  (scope.evaluate argument).labels.isEmpty ||
    (decide (width = .word) && scope.addsOneLabel argument)

/-- Whether the directive of a statement consults labels only for words, and
adds one label in each of these. -/
def isLabelClean (scope : Scope) (st : Statement) : Bool :=
  match st.action with
  | .data width => st.arguments.all (isCleanArgument scope width)
  | .constant =>
      match st.arguments with
      | [name, expression] =>
          (scope.constants.get? name).isSome || (scope.evaluate expression).labels.isEmpty
      | _ => true
  | _ => true

/-- Whether an event is no line, or one that is label-clean when it is met. -/
def meetsCleanly (s : Session) : Event → Bool
  | .line site text =>
      isLabelClean (s.atLine site (Statement.parse text)).scope (Statement.parse text)
  | _ => true

/-- Every line that the operation reaches, in the source or in a file that it
includes, is label-clean when it is met. -/
def LabelClean (fs : FileSystem) (s : Session) (operation : Operation) : Prop :=
  ∀ m ∈ s.moments (operation.events fs s), m.1.meetsCleanly m.2 = true

instance (fs : FileSystem) (s : Session) (operation : Operation) :
    Decidable (LabelClean fs s operation) :=
  inferInstanceAs (Decidable (∀ m ∈ s.moments _, _))

/-! ### Output at two bases -/

/-- The output `b` is the output `a` for a base that lies further by `distance`:
the recorded words, which keep clear of each other, differ by it. -/
structure Displaced (relocations : Array UInt32) (distance : UInt32) (a b : Array UInt8) :
    Prop where
  size_eq : b.size = a.size
  inRange : ∀ slot ∈ relocations, slot.toNat + 4 ≤ a.size
  apart : relocations.toList.Pairwise fun x y => Apart x.toNat y.toNat
  outside : ∀ i, (∀ slot ∈ relocations, ¬(slot.toNat ≤ i ∧ i < slot.toNat + 4)) → b[i]? = a[i]?
  word : ∀ slot ∈ relocations, wordAt b slot.toNat = wordAt a slot.toNat + distance

namespace Displaced

variable {relocations : Array UInt32} {distance : UInt32} {a b : Array UInt8}

theorem eq_of_zero (h : Displaced relocations 0 a b) : a = b := by
  apply Array.ext_getElem?
  intro i
  by_cases hi : ∃ slot ∈ relocations, slot.toNat ≤ i ∧ i < slot.toNat + 4
  · obtain ⟨slot, hslot, hle, hlt⟩ := hi
    have hrange := h.inRange slot hslot
    have hword := h.word slot hslot
    rw [UInt32.add_zero] at hword
    exact getElem?_of_wordAt_eq hrange (h.size_eq ▸ hrange) hword.symm hle hlt
  · exact (h.outside i fun slot hslot hin => hi ⟨slot, hslot, hin⟩).symm

theorem wordAt_append (h : Displaced relocations distance a b) {slot : UInt32}
    (hslot : slot ∈ relocations) (bytes bytes' : List UInt8) :
    wordAt (b ++ bytes') slot.toNat = wordAt (a ++ bytes) slot.toNat + distance := by
  have hrange := h.inRange slot hslot
  rw [wordAt_append_of_le bytes hrange, wordAt_append_of_le bytes' (h.size_eq ▸ hrange),
    h.word slot hslot]

/-- The same bytes may be put out on both sides. -/
theorem append (h : Displaced relocations distance a b) (bytes : List UInt8) :
    Displaced relocations distance (a ++ bytes) (b ++ bytes) where
  size_eq := by rw [size_append_list, size_append_list, h.size_eq]
  inRange := by
    intro slot hslot
    rw [size_append_list]
    exact Nat.le_trans (h.inRange slot hslot) (Nat.le_add_right ..)
  apart := h.apart
  outside := by
    intro i hi
    rcases Nat.lt_or_ge i a.size with hlt | hge
    · rw [getElem?_append_of_lt _ hlt, getElem?_append_of_lt _ (h.size_eq ▸ hlt), h.outside i hi]
    · rw [getElem?_append_of_le _ hge, getElem?_append_of_le _ (h.size_eq ▸ hge), h.size_eq]
  word := fun _ hslot => h.wordAt_append hslot bytes bytes

/-- A word that is recorded once may be put out with the values of two bases. -/
theorem append_word (h : Displaced relocations distance a b) (hsize : a.size < UInt32.size)
    {n n' : Nat} (hvalue : UInt32.ofNat n' = UInt32.ofNat n + distance) :
    Displaced (relocations.push (UInt32.ofNat a.size)) distance (a ++ encode 4 n)
      (b ++ encode 4 n') := by
  have hcursor : (UInt32.ofNat a.size).toNat = a.size := UInt32.toNat_ofNat_of_lt' hsize
  constructor
  · rw [size_append_list, size_append_list, length_encode, length_encode, h.size_eq]
  · intro slot hmem
    rw [size_append_list, length_encode]
    rcases Array.mem_push.mp hmem with hold | rfl
    · exact Nat.le_trans (h.inRange slot hold) (Nat.le_add_right ..)
    · exact Nat.le_of_eq (congrArg (· + 4) hcursor)
  · rw [Array.toList_push, List.pairwise_append]
    refine ⟨h.apart, List.pairwise_singleton .., ?_⟩
    intro x hx y hy
    rw [List.mem_singleton.mp hy, hcursor]
    exact Or.inl (h.inRange x (Array.mem_toList_iff.mp hx))
  · intro i hi
    have hold := h.outside i fun slot hmem => hi slot (Array.mem_push.mpr (Or.inl hmem))
    have hnew := hi (UInt32.ofNat a.size) (Array.mem_push.mpr (Or.inr rfl))
    rw [hcursor] at hnew
    rcases Nat.lt_or_ge i a.size with hlt | hge
    · rw [getElem?_append_of_lt _ hlt, getElem?_append_of_lt _ (h.size_eq ▸ hlt), hold]
    · have hend : a.size + 4 ≤ i := Nat.le_of_not_lt fun hlt => hnew ⟨hge, hlt⟩
      rw [Array.getElem?_eq_none, Array.getElem?_eq_none]
      · rw [size_append_list, length_encode]
        exact hend
      · rw [size_append_list, length_encode, h.size_eq]
        exact hend
  · intro slot hmem
    rcases Array.mem_push.mp hmem with hold | rfl
    · exact h.wordAt_append hold _ _
    · have hword := wordAt_append_encode b n'
      rw [h.size_eq] at hword
      rw [hcursor, hword, wordAt_append_encode, hvalue]

/-- Every slot is recorded once, so a move displaces the recorded words by the
distance of the bases. -/
theorem moved {s t : Session} {base last : UInt32}
    (h : Displaced s.relocations (last - s.base) s.bytes b) (hmoved : Moved s base t) :
    Displaced s.relocations (last - base) t.bytes b where
  size_eq := h.size_eq.trans hmoved.size_eq.symm
  inRange := by
    intro slot hslot
    rw [hmoved.size_eq]
    exact h.inRange slot hslot
  apart := h.apart
  outside := fun i hi => (h.outside i hi).trans (hmoved.outside i hi).symm
  word := by
    intro slot hslot
    have happart : ∀ x ∈ s.relocations.toList, ∀ y ∈ s.relocations.toList,
        x = y ∨ Apart x.toNat y.toNat :=
      List.Pairwise.forall_of_forall_of_flip (fun _ _ => Or.inl rfl) (h.apart.imp Or.inr)
        (h.apart.imp fun hxy => Or.inr hxy.symm)
    have hnodup : s.relocations.toList.Nodup := h.apart.imp fun hxy => by
      rintro rfl
      rcases hxy with hlt | hlt <;> omega
    have hmem : slot ∈ s.relocations.toList := Array.mem_toList_iff.mpr hslot
    have hword := hmoved.word slot (h.inRange slot hslot) fun r hr =>
      happart r (Array.mem_toList_iff.mpr hr) slot hmem
    rw [← Array.count_toList, hnodup.count, if_pos hmem] at hword
    rw [h.word slot hslot, hword]
    grind

end Displaced

/-! ### Two sessions at two bases -/

/-- The sessions hold the same program, each encoded for its own base. -/
structure Coherent (s t : Session) : Prop where
  constants : t.constants = s.constants
  symbols : t.symbols = s.symbols
  relocations : t.relocations = s.relocations
  loaded : t.loaded = s.loaded
  strict : t.strict = s.strict
  slot : t.slot = s.slot
  output : Displaced s.relocations (t.base - s.base) s.bytes t.bytes

namespace Coherent

theorem scope_eq {s t : Session} (h : Coherent s t) : t.scope = s.scope.atBase t.base := by
  rw [scope, h.constants, h.symbols]
  rfl

theorem cursor_eq {s t : Session} (h : Coherent s t) : t.cursor = s.cursor := by
  rw [cursor, cursor, h.output.size_eq]

/-- At one base, coherent sessions have the same output. -/
theorem bytes_eq {s t : Session} (h : Coherent s t) (hbase : s.base = t.base) :
    s.bytes = t.bytes := by
  have houtput := h.output
  rw [hbase, UInt32.sub_self] at houtput
  exact houtput.eq_of_zero

/-- Fields that are no part of the relation may change on both sides. -/
theorem of_same {s t s' t' : Session} (h : Coherent s t)
    (hs : s' = { s with
      listed := s'.listed, warnings := s'.warnings, statuses := s'.statuses,
      listing := s'.listing, site := s'.site })
    (ht : t' = { t with
      listed := t'.listed, warnings := t'.warnings, statuses := t'.statuses,
      listing := t'.listing, site := t'.site }) :
    Coherent s' t' := by
  rw [hs, ht]
  exact ⟨h.constants, h.symbols, h.relocations, h.loaded, h.strict, h.slot, h.output⟩

/-! ### One slot -/

theorem append {s t : Session} (h : Coherent s t) (width : Width) (value : Int64) :
    Coherent (s.append width value) (t.append width value) :=
  ⟨h.constants, h.symbols, h.relocations, h.loaded, h.strict, h.slot, h.output.append _⟩

theorem append_word {s t : Session} (h : Coherent s t) (hslot : s.slot = some .word)
    (hsize : s.bytes.size < UInt32.size) (name : Text) {value value' : Int64}
    (hvalue : UInt32.ofNat value'.toUInt64.toNat =
      UInt32.ofNat value.toUInt64.toNat + (t.base - s.base)) :
    Coherent ((s.record [name]).append .word value) ((t.record [name]).append .word value') := by
  have hrecord : s.record [name] = { s with relocations := s.relocations.push s.cursor } := by
    simp [record, recordLabel, hslot]
  have hrecord' : t.record [name] = { t with relocations := s.relocations.push s.cursor } := by
    simp [record, recordLabel, h.slot, hslot, h.relocations, h.cursor_eq]
  rw [hrecord, hrecord']
  exact ⟨h.constants, h.symbols, rfl, h.loaded, h.strict, h.slot,
    h.output.append_word hsize hvalue⟩

theorem evaluate_of_labels_eq_nil {s t : Session} (h : Coherent s t) {text : Text}
    (hlabels : (s.scope.evaluate text).labels = []) :
    t.scope.evaluate text = s.scope.evaluate text := by
  rw [h.scope_eq]
  exact Scope.evaluate_atBase_of_labels_eq_nil t.base hlabels

theorem argument {s t : Session} (h : Coherent s t) {width : Width} {text : Text} {value : Int64}
    (hslot : s.slot = some width) (hclean : isCleanArgument s.scope width text = true)
    (hsize : s.bytes.size < UInt32.size) (hvalue : (s.scope.evaluate text).value = .ok value) :
    ∃ value', (t.scope.evaluate text).value = .ok value' ∧
      Coherent ((s.record (s.scope.evaluate text).labels).append width value)
        ((t.record (t.scope.evaluate text).labels).append width value') := by
  rw [isCleanArgument, Bool.or_eq_true, Bool.and_eq_true, decide_eq_true_eq,
    List.isEmpty_iff] at hclean
  rcases hclean with hnil | ⟨rfl, hone⟩
  · rw [h.evaluate_of_labels_eq_nil hnil, hnil, record_nil, record_nil]
    exact ⟨value, hvalue, h.append width value⟩
  · obtain ⟨name, hname, hmoved⟩ :=
      Scope.evaluate_atBase_of_addsOneLabel t.base hone hvalue
    rw [h.scope_eq, hmoved, hname]
    refine ⟨_, rfl, h.append_word hslot hsize name ?_⟩
    exact Scope.ofNat_add_distance s.scope t.base value

/-! ### One line -/

theorem fill {s t : Session} (h : Coherent s t) {width : Width} {arguments : List Text}
    (hslot : s.slot = some width)
    (hclean : ∀ argument ∈ arguments, isCleanArgument s.scope width argument = true)
    (hnone : (s.fill width arguments).2 = none)
    (hsize : (s.fill width arguments).1.bytes.size < UInt32.size) :
    (t.fill width arguments).2 = none ∧
      Coherent (s.fill width arguments).1 (t.fill width arguments).1 := by
  induction arguments generalizing s t with
  | nil => exact ⟨rfl, h⟩
  | cons argument rest ih =>
      have hhere : s.bytes.size < UInt32.size :=
        Nat.lt_of_le_of_lt (s.grows_fill width (argument :: rest)).size_le hsize
      obtain ⟨value, hvalue⟩ := exists_value_of_fill hnone
      obtain ⟨value', hvalue', hnext⟩ :=
        h.argument hslot (hclean argument List.mem_cons_self) hhere hvalue
      rw [fill_cons_of_ok hvalue] at hnone hsize ⊢
      rw [fill_cons_of_ok hvalue']
      refine ih hnext ?_ ?_ hnone hsize
      · rw [record_eq]
        exact hslot
      · intro other hother
        rw [scope_append, scope_record]
        exact hclean other (List.mem_cons_of_mem _ hother)

theorem emit {s t : Session} (h : Coherent s t) {width : Width} {arguments : List Text}
    (hclean : ∀ argument ∈ arguments, isCleanArgument s.scope width argument = true)
    (hnone : (s.emit width arguments).2 = none)
    (hsize : (s.emit width arguments).1.bytes.size < UInt32.size) :
    (t.emit width arguments).2 = none ∧
      Coherent (s.emit width arguments).1 (t.emit width arguments).1 := by
  have hslot : Coherent { s with slot := some width } { t with slot := some width } :=
    ⟨h.constants, h.symbols, h.relocations, h.loaded, h.strict, rfl, h.output⟩
  obtain ⟨hnone', hfill⟩ := hslot.fill rfl hclean hnone hsize
  exact ⟨hnone', hfill.constants, hfill.symbols, hfill.relocations, hfill.loaded, hfill.strict,
    rfl, hfill.output⟩

theorem defineConstant {s t u : Session} (h : Coherent s t) {name expression : Text}
    (hclean : (s.constants.get? name).isSome = true ∨ (s.scope.evaluate expression).labels = [])
    (hs : s.defineConstant name expression = (u, none)) :
    ∃ v, t.defineConstant name expression = (v, none) ∧ Coherent u v := by
  obtain ⟨hname, value, hvalue, rfl⟩ := defineConstant_cases hs
  have hnil : (s.scope.evaluate expression).labels = [] := by
    rcases hclean with hsome | hnil
    · rw [hname] at hsome
      cases hsome
    · exact hnil
  have heq := h.evaluate_of_labels_eq_nil hnil
  refine ⟨_, defineConstant_of_ok (h.constants ▸ hname) (heq ▸ hvalue), ?_⟩
  rw [heq, hnil, record_nil, record_nil, h.constants]
  exact ⟨rfl, h.symbols, h.relocations, h.loaded, h.strict, h.slot, h.output⟩

theorem execute {s t u : Session} (h : Coherent s t) {st : Statement}
    (hclean : isLabelClean s.scope st = true) (hs : s.execute st = (u, none))
    (hsize : u.bytes.size < UInt32.size) :
    ∃ v, t.execute st = (v, none) ∧ Coherent u v := by
  rw [isLabelClean] at hclean
  rcases execute_cases hs with ⟨rfl, -, hsilent⟩ | ⟨name, expression, haction, hargs, hdefine⟩ |
    ⟨name, haction, hargs, rfl⟩ | ⟨width, haction, hargs, hemit⟩
  · exact ⟨t, hsilent t, h⟩
  · simp only [haction, hargs, Bool.or_eq_true, List.isEmpty_iff] at hclean
    rw [execute_constant haction hargs]
    exact h.defineConstant hclean hdefine
  · refine ⟨_, execute_publication haction hargs t, ?_⟩
    exact ⟨h.constants, congrArg (SymbolTable.publish · name) h.symbols, h.relocations, h.loaded,
      h.strict, h.slot, h.output⟩
  · simp only [haction, List.all_eq_true] at hclean
    have hnone : (s.emit width st.arguments).2 = none := by rw [hemit]
    have hu : (s.emit width st.arguments).1 = u := by rw [hemit]
    rw [← hu] at hsize ⊢
    obtain ⟨hnone', hcoherent⟩ := h.emit hclean hnone hsize
    rw [execute_data haction hargs]
    exact ⟨_, Prod.ext rfl hnone', hcoherent⟩

theorem atLine {s t : Session} (h : Coherent s t) (site : Site) (st : Statement) :
    Coherent (s.atLine site st) (t.atLine site st) := by
  rw [atLine_eq, atLine_eq, h.symbols, h.cursor_eq]
  exact ⟨h.constants, rfl, h.relocations, h.loaded, h.strict, h.slot, h.output⟩

theorem list {s t : Session} (h : Coherent s t) (start : Nat) (source : Text) :
    Coherent (s.list start source) (t.list start source) := by
  refine h.of_same ?_ ?_
  · rw [Session.list]
    split <;> rfl
  · rw [Session.list]
    split <;> rfl

/-! ### Runs -/

theorem step {s t u : Session} (h : Coherent s t) {event : Event}
    (hclean : s.meetsCleanly event = true) (hs : s.step event = (u, none))
    (hsize : u.bytes.size < UInt32.size) :
    ∃ v, t.step event = (v, none) ∧ Coherent u v := by
  cases event with
  | entered key =>
      cases hs
      exact ⟨_, rfl, h.constants, h.symbols, h.relocations, congrArg (· ++ [key]) h.loaded,
        h.strict, h.slot, h.output⟩
  | repeated path =>
      cases hs
      exact ⟨_, rfl, h.of_same rfl rfl⟩
  | completed path =>
      cases hs
      exact ⟨_, rfl, h.of_same rfl rfl⟩
  | unreadable failure origin => cases origin <;> cases hs
  | line site text =>
      have hline := h.atLine site (Statement.parse text)
      rcases hexecute : (s.atLine site (Statement.parse text)).execute (Statement.parse text) with
        ⟨w, _ | cause⟩
      · have hlist := assembleLine_of_none hexecute
        rw [Session.step, hlist] at hs
        cases hs
        have hw : w.bytes.size < UInt32.size :=
          Nat.lt_of_le_of_lt (w.grows_list ..).size_le hsize
        obtain ⟨v, hv, hcoherent⟩ := hline.execute hclean hexecute hw
        refine ⟨_, assembleLine_of_none hv, ?_⟩
        rw [h.output.size_eq]
        exact hcoherent.list ..
      · rw [Session.step, assembleLine_of_some hexecute] at hs
        cases hs

theorem run {s t : Session} (h : Coherent s t) {events : List Event}
    (hclean : ∀ m ∈ s.moments events, m.1.meetsCleanly m.2 = true)
    (hnone : (s.run events).2 = none) (hsize : (s.run events).1.bytes.size < UInt32.size) :
    (t.run events).2 = none ∧ Coherent (s.run events).1 (t.run events).1 := by
  apply run_related h hnone
  intro m hm u v hstep hgrows hcoherent
  exact hcoherent.step (hclean m hm) hstep (Nat.lt_of_le_of_lt hgrows.size_le hsize)

/-! ### Operations -/

theorem moved {s s' t : Session} (h : Coherent s t) {base : UInt32} (hmoved : Moved s base s') :
    Coherent s' t := by
  have houtput := h.output.moved hmoved
  obtain ⟨bytes, rfl⟩ : ∃ bytes, s' = { s with base, bytes } := ⟨_, hmoved.eq_with⟩
  exact ⟨h.constants, h.symbols, h.relocations, h.loaded, h.strict, h.slot, houtput⟩

theorem operate {s t : Session} (h : Coherent s t) {fs : FileSystem} {operation : Operation}
    (hmove : operation.isRebase = false) (hclean : LabelClean fs s operation)
    (hload : operation.isLoad = true → Succeeds fs s operation)
    (hsize : (s.operate fs operation).1.bytes.size < UInt32.size) :
    Succeeds fs s operation ∧ Succeeds fs t operation ∧
      Coherent (s.operate fs operation).1 (t.operate fs operation).1 := by
  cases hisLoad : operation.isLoad with
  | true =>
      have hevents : operation.events fs t = operation.events fs s := by
        cases operation <;> simp only [Operation.events, h.loaded]
      obtain ⟨hs, hok⟩ := s.operate_of_isLoad fs hisLoad
      obtain ⟨ht, hok'⟩ := t.operate_of_isLoad fs hisLoad
      rw [hs] at hsize
      obtain ⟨hnone, hrun⟩ := h.run hclean (hok.mp (hload hisLoad)) hsize
      rw [hok', hs, ht, hevents]
      exact ⟨hload hisLoad, hnone, hrun.of_same rfl rfl⟩
  | false =>
      cases operation with
      | load _ => cases hisLoad
      | loadSource _ _ => cases hisLoad
      | rebase _ => cases hmove
      | setStrict enabled =>
          exact ⟨rfl, rfl, h.constants, h.symbols, h.relocations, h.loaded, rfl, h.slot, h.output⟩
      | setListed enabled => exact ⟨rfl, rfl, h.of_same rfl rfl⟩

theorem operateAll {s t : Session} (h : Coherent s t) {fs : FileSystem}
    {operations : List Operation} (hclean : Always fs (LabelClean fs) s operations)
    (hload : Always fs (fun s operation => operation.isLoad = true → Succeeds fs s operation)
      s operations)
    (hsize : (s.operateAll fs operations).bytes.size < UInt32.size) :
    Always fs (Succeeds fs) s operations ∧
      Always fs (Succeeds fs) t (operations.filter (!·.isRebase)) ∧
      Coherent (s.operateAll fs operations)
        (t.operateAll fs (operations.filter (!·.isRebase))) := by
  induction operations generalizing s t with
  | nil => exact ⟨trivial, trivial, h⟩
  | cons operation rest ih =>
      have hnext : (s.operate fs operation).1.bytes.size < UInt32.size :=
        Nat.lt_of_le_of_lt (size_operateAll_le _ fs rest) hsize
      cases hmove : operation.isRebase with
      | false =>
          obtain ⟨hok, hok', hcoherent⟩ := h.operate hmove hclean.1 hload.1 hnext
          obtain ⟨hall, hall', hend⟩ := ih hcoherent hclean.2 hload.2 hsize
          rw [List.filter_cons_of_pos (by simp [hmove])]
          exact ⟨⟨hok, hall⟩, ⟨hok', hall'⟩, hend⟩
      | true =>
          rw [List.filter_cons_of_neg (by simp [hmove])]
          cases operation with
          | rebase base =>
              obtain ⟨s', hs'⟩ := exists_rebase_eq_ok base h.output.inRange
              have hoperate := operate_rebase_of_ok hs' fs
              rw [operateAll_cons] at hsize ⊢
              rw [Always] at hclean hload
              rw [hoperate] at hclean hload hsize ⊢
              obtain ⟨hall, hall', hend⟩ :=
                ih (h.moved (moved_of_rebase hs')) hclean.2 hload.2 hsize
              refine ⟨⟨congrArg Prod.snd hoperate, ?_⟩, hall', hend⟩
              rw [hoperate]
              exact hall
          | load _ => cases hmove
          | loadSource _ _ => cases hmove
          | setStrict _ => cases hmove
          | setListed _ => cases hmove

theorem fresh (base base' : UInt32) (constants : Constants) :
    Coherent { base, constants } { base := base', constants } where
  constants := rfl
  symbols := rfl
  relocations := rfl
  loaded := rfl
  strict := rfl
  slot := rfl
  output :=
    { size_eq := rfl
      inRange := fun _ hslot => absurd hslot (Array.not_mem_empty _)
      apart := List.Pairwise.nil
      outside := fun _ _ => rfl
      word := fun _ hslot => absurd hslot (Array.not_mem_empty _) }

end Coherent

/-- However loads of label-clean source and moves to other bases follow each
other, the session ends up as one that is created at the last base and performs
the same operations without any move. -/
theorem operateAll_eq_of_labelClean (fs : FileSystem) (base : UInt32) (constants : Constants)
    (operations : List Operation)
    (hclean : Always fs (LabelClean fs) { base, constants } operations)
    (hload : Always fs (fun s operation => operation.isLoad = true → Succeeds fs s operation)
      { base, constants } operations)
    (hsize : (({ base, constants } : Session).operateAll fs operations).bytes.size <
      UInt32.size) :
    let last := Operation.lastBase base operations
    let unmoved := operations.filter (!·.isRebase)
    let s := ({ base, constants } : Session).operateAll fs operations
    let t := ({ base := last, constants } : Session).operateAll fs unmoved
    Always fs (Succeeds fs) { base, constants } operations ∧
      Always fs (Succeeds fs) { base := last, constants } unmoved ∧
      s.base = last ∧ t.base = last ∧ s.bytes = t.bytes ∧ s.symbols = t.symbols ∧
      s.constants = t.constants ∧ s.relocations = t.relocations := by
  intro last unmoved s t
  obtain ⟨hall, hall', hend⟩ :=
    (Coherent.fresh base last constants).operateAll hclean hload hsize
  have hbase : s.base = last := base_operateAll hall
  have hbase' : t.base = last := by
    have h := base_operateAll hall'
    rw [Operation.lastBase_filter] at h
    exact h
  exact ⟨hall, hall', hbase, hbase', hend.bytes_eq (hbase.trans hbase'.symm), hend.symbols.symm,
    hend.constants.symm, hend.relocations.symm⟩

/-- Assembled at zero and moved on between two loads, or assembled at the last
base: an included label, a chain with a doubly negated label, a constant. -/
theorem operateAll_eq_of_labelClean_include :
    (({ constants := [("K", 3)] } : Session).operateAll
        { files := [(["x.s"], "T: .word T+4\n.byte 7\n.word T")] }
        [.loadSource "m.s" ".include \"x.s\"\n.equ N,K*2\nU: .int 6/N--U+1,T-K", .rebase 4096,
          .loadSource "n.s" ".global V\n.word V,U\nV: .hword N", .rebase 4294967295]).bytes =
      (({ base := 4294967295, constants := [("K", 3)] } : Session).operateAll
        { files := [(["x.s"], "T: .word T+4\n.byte 7\n.word T")] }
        [.loadSource "m.s" ".include \"x.s\"\n.equ N,K*2\nU: .int 6/N--U+1,T-K",
          .loadSource "n.s" ".global V\n.word V,U\nV: .hword N"]).bytes :=
  (operateAll_eq_of_labelClean { files := [(["x.s"], "T: .word T+4\n.byte 7\n.word T")] } 0
    [("K", 3)]
    [.loadSource "m.s" ".include \"x.s\"\n.equ N,K*2\nU: .int 6/N--U+1,T-K", .rebase 4096,
      .loadSource "n.s" ".global V\n.word V,U\nV: .hword N", .rebase 4294967295]
    (by decide +kernel) (by decide +kernel) (by decide +kernel)).2.2.2.2.1

end FlatAssembler.Session
