import FlatAssembler.Proofs.History
import FlatAssembler.Proofs.Slots

/-!
# The relocation list of a session without warnings

A label that is consulted outside of a word is either skipped or warned about.
So a session that has no warnings has recorded words only, and its relocation
list can be read off the slots that its lines have filled: `Records s slots t`
says that `t` comes out of `s` by filling these slots side by side and recording
each word once for each label that it consulted. It composes, so it holds from a
new session to every later one, whatever is loaded, moved or switched in between.

From the layout of the slots it follows that entries are ordered, that they
coincide or are four bytes apart, and that a move to another base stays inside
the words that consulted a label (`relocations_of_warnings_eq_empty`).
-/

namespace FlatAssembler

open LittleEndian

namespace Slot

/-- A word whose value consulted a label. -/
def IsLabelWord (slot : Slot) : Prop := slot.width = .word ∧ slot.labels ≠ []

theorem mem_wordEntries {slot : Slot} {entry : UInt32} :
    entry ∈ slot.wordEntries ↔ slot.IsLabelWord ∧ entry = UInt32.ofNat slot.offset := by
  rw [wordEntries, IsLabelWord]
  by_cases hword : slot.width = .word
  · rw [if_pos hword, List.mem_replicate, ne_eq, List.length_eq_zero_iff]
    constructor
    · rintro ⟨hlabels, rfl⟩
      exact ⟨⟨hword, hlabels⟩, rfl⟩
    · rintro ⟨⟨-, hlabels⟩, rfl⟩
      exact ⟨hlabels, rfl⟩
  · rw [if_neg hword]
    constructor
    · intro h
      cases h
    · intro h
      exact absurd h.1.1 hword

section Entries

variable {slots : List Slot} {start stop : Nat}

theorem toNat_offset (h : Tiles start slots stop) (hstop : stop < UInt32.size) {slot : Slot}
    (hslot : slot ∈ slots) : (UInt32.ofNat slot.offset).toNat = slot.offset := by
  have hend := (h.bounds hslot).2
  apply UInt32.toNat_ofNat_of_lt'
  omega

theorem exists_labelWord_of_mem (h : Tiles start slots stop) (hstop : stop < UInt32.size)
    {entry : UInt32} (hentry : entry ∈ slots.flatMap wordEntries) :
    ∃ slot ∈ slots, slot.IsLabelWord ∧ slot.offset = entry.toNat ∧ entry.toNat + 4 ≤ stop := by
  obtain ⟨slot, hslot, hmem⟩ := List.mem_flatMap.mp hentry
  obtain ⟨hword, rfl⟩ := mem_wordEntries.mp hmem
  have hoffset := toNat_offset h hstop hslot
  have hend := (h.bounds hslot).2
  rw [hword.1] at hend
  refine ⟨slot, hslot, hword, hoffset.symm, ?_⟩
  rw [hoffset]
  exact hend

/-- The entries of one slot coincide, and those of a later slot lie behind. -/
theorem pairwise_wordEntries (h : Tiles start slots stop) (hstop : stop < UInt32.size) :
    (slots.flatMap wordEntries).Pairwise fun a b => a = b ∨ a.toNat + 4 ≤ b.toNat := by
  rw [List.pairwise_flatMap]
  constructor
  · intro slot hslot
    rw [wordEntries]
    split
    · exact List.pairwise_replicate.mpr (Or.inr (Or.inl rfl))
    · exact List.Pairwise.nil
  · refine h.pairwise.imp_of_mem ?_
    intro a b ha hb hab x hx y hy
    obtain ⟨hword, rfl⟩ := mem_wordEntries.mp hx
    obtain ⟨-, rfl⟩ := mem_wordEntries.mp hy
    rw [hword.1] at hab
    rw [toNat_offset h hstop ha, toNat_offset h hstop hb]
    exact Or.inr hab

theorem count_wordEntries_eq_zero {entry : UInt32}
    (h : ∀ slot ∈ slots, (UInt32.ofNat slot.offset) ≠ entry) :
    (slots.flatMap wordEntries).count entry = 0 := by
  rw [List.count_eq_zero]
  intro hmem
  obtain ⟨slot, hslot, hentry⟩ := List.mem_flatMap.mp hmem
  exact h slot hslot (mem_wordEntries.mp hentry).2.symm

/-- A word is recorded as many times as it consulted labels. -/
theorem count_wordEntries (h : Tiles start slots stop) (hstop : stop < UInt32.size)
    {slot : Slot} (hslot : slot ∈ slots) (hword : slot.width = .word) :
    (slots.flatMap wordEntries).count (UInt32.ofNat slot.offset) = slot.labels.length := by
  have hne {a b : Slot} (ha : a ∈ slots) (hb : b ∈ slots)
      (hab : a.offset + a.width.size ≤ b.offset) :
      UInt32.ofNat a.offset ≠ UInt32.ofNat b.offset := by
    intro heq
    have hnat := congrArg UInt32.toNat heq
    have hpos := a.width.size_pos
    rw [toNat_offset h hstop ha, toNat_offset h hstop hb] at hnat
    omega
  have hpairs := h.pairwise
  obtain ⟨before, after, rfl⟩ := List.append_of_mem hslot
  rw [List.pairwise_append, List.pairwise_cons] at hpairs
  obtain ⟨-, ⟨hafter, -⟩, hbefore⟩ := hpairs
  have hzero : (before.flatMap wordEntries).count (UInt32.ofNat slot.offset) = 0 := by
    apply count_wordEntries_eq_zero
    intro other hother
    exact hne (by simp [hother]) hslot (hbefore other hother slot List.mem_cons_self)
  have hzero' : (after.flatMap wordEntries).count (UInt32.ofNat slot.offset) = 0 := by
    apply count_wordEntries_eq_zero
    intro other hother
    exact (hne hslot (by simp [hother]) (hafter other hother)).symm
  rw [List.flatMap_append, List.flatMap_cons, List.count_append, List.count_append, hzero, hzero',
    wordEntries, if_pos hword, List.count_replicate_self]
  omega

end Entries

end Slot

namespace Session

/-! ### Slots of a run -/

/-- The slots that the directive of a statement fills from an offset on. -/
def slotsFor (scope : Scope) (offset : Nat) (st : Statement) : List Slot :=
  match st.action with
  | .data width => scope.slots width offset st.arguments
  | _ => []

/-- The slots that an event makes the session fill. -/
def slotsAt (s : Session) : Event → List Slot
  | .line site text =>
      slotsFor (s.atLine site (Statement.parse text)).scope s.bytes.size (Statement.parse text)
  | _ => []

/-- The slots that are filled in a stretch of history. -/
def slotsOf (moments : List (Session × Event)) : List Slot :=
  moments.flatMap fun m => m.1.slotsAt m.2

theorem slotsOf_cons (m : Session × Event) (moments : List (Session × Event)) :
    slotsOf (m :: moments) = m.1.slotsAt m.2 ++ slotsOf moments := rfl

theorem slotsOf_append (moments more : List (Session × Event)) :
    slotsOf (moments ++ more) = slotsOf moments ++ slotsOf more :=
  List.flatMap_append ..

/-- The session `t` comes out of `s` by filling the slots and recording their
words, once for each label. Outside of lines no slot is being filled. -/
structure Records (s : Session) (slots : List Slot) (t : Session) : Prop where
  slot : t.slot = none
  tiles : Slot.Tiles s.bytes.size slots t.bytes.size
  relocations : t.relocations.toList =
    s.relocations.toList ++ slots.flatMap Slot.wordEntries

namespace Records

/-- What concerns neither the output nor the entries records nothing. -/
theorem of_same {s t : Session} (hslot : t.slot = none) (hsize : t.bytes.size = s.bytes.size)
    (hrelocations : t.relocations = s.relocations) : Records s [] t where
  slot := hslot
  tiles := hsize.symm
  relocations := by
    rw [hrelocations]
    exact (List.append_nil _).symm

theorem trans {s t u : Session} {slots more : List Slot} (h : Records s slots t)
    (hmore : Records t more u) : Records s (slots ++ more) u where
  slot := hmore.slot
  tiles := h.tiles.append hmore.tiles
  relocations := by
    rw [hmore.relocations, h.relocations, List.flatMap_append, List.append_assoc]

theorem trans_same {s t u : Session} {slots : List Slot} (h : Records s slots t)
    (hsame : Records t [] u) : Records s slots u := by
  have htrans := h.trans hsame
  rw [List.append_nil] at htrans
  exact htrans

/-- From a session without entries on, there are the entries of the slots only. -/
theorem toList_relocations {s t : Session} {slots : List Slot} (h : Records s slots t)
    (hs : s.relocations = #[]) : t.relocations.toList = slots.flatMap Slot.wordEntries := by
  rw [h.relocations, hs]
  rfl

theorem exists_labelWord {s t : Session} {slots : List Slot} (h : Records s slots t)
    (hs : s.relocations = #[]) (hsize : t.bytes.size < UInt32.size) {entry : UInt32}
    (hentry : entry ∈ t.relocations) :
    ∃ slot ∈ slots, slot.IsLabelWord ∧ slot.offset = entry.toNat ∧
      entry.toNat + 4 ≤ t.bytes.size := by
  apply Slot.exists_labelWord_of_mem h.tiles hsize
  rw [← h.toList_relocations hs]
  exact Array.mem_toList_iff.mpr hentry

theorem exists_rebase_eq_ok {s t : Session} {slots : List Slot} (h : Records s slots t)
    (hs : s.relocations = #[]) (hsize : t.bytes.size < UInt32.size) (base : UInt32) :
    ∃ u, t.rebase base = .ok u := by
  apply Session.exists_rebase_eq_ok base
  intro entry hentry
  obtain ⟨-, -, -, -, hend⟩ := h.exists_labelWord hs hsize hentry
  exact hend

end Records

/-! ### One line -/

theorem entries_eq_nil_of_cautions {s : Session} {labels : List Text}
    (hslot : s.slot ≠ some .word) (h : s.cautions labels = []) : s.entries labels = [] := by
  rw [entries]
  split
  · rename_i hmode
    have hstrict : s.strict = false := hmode.resolve_left hslot
    have hnot : ¬(s.slot = some .word ∨ s.strict = true) := by
      rintro (hword | htrue)
      · exact hslot hword
      · rw [hstrict] at htrue
        cases htrue
    rw [cautions, if_neg hnot] at h
    rw [List.map_eq_nil_iff.mp h]
    rfl
  · rfl

theorem slotEntries_of_cautions {strict : Bool} {site : Site} {slot : Slot}
    (h : slotCautions strict site slot = []) : slotEntries strict slot = slot.wordEntries := by
  rw [slotEntries, Slot.wordEntries]
  by_cases hword : slot.width = .word
  · rw [if_pos (Or.inl hword), if_pos hword]
  · rw [if_neg hword]
    cases strict with
    | true => rw [if_neg (by simp [hword])]
    | false =>
        rw [slotCautions, if_neg (by simp [hword])] at h
        rw [if_pos (Or.inr rfl), List.map_eq_nil_iff.mp h]
        rfl

theorem append_eq_empty {α : Type} {xs : Array α} {l : List α} (h : xs ++ l = #[]) :
    l = [] := by
  have hlist := congrArg Array.toList h
  rw [Array.toList_appendList] at hlist
  exact (List.append_eq_nil_iff.mp hlist).2

theorem records_emit {s : Session} {width : Width} {arguments : List Text}
    (hnone : (s.emit width arguments).2 = none)
    (hwarnings : (s.emit width arguments).1.warnings = #[]) :
    Records s (s.scope.slots width s.bytes.size arguments) (s.emit width arguments).1 := by
  have htiles : Slot.Tiles s.bytes.size (s.scope.slots width s.bytes.size arguments) _ :=
    tiles_slots (s := { s with slot := some width }) hnone
  have hfill := fill_eq_of_none (s := { s with slot := some width }) rfl hnone
  have hemit : (s.emit width arguments).1 =
      { ({ s with slot := some width }.fill width arguments).1 with slot := none } := rfl
  rw [hemit, hfill] at hwarnings
  refine ⟨rfl, htiles, ?_⟩
  rw [hemit, hfill]
  have hcautions := List.flatMap_eq_nil_iff.mp (append_eq_empty hwarnings)
  have hentries : (s.scope.slots width s.bytes.size arguments).flatMap (slotEntries s.strict) =
      (s.scope.slots width s.bytes.size arguments).flatMap Slot.wordEntries := by
    rw [List.flatMap_def, List.flatMap_def]
    congr 1
    apply List.map_congr_left
    intro slot hslot
    exact slotEntries_of_cautions (hcautions slot hslot)
  exact (Array.toList_appendList ..).trans (congrArg (s.relocations.toList ++ ·) hentries)

theorem records_execute {s t : Session} {st : Statement} (hslot : s.slot = none)
    (h : s.execute st = (t, none)) (hwarnings : t.warnings = #[]) :
    Records s (slotsFor s.scope s.bytes.size st) t := by
  rw [slotsFor]
  rcases execute_cases h with ⟨rfl, hdata, -⟩ | ⟨name, expression, haction, -, hdefine⟩ |
    ⟨name, haction, -, rfl⟩ | ⟨width, haction, -, hemit⟩
  · split
    · rename_i width haction
      exact absurd haction (hdata width)
    · exact Records.of_same hslot rfl rfl
  · simp only [haction]
    obtain ⟨-, value, -, rfl⟩ := defineConstant_cases hdefine
    rw [record_eq] at hwarnings ⊢
    have hentries := entries_eq_nil_of_cautions (by rw [hslot]; simp) (append_eq_empty hwarnings)
    refine Records.of_same hslot rfl ?_
    change s.relocations ++ s.entries _ = s.relocations
    rw [hentries, Array.appendList_nil]
  · simp only [haction]
    exact Records.of_same hslot rfl rfl
  · simp only [haction]
    have ht : (s.emit width st.arguments).1 = t := congrArg Prod.fst hemit
    rw [← ht] at hwarnings ⊢
    exact records_emit (congrArg Prod.snd hemit) hwarnings

theorem records_atLine {s : Session} (hslot : s.slot = none) (site : Site) (st : Statement) :
    Records s [] (s.atLine site st) := by
  rw [atLine_eq]
  exact Records.of_same hslot rfl rfl

theorem records_list {s : Session} (hslot : s.slot = none) (start : Nat) (source : Text) :
    Records s [] (s.list start source) := by
  rw [list]
  split
  · exact Records.of_same hslot rfl rfl
  · exact Records.of_same hslot rfl rfl

/-! ### Runs and operations -/

theorem records_step {s t : Session} {event : Event} (hslot : s.slot = none)
    (h : s.step event = (t, none)) (hwarnings : t.warnings = #[]) :
    Records s (s.slotsAt event) t := by
  cases event with
  | entered key =>
      cases h
      exact Records.of_same hslot rfl rfl
  | repeated path =>
      cases h
      exact Records.of_same hslot rfl rfl
  | completed path =>
      cases h
      exact Records.of_same hslot rfl rfl
  | unreadable failure origin => cases origin <;> cases h
  | line site text =>
      rcases hexecute : (s.atLine site (Statement.parse text)).execute (Statement.parse text) with
        ⟨u, _ | cause⟩
      · rw [step, assembleLine_of_none hexecute] at h
        cases h
        have hline := records_atLine hslot site (Statement.parse text)
        have hu := (u.grows_list s.bytes.size text.trim).warnings_eq_empty hwarnings
        have hdirective := records_execute hline.slot hexecute hu
        have hsize : (s.atLine site (Statement.parse text)).bytes.size = s.bytes.size :=
          hline.tiles.symm
        rw [hsize] at hdirective
        exact (hline.trans hdirective).trans_same (records_list hdirective.slot ..)
      · rw [step, assembleLine_of_some hexecute] at h
        cases h

theorem records_run {s : Session} {events : List Event} (hslot : s.slot = none)
    (h : (s.run events).2 = none) (hwarnings : (s.run events).1.warnings = #[]) :
    Records s (slotsOf (s.moments events)) (s.run events).1 := by
  induction events generalizing s with
  | nil => exact Records.of_same hslot rfl rfl
  | cons event rest ih =>
      obtain ⟨t, ht, hrest⟩ := step_of_run_cons h
      rw [run_cons_of_none ht] at hwarnings ⊢
      rw [moments_cons_of_none ht, slotsOf_cons]
      have hstep := records_step hslot ht ((t.grows_run rest).warnings_eq_empty hwarnings)
      exact hstep.trans (ih hstep.slot hrest hwarnings)

theorem records_operate {s : Session} {fs : FileSystem} {operation : Operation}
    (hslot : s.slot = none) (h : Succeeds fs s operation)
    (hwarnings : (s.operate fs operation).1.warnings = #[]) :
    Records s (slotsOf (s.moments (operation.events fs s))) (s.operate fs operation).1 := by
  rcases s.operate_cases fs operation with ⟨heq, hok⟩ | ⟨base, rfl⟩ | ⟨_, rfl⟩ | ⟨_, rfl⟩
  · rw [heq] at hwarnings ⊢
    have hrun := records_run hslot (hok.mp h) hwarnings
    exact hrun.trans_same (Records.of_same hrun.slot rfl rfl)
  · obtain ⟨b, bytes, hsize, heq⟩ := s.exists_operate_rebase_eq fs base
    rw [heq]
    exact Records.of_same hslot hsize rfl
  · exact Records.of_same hslot rfl rfl
  · exact Records.of_same hslot rfl rfl

theorem warnings_operate_eq_empty {s : Session} {fs : FileSystem} {operation : Operation}
    (hwarnings : (s.operate fs operation).1.warnings = #[]) : s.warnings = #[] := by
  rcases s.operate_cases fs operation with ⟨heq, -⟩ | ⟨base, rfl⟩ | ⟨_, rfl⟩ | ⟨_, rfl⟩
  · rw [heq] at hwarnings
    exact (s.grows_run _).warnings_eq_empty hwarnings
  · obtain ⟨b, bytes, -, heq⟩ := s.exists_operate_rebase_eq fs base
    rw [heq] at hwarnings
    exact hwarnings
  · exact hwarnings
  · exact hwarnings

theorem warnings_operateAll_eq_empty {s : Session} {fs : FileSystem}
    {operations : List Operation} (hwarnings : (s.operateAll fs operations).warnings = #[]) :
    s.warnings = #[] := by
  induction operations generalizing s with
  | nil => exact hwarnings
  | cons operation rest ih => exact warnings_operate_eq_empty (ih hwarnings)

theorem records_operateAll {s : Session} {fs : FileSystem} {operations : List Operation}
    (hslot : s.slot = none) (h : Always fs (Succeeds fs) s operations)
    (hwarnings : (s.operateAll fs operations).warnings = #[]) :
    Records s (slotsOf (s.history fs operations)) (s.operateAll fs operations) := by
  induction operations generalizing s with
  | nil => exact Records.of_same hslot rfl rfl
  | cons operation rest ih =>
      rw [operateAll_cons] at hwarnings ⊢
      rw [history, slotsOf_append]
      have hfirst := records_operate hslot h.1 (warnings_operateAll_eq_empty hwarnings)
      exact hfirst.trans (ih hfirst.slot h.2 hwarnings)

/-! ### Strict mode -/

theorem warnings_record {s : Session} (hstrict : s.strict = true) (labels : List Text) :
    (s.record labels).warnings = s.warnings := by
  rw [record_eq, cautions, if_pos (Or.inr hstrict), Array.appendList_nil]

theorem compatible_warnings :
    Compatible fun s t => s.strict = true → t.strict = true ∧ t.warnings = s.warnings where
  refl := fun _ hstrict => ⟨hstrict, rfl⟩
  trans := by
    intro s t u hst htu hstrict
    obtain ⟨ht, hwarnings⟩ := hst hstrict
    obtain ⟨hu, hwarnings'⟩ := htu ht
    exact ⟨hu, hwarnings'.trans hwarnings⟩
  record := fun s labels hstrict =>
    ⟨(s.grows_record labels).strict.trans hstrict, warnings_record hstrict labels⟩
  append := fun _ _ _ hstrict => ⟨hstrict, rfl⟩
  slot := fun _ _ _ h => h
  constant := fun _ _ _ _ hstrict => ⟨hstrict, rfl⟩
  publication := fun _ _ hstrict => ⟨hstrict, rfl⟩
  label := fun _ _ hstrict => ⟨hstrict, rfl⟩
  place := fun _ _ hstrict => ⟨hstrict, rfl⟩
  list := by
    intro s start source hstrict
    rw [list]
    split
    · exact ⟨hstrict, rfl⟩
    · exact ⟨hstrict, rfl⟩
  mark := fun _ _ hstrict => ⟨hstrict, rfl⟩
  note := fun _ _ hstrict => ⟨hstrict, rfl⟩

theorem warnings_run {s : Session} (hstrict : s.strict = true) (events : List Event) :
    (s.run events).1.warnings = s.warnings :=
  (compatible_warnings.run s events hstrict).2

/-- Strict mode that is never switched off keeps a session free of warnings. -/
theorem warnings_operateAll {s : Session} (hstrict : s.strict = true) (fs : FileSystem)
    {operations : List Operation} (h : Operation.setStrict false ∉ operations) :
    (s.operateAll fs operations).warnings = s.warnings := by
  induction operations generalizing s with
  | nil => rfl
  | cons operation rest ih =>
      rw [List.mem_cons, not_or] at h
      have hkeep : (s.operate fs operation).1.strict = true ∧
          (s.operate fs operation).1.warnings = s.warnings := by
        rcases s.operate_cases fs operation with ⟨heq, -⟩ | ⟨base, rfl⟩ | ⟨enabled, rfl⟩ | ⟨_, rfl⟩
        · rw [heq]
          exact ⟨(s.grows_run _).strict.trans hstrict, warnings_run hstrict _⟩
        · obtain ⟨b, bytes, -, heq⟩ := s.exists_operate_rebase_eq fs base
          rw [heq]
          exact ⟨hstrict, rfl⟩
        · cases enabled with
          | true => exact ⟨rfl, rfl⟩
          | false => exact absurd rfl h.1
        · exact ⟨hstrict, rfl⟩
      rw [operateAll_cons, ih hkeep.1 h.2, hkeep.2]

/-! ### Moves without warnings -/

/-- As long as all calls succeed and there is no warning, every entry is the
start of a word that consulted a label, entries are ordered and do not overlap,
and a move to any base succeeds and stays inside these words. Strict mode from
beginning to end is enough for there to be no warning. -/
theorem relocations_of_warnings_eq_empty (fs : FileSystem) (base : UInt32)
    (constants : Constants) (strict : Bool) (operations : List Operation)
    (h : Always fs (Succeeds fs) { base, constants, strict } operations)
    (hsize : (({ base, constants, strict } : Session).operateAll fs operations).bytes.size <
      UInt32.size) :
    let slots := slotsOf (({ base, constants, strict } : Session).history fs operations)
    let s := ({ base, constants, strict } : Session).operateAll fs operations
    (s.warnings = #[] →
      (∀ entry ∈ s.relocations,
        (∃ slot ∈ slots, slot.IsLabelWord ∧ slot.offset = entry.toNat) ∧
          entry.toNat + 4 ≤ s.bytes.size) ∧
      s.relocations.toList.Pairwise (· ≤ ·) ∧
      s.relocations.toList.Pairwise (fun a b => a = b ∨ Apart a.toNat b.toNat) ∧
      ∀ new, ∃ t, s.rebase new = .ok t ∧
        ∀ i, (∀ slot ∈ slots, slot.IsLabelWord → ¬(slot.offset ≤ i ∧ i < slot.offset + 4)) →
          t.bytes[i]? = s.bytes[i]?) ∧
    (strict = true → Operation.setStrict false ∉ operations → s.warnings = #[]) := by
  intro slots s
  constructor
  · intro hwarnings
    have hrecords : Records _ slots s := records_operateAll rfl h hwarnings
    have hpairs := Slot.pairwise_wordEntries hrecords.tiles hsize
    rw [← hrecords.toList_relocations rfl] at hpairs
    refine ⟨?_, hpairs.imp ?_, hpairs.imp ?_, ?_⟩
    · intro entry hmem
      obtain ⟨slot, hslot, hword, hoffset, hend⟩ := hrecords.exists_labelWord rfl hsize hmem
      exact ⟨⟨slot, hslot, hword, hoffset⟩, hend⟩
    · rintro a b (rfl | hlt)
      · exact UInt32.le_refl _
      · exact UInt32.le_iff_toNat_le.mpr (by omega)
    · rintro a b (heq | hlt)
      · exact Or.inl heq
      · exact Or.inr (Or.inl hlt)
    · intro new
      obtain ⟨t, ht⟩ := hrecords.exists_rebase_eq_ok rfl hsize new
      refine ⟨t, ht, fun i hi => ?_⟩
      apply (moved_of_rebase ht).outside
      intro entry hmem
      obtain ⟨slot, hslot, hword, hoffset, -⟩ := hrecords.exists_labelWord rfl hsize hmem
      rw [← hoffset]
      exact hi slot hslot hword
  · intro hstrict hkeep
    exact warnings_operateAll hstrict fs hkeep

/-- A label in a byte is skipped in strict mode, a word with two labels has two
entries, and a move in between changes nothing of the list. -/
theorem relocations_of_warnings_eq_empty_switched :
    (({ strict := true } : Session).operateAll {}
        [.loadSource "m.s" "L: .byte L\n.word L", .setStrict false, .rebase 4096,
          .loadSource "n.s" "M: .int M-L,5,L"]).relocations = #[1, 5, 5, 13] ∧
      (({ strict := true } : Session).operateAll {}
        [.loadSource "m.s" "L: .byte L\n.word L", .setStrict false, .rebase 4096,
          .loadSource "n.s" "M: .int M-L,5,L"]).relocations.toList.Pairwise
        (fun a b => a = b ∨ Apart a.toNat b.toNat) :=
  ⟨by decide +kernel,
    ((relocations_of_warnings_eq_empty {} 0 [] true
      [.loadSource "m.s" "L: .byte L\n.word L", .setStrict false, .rebase 4096,
        .loadSource "n.s" "M: .int M-L,5,L"]
      (by decide +kernel) (by decide +kernel)).1 (by decide +kernel)).2.2.1⟩

end Session

end FlatAssembler
