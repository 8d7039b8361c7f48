import FlatAssembler.Proofs.LabelUse
import FlatAssembler.Proofs.Slots
import FlatAssembler.Proofs.Word
import Mathlib.Algebra.Group.Int.Defs
import Mathlib.Data.List.Forall2

/-!
# The layout of a data line

A data line evaluates its arguments one by one, and each of them in another session:
the slots before it are filled already, and the labels that were consulted for them are
recorded. None of this shows in a value, so the values are those that the arguments have
in front of the line, and slot `i` lies `i` slots behind the end of the output.

`Fills` says what stands in the output and in the relocations when a line has filled
slots with some values: the words of the slots, read back as numbers, and as many
entries for each slot as its argument has operands that are labels. Such operands are
counted in the text by `Scope.labelOperands`; an argument with a value has consulted all
of them (`length_labels_evaluate`). `execute_data_layout` gives the slots of a line that
goes through, and of one that stops at an argument without a value.
-/

namespace FlatAssembler

/-! ### Directives and widths -/

/-- The names of the directives that fill slots of this width. -/
def Width.directives : Width → List Text
  | .byte => ["byte"]
  | .half => ["hword"]
  | .word => ["word", "int"]

/-- The directives of a width are those that put out slots of it. -/
theorem Statement.action_eq_data_iff (st : Statement) (width : Width) :
    st.action = .data width ↔ st.directive ∈ width.directives := by
  have hnames : ∀ name ∈ width.directives, Directive.ofName name = .data width := by
    cases width <;> decide
  constructor
  · intro h
    rw [action, Directive.ofName] at h
    repeat' split at h
    all_goals cases h <;> simp_all [Width.directives]
  · exact hnames st.directive

namespace Width

/-- The bytes of a slot that holds this value. -/
def bytes (width : Width) (value : Int64) : List UInt8 :=
  LittleEndian.encode width.size value.toUInt64.toNat

@[simp] theorem length_bytes (width : Width) (value : Int64) :
    (width.bytes value).length = width.size :=
  LittleEndian.length_encode _ _

theorem length_flatMap_bytes (width : Width) (values : List Int64) :
    (values.flatMap width.bytes).length = values.length * width.size := by
  induction values with
  | nil => simp
  | cons value values ih =>
      rw [List.flatMap_cons, List.length_append, length_bytes, ih, List.length_cons,
        Nat.add_one_mul, Nat.add_comm]

theorem dvd_bits (width : Width) : (2 : Int) ^ (8 * width.size) ∣ 2 ^ 64 := by
  cases width <;> decide

/-- A slot holds the value, reduced to its bits. -/
theorem decode_bytes (width : Width) (value : Int64) :
    (LittleEndian.decode (width.bytes value) : Int) = value.toInt % 2 ^ (8 * width.size) := by
  have hbits : (256 : Nat) ^ width.size = 2 ^ (8 * width.size) := by rw [Nat.pow_mul]
  have hunsigned : (value.toUInt64.toNat : Int) = value.toInt % 2 ^ 64 := by
    have hvalue : value.toInt = (value.toUInt64.toNat : Int).bmod (2 ^ 64) :=
      value.toBitVec.toInt_eq_toNat_bmod
    have hlt : value.toUInt64.toNat < 2 ^ 64 := value.toUInt64.toNat_lt
    rw [hvalue]
    have hmod : (value.toUInt64.toNat : Int).bmod (2 ^ 64) % (2 ^ 64 : Nat) =
        value.toUInt64.toNat % (2 ^ 64 : Nat) := Int.bmod_emod
    omega
  rw [bytes, LittleEndian.decode_encode, hbits]
  push_cast
  rw [hunsigned, Int.emod_emod_of_dvd _ width.dvd_bits]

end Width

/-! ### Operands that are labels -/

namespace Scope

/-- How many operands of an argument are labels. A text that is by itself a literal, a
constant or a label is the only operand. -/
def labelOperands (scope : Scope) (text : Text) : Nat :=
  match scope.atom? text.unspaced with
  | some _ => if scope.isLabel text.unspaced then 1 else 0
  | none => (Term.split text.unspaced).countP fun term => (scope.labelSign? term.operand).isSome

variable {scope : Scope}

theorem length_labels_operand (whole cs : List Char) :
    (scope.operand whole cs).labels.length = if (scope.labelSign? cs).isSome then 1 else 0 := by
  cases hsign : scope.labelSign? cs with
  | none => simp [(operand_atBase_of_labelSign?_eq_none scope.base hsign whole).2]
  | some sign =>
      obtain ⟨symbol, hsymbol⟩ := exists_operand_of_labelSign? hsign whole
      have hlabels : (scope.operand whole cs).labels = [symbol.name] :=
        congrArg Evaluation.labels (hsymbol scope.base)
      simp [hlabels]

/-- A chain consults its labels from the left, and all of them if it has a value. -/
theorem length_labels_accumulate (whole : List Char) (terms : List Term) (acc : Int64) :
    let count := terms.countP fun term => (scope.labelSign? term.operand).isSome
    let e := scope.accumulate whole terms acc
    e.labels.length ≤ count ∧ ∀ value, e.value = .ok value → e.labels.length = count := by
  induction terms generalizing acc with
  | nil => simp [accumulate]
  | cons term rest ih =>
      intro count e
      have hoperand := scope.length_labels_operand whole term.operand
      have hcount : count = rest.countP (fun term => (scope.labelSign? term.operand).isSome) +
          (scope.operand whole term.operand).labels.length := by
        rw [hoperand]
        exact List.countP_cons
      cases hv : (scope.operand whole term.operand).value with
      | error cause =>
          have he : e = scope.operand whole term.operand := accumulate_cons_of_error hv rest acc
          rw [he, hv]
          exact ⟨by omega, by simp⟩
      | ok v =>
          cases hnext : term.operator.apply acc v with
          | none =>
              have he : e = _ := accumulate_cons_of_none hv hnext rest
              rw [he]
              exact ⟨by simp only; omega, by simp⟩
          | some next =>
              obtain ⟨hle, heq⟩ := ih next
              have he : e = _ := accumulate_cons_of_some hv hnext rest
              rw [he]
              simp only [List.length_append]
              refine ⟨by omega, fun value hvalue => ?_⟩
              have := heq value hvalue
              omega

theorem length_labels_evaluate (text : Text) :
    (scope.evaluate text).labels.length ≤ scope.labelOperands text ∧
      ∀ value, (scope.evaluate text).value = .ok value →
        (scope.evaluate text).labels.length = scope.labelOperands text := by
  rw [evaluate, evaluateChars, labelOperands]
  cases hlabel : scope.isLabel text.unspaced with
  | true =>
      obtain ⟨symbol, hsymbol⟩ := exists_atom?_of_isLabel hlabel
      have hatom : scope.atom? text.unspaced = _ := hsymbol scope.base
      simp [hatom]
  | false =>
      cases hatom : scope.atom? text.unspaced with
      | some e => simp [labels_of_atom? hlabel hatom]
      | none =>
          simp only
          split
          · exact length_labels_accumulate text.unspaced (Term.split text.unspaced) 0
          · exact ⟨Nat.zero_le _, by simp [Evaluation.fail]⟩

end Scope

/-! ### Relocation entries -/

/-- The entries of slots that lie side by side from `start` on, given how many each has. -/
def slotRelocations (width : Width) (start : Nat) (counts : List Nat) : List UInt32 :=
  (counts.mapIdx fun i count =>
    List.replicate count (UInt32.ofNat (start + i * width.size))).flatten

@[simp] theorem slotRelocations_nil (width : Width) (start : Nat) :
    slotRelocations width start [] = [] := rfl

theorem slotRelocations_cons (width : Width) (start count : Nat) (counts : List Nat) :
    slotRelocations width start (count :: counts) =
      List.replicate count (UInt32.ofNat start) ++
        slotRelocations width (start + width.size) counts := by
  have hshift (i : Nat) : start + (i + 1) * width.size = start + width.size + i * width.size := by
    rw [Nat.add_one_mul]
    omega
  simp only [slotRelocations, List.mapIdx_cons, List.flatten_cons, hshift, Nat.zero_mul,
    Nat.add_zero]

theorem slotRelocations_append (width : Width) (start : Nat) (counts more : List Nat) :
    slotRelocations width start (counts ++ more) =
      slotRelocations width start counts ++
        slotRelocations width (start + counts.length * width.size) more := by
  induction counts generalizing start with
  | nil => simp
  | cons count counts ih =>
      have hstart : start + (counts.length + 1) * width.size =
          start + width.size + counts.length * width.size := by
        rw [Nat.add_one_mul]
        omega
      rw [List.cons_append, slotRelocations_cons, slotRelocations_cons, ih, List.length_cons,
        hstart, List.append_assoc]

namespace Session

/-- A line has filled slots of the width with the values, one behind the other, and has
recorded so many labels for each slot. Nothing but the output, the relocations and the
warnings is touched. -/
structure Fills (s : Session) (width : Width) (values : List Int64) (counts : List Nat)
    (t : Session) : Prop where
  size : t.bytes.size = s.bytes.size + values.length * width.size
  kept : ∀ i < s.bytes.size, t.bytes[i]? = s.bytes[i]?
  slot : ∀ i value, values[i]? = some value →
    (LittleEndian.decode (t.bytes.extract (s.bytes.size + i * width.size)
      (s.bytes.size + i * width.size + width.size)).toList : Int) =
        value.toInt % 2 ^ (8 * width.size)
  relocations : t.relocations = s.relocations ++
    if s.strict = true ∧ width ≠ .word then []
    else slotRelocations width s.bytes.size counts
  frame : t = { s with
    bytes := t.bytes, relocations := t.relocations, warnings := t.warnings, slot := none }

/-! ### Filling a line -/

/-- Slots that are filled from where others end. -/
theorem fill_append_of_none {s : Session} {width : Width} {arguments : List Text}
    (h : (s.fill width arguments).2 = none) (more : List Text) :
    s.fill width (arguments ++ more) = (s.fill width arguments).1.fill width more := by
  induction arguments generalizing s with
  | nil => rfl
  | cons argument rest ih =>
      obtain ⟨value, hvalue⟩ := exists_value_of_fill h
      rw [fill_cons_of_ok hvalue] at h
      rw [List.cons_append, fill_cons_of_ok hvalue, fill_cons_of_ok hvalue, ih h]

/-- The arguments have these values in front of the line. -/
def HaveValues (s : Session) (arguments : List Text) (values : List Int64) : Prop :=
  List.Forall₂ (fun argument value => (s.evaluate argument).2 = .ok value) arguments values

theorem HaveValues.fill_eq_none {s : Session} {arguments : List Text} {values : List Int64}
    (h : s.HaveValues arguments values) (t : Session) (hscope : t.scope = s.scope)
    (width : Width) : (t.fill width arguments).2 = none := by
  induction h generalizing t with
  | nil => rfl
  | @cons argument value arguments values hvalue _ ih =>
      have hvalue' : (t.scope.evaluate argument).value = .ok value := hscope ▸ hvalue
      rw [fill_cons_of_ok hvalue']
      exact ih _ (by rw [scope_append, scope_record, hscope])

/-- The bytes of the slots. -/
theorem HaveValues.flatMap_bytes {s : Session} {arguments : List Text} {values : List Int64}
    (h : s.HaveValues arguments values) (width : Width) (offset : Nat) :
    (s.scope.slots width offset arguments).flatMap Slot.bytes = values.flatMap width.bytes := by
  induction h generalizing offset with
  | nil => rfl
  | cons hvalue _ ih =>
      rw [Scope.slots_cons_of_ok hvalue, List.flatMap_cons, List.flatMap_cons, ih]
      rfl

/-- The relocation entries of the slots. -/
theorem HaveValues.flatMap_entries {s : Session} {arguments : List Text} {values : List Int64}
    (h : s.HaveValues arguments values) (strict : Bool) (width : Width) (offset : Nat) :
    (s.scope.slots width offset arguments).flatMap (slotEntries strict) =
      if strict = true ∧ width ≠ .word then []
      else slotRelocations width offset (arguments.map s.scope.labelOperands) := by
  induction h generalizing offset with
  | nil => simp [Scope.slots]
  | @cons argument value arguments values hvalue _ ih =>
      have hlabels := (Scope.length_labels_evaluate argument).2 value hvalue
      rw [Scope.slots_cons_of_ok hvalue, List.flatMap_cons, ih, List.map_cons,
        slotRelocations_cons, ← hlabels]
      by_cases hword : width = .word
      · simp [slotEntries, hword]
      · cases strict <;> simp [slotEntries, hword]

/-- The words of the slots, each in its own place. -/
theorem Fills.of_eq {s t : Session} {width : Width} {values : List Int64} {counts : List Nat}
    (hbytes : t.bytes = s.bytes ++ values.flatMap width.bytes)
    (hrelocations : t.relocations = s.relocations ++
      if s.strict = true ∧ width ≠ .word then []
      else slotRelocations width s.bytes.size counts)
    (hframe : t = { s with
      bytes := t.bytes, relocations := t.relocations, warnings := t.warnings, slot := none }) :
    s.Fills width values counts t where
  size := by
    rw [hbytes, LittleEndian.size_append_list, Width.length_flatMap_bytes]
  kept := by
    intro i hi
    rw [hbytes, LittleEndian.getElem?_append_of_lt _ hi]
  slot := by
    intro i value hvalue
    obtain ⟨hi, rfl⟩ := List.getElem?_eq_some_iff.mp hvalue
    have hvalues : values = values.take i ++ values[i] :: values.drop (i + 1) := by
      rw [← List.drop_eq_getElem_cons hi, List.take_append_drop]
    have hfront : (s.bytes.toList ++ (values.take i).flatMap width.bytes).length =
        s.bytes.size + i * width.size := by
      rw [List.length_append, Width.length_flatMap_bytes, List.length_take,
        Nat.min_eq_left (Nat.le_of_lt hi), Array.length_toList]
    have hwindow : (t.bytes.extract (s.bytes.size + i * width.size)
        (s.bytes.size + i * width.size + width.size)).toList = width.bytes values[i] := by
      rw [hbytes, Array.toList_extract, Array.toList_appendList, List.extract_eq_take_drop]
      nth_rewrite 1 [hvalues]
      rw [List.flatMap_append, List.flatMap_cons, ← List.append_assoc, List.drop_left' hfront]
      rw [List.take_left' (by rw [Width.length_bytes]; omega)]
    rw [hwindow, Width.decode_bytes]
  relocations := hrelocations
  frame := hframe

/-- The session in the middle of a line that has filled slots with these values. -/
def filled (s : Session) (width : Width) (values : List Int64) (counts : List Nat)
    (cautions : List Warning) : Session :=
  { s with
    bytes := s.bytes ++ values.flatMap width.bytes
    relocations := s.relocations ++
      if s.strict = true ∧ width ≠ .word then []
      else slotRelocations width s.bytes.size counts
    warnings := s.warnings ++ cautions
    slot := some width }

theorem HaveValues.exists_fill_eq {s : Session} {arguments : List Text} {values : List Int64}
    (h : s.HaveValues arguments values) (width : Width) :
    ∃ cautions, { s with slot := some width }.fill width arguments =
      (s.filled width values (arguments.map s.scope.labelOperands) cautions, none) := by
  have hnone := h.fill_eq_none { s with slot := some width } rfl width
  have hfill := fill_eq_of_none rfl hnone
  have hscope : ({ s with slot := some width } : Session).scope = s.scope := rfl
  simp only [hscope, h.flatMap_bytes, h.flatMap_entries] at hfill
  exact ⟨_, Prod.ext hfill hnone⟩

/-- A line all of whose arguments have values fills their slots. -/
theorem HaveValues.emit {s : Session} {arguments : List Text} {values : List Int64}
    (h : s.HaveValues arguments values) (width : Width) :
    (s.emit width arguments).2 = none ∧
      s.Fills width values (arguments.map s.scope.labelOperands) (s.emit width arguments).1 := by
  obtain ⟨cautions, hfill⟩ := h.exists_fill_eq width
  rw [Session.emit, hfill]
  exact ⟨rfl, .of_eq rfl rfl rfl⟩

/-- The labels of an argument without a value are recorded where its slot would start. -/
theorem record_filled (s : Session) (width : Width) (values : List Int64) (counts : List Nat)
    (hcounts : counts.length = values.length) (cautions : List Warning) (labels : List Text) :
    ∃ more, (s.filled width values counts cautions).record labels =
      s.filled width values (counts ++ [labels.length]) more := by
  have hcursor : (s.filled width values counts cautions).bytes.size =
      s.bytes.size + counts.length * width.size := by
    rw [filled, LittleEndian.size_append_list, Width.length_flatMap_bytes, hcounts]
  have hentries : (s.filled width values counts cautions).entries labels =
      if s.strict = true ∧ width ≠ .word then []
      else slotRelocations width (s.bytes.size + counts.length * width.size) [labels.length] := by
    rw [slotRelocations_cons, slotRelocations_nil, entries, cursor, hcursor]
    by_cases hword : width = .word
    · simp [filled, hword]
    · cases hstrict : s.strict <;> simp [filled, hword, hstrict]
  refine ⟨cautions ++ (s.filled width values counts cautions).cautions labels, ?_⟩
  rw [record_eq, hentries, filled, filled, slotRelocations_append]
  split <;> simp [appendList_append]

/-- A line that comes to an argument without a value has filled the slots of those before,
and has recorded the labels that this argument consulted. -/
theorem HaveValues.emit_append_cons {s : Session} {before : List Text} {values : List Int64}
    (h : s.HaveValues before values) (width : Width) {argument : Text} {cause : Cause}
    (hcause : (s.evaluate argument).2 = .error cause) (after : List Text) :
    (s.emit width (before ++ argument :: after)).2 = some cause ∧
      s.Fills width values
        (before.map s.scope.labelOperands ++ [(s.scope.evaluate argument).labels.length])
        (s.emit width (before ++ argument :: after)).1 := by
  have hnone := h.fill_eq_none { s with slot := some width } rfl width
  obtain ⟨cautions, hfill⟩ := h.exists_fill_eq width
  obtain ⟨more, hrecord⟩ := s.record_filled width values (before.map s.scope.labelOperands)
    (by rw [List.length_map, h.length_eq]) cautions (s.scope.evaluate argument).labels
  have hend : { s with slot := some width }.fill width (before ++ argument :: after) =
      (s.filled width values
        (before.map s.scope.labelOperands ++ [(s.scope.evaluate argument).labels.length]) more,
        some cause) := by
    rw [fill_append_of_none hnone, hfill, ← hrecord]
    exact fill_cons_of_error hcause
  rw [Session.emit, hend]
  exact ⟨rfl, .of_eq rfl rfl rfl⟩

/-- The slots of a data line. If all arguments have values, the output grows by one slot
for each, with the low bits of the values, and the relocations by one entry for each
operand that is a label, unless labels in slots of this width are not recorded. If an
argument is the first one without a value, its failure is that of the line, and the slots
of the arguments before it are filled. -/
theorem execute_data_layout (s : Session) (st : Statement) (width : Width)
    (hdirective : st.directive ∈ width.directives) (harguments : st.arguments ≠ []) :
    (∀ values, s.HaveValues st.arguments values →
        (s.execute st).2 = none ∧
          s.Fills width values (st.arguments.map s.scope.labelOperands) (s.execute st).1) ∧
      ∀ before argument after values cause, st.arguments = before ++ argument :: after →
        s.HaveValues before values → (s.evaluate argument).2 = .error cause →
        (s.execute st).2 = some cause ∧ ∃ count ≤ s.scope.labelOperands argument,
          s.Fills width values (before.map s.scope.labelOperands ++ [count]) (s.execute st).1 := by
  rw [execute_data ((st.action_eq_data_iff width).mpr hdirective) harguments]
  constructor
  · intro values hvalues
    exact hvalues.emit width
  · intro before argument after values cause hsplit hvalues hcause
    rw [hsplit]
    obtain ⟨hfails, hfills⟩ := hvalues.emit_append_cons width hcause after
    exact ⟨hfails, _, (Scope.length_labels_evaluate argument).1, hfills⟩

/-- A line of half words stops at its fourth argument, which has consulted a label by then,
and a line of words goes through. Of the values, one is negative and one too long. -/
theorem execute_data_layout_halfway :
    let s : Session :=
      { base := 256, constants := [("K", -3)], symbols := [{ name := "L", offset := 4 }]
        bytes := #[7, 7, 7], relocations := #[0] }
    let front : List Text := ["-2", "L - L * K", "0x12345"]
    let halves : Statement :=
      { directive := "hword", arguments := front ++ [("L + M" : Text), "1"] }
    let words : Statement := { directive := "int", arguments := ["L + L", "-1"] }
    (halves.directive ∈ Width.half.directives ∧ halves.arguments ≠ [] ∧
        s.HaveValues front [-2, 0, 0x12345] ∧ (s.execute halves).2 = some (.notAValue "M") ∧
        ∃ count ≤ 1,
          s.Fills .half [-2, 0, 0x12345] ([0, 2, 0] ++ [count]) (s.execute halves).1) ∧
      words.directive ∈ Width.word.directives ∧ words.arguments ≠ [] ∧
        s.HaveValues words.arguments [520, -1] ∧ (s.execute words).2 = none ∧
        s.Fills .word [520, -1] [2, 0] (s.execute words).1 := by
  intro s front halves words
  have hhalf : halves.directive ∈ Width.half.directives := by decide
  have hword : words.directive ∈ Width.word.directives := by decide
  have hfront : s.HaveValues front [-2, 0, 0x12345] :=
    .cons (by decide +kernel) (.cons (by decide +kernel) (.cons (by decide +kernel) .nil))
  have hall : s.HaveValues words.arguments [520, -1] :=
    .cons (by decide +kernel) (.cons (by decide +kernel) .nil)
  have hcounts : front.map s.scope.labelOperands = [0, 2, 0] := by decide +kernel
  have hcount : s.scope.labelOperands "L + M" = 1 := by decide +kernel
  have hcounts' : words.arguments.map s.scope.labelOperands = [2, 0] := by decide +kernel
  have hstops := (execute_data_layout s halves .half hhalf (by decide)).2 front "L + M" ["1"] _
    (.notAValue "M") rfl hfront (by decide +kernel)
  have hgoes := (execute_data_layout s words .word hword (by decide)).1 _ hall
  rw [hcounts, hcount] at hstops
  rw [hcounts'] at hgoes
  exact ⟨⟨hhalf, by decide, hfront, hstops⟩, hword, by decide, hall, hgoes⟩

end Session

end FlatAssembler
