import FlatAssembler.Proofs.Line

/-!
# The slots of a data line

A data line that has values for all its arguments fills one slot after the
other, and this is all that it does: `Scope.slots` lists the slots with the
labels that each value consulted, and `fill_eq_of_none` reads the new output,
the new relocation entries and the new warnings off this list. The slots of a
line lie side by side, without a gap (`Tiles`), which is what keeps the words of
different slots apart.
-/

namespace FlatAssembler

/-- A slot of the output that an argument has filled. -/
structure Slot where
  offset : Nat
  width : Width
  /-- The labels that were consulted for the value. -/
  labels : List Text
  value : Int64
  deriving DecidableEq, Repr

theorem Width.size_pos (width : Width) : 0 < width.size := by
  cases width <;> decide

namespace Slot

/-- The bytes that are put out. -/
def bytes (slot : Slot) : List UInt8 :=
  LittleEndian.encode slot.width.size slot.value.toUInt64.toNat

/-- The relocation entries of the slot as a word, one for each label. -/
def wordEntries (slot : Slot) : List UInt32 :=
  if slot.width = .word then
    List.replicate slot.labels.length (UInt32.ofNat slot.offset)
  else []

/-- The slots lie side by side from `start` to `stop`. -/
def Tiles : Nat → List Slot → Nat → Prop
  | start, [], stop => start = stop
  | start, slot :: rest, stop =>
      slot.offset = start ∧ Tiles (start + slot.width.size) rest stop

theorem Tiles.append {start middle stop : Nat} {slots more : List Slot}
    (h : Tiles start slots middle) (hmore : Tiles middle more stop) :
    Tiles start (slots ++ more) stop := by
  induction slots generalizing start with
  | nil =>
      have hstart : start = middle := h
      rw [hstart]
      exact hmore
  | cons slot rest ih => exact ⟨h.1, ih h.2⟩

theorem Tiles.le {start stop : Nat} {slots : List Slot} (h : Tiles start slots stop) :
    start ≤ stop := by
  induction slots generalizing start with
  | nil => exact Nat.le_of_eq h
  | cons slot rest ih => exact Nat.le_trans (Nat.le_add_right ..) (ih h.2)

theorem Tiles.bounds {start stop : Nat} {slots : List Slot} (h : Tiles start slots stop)
    {slot : Slot} (hslot : slot ∈ slots) :
    start ≤ slot.offset ∧ slot.offset + slot.width.size ≤ stop := by
  induction slots generalizing start with
  | nil => cases hslot
  | cons first rest ih =>
      obtain ⟨hfirst, hrest⟩ := h
      rcases List.mem_cons.mp hslot with rfl | hmem
      · exact ⟨Nat.le_of_eq hfirst.symm, hfirst ▸ hrest.le⟩
      · obtain ⟨hle, hend⟩ := ih hrest hmem
        exact ⟨Nat.le_trans (Nat.le_add_right ..) hle, hend⟩

/-- Slots that lie side by side come in the order of their offsets. -/
theorem Tiles.pairwise {start stop : Nat} {slots : List Slot} (h : Tiles start slots stop) :
    slots.Pairwise fun a b => a.offset + a.width.size ≤ b.offset := by
  induction slots generalizing start with
  | nil => exact List.Pairwise.nil
  | cons slot rest ih =>
      obtain ⟨hslot, hrest⟩ := h
      refine List.Pairwise.cons ?_ (ih hrest)
      intro other hother
      rw [hslot]
      exact (hrest.bounds hother).1

theorem Tiles.eq_or_before_or_after {start stop : Nat} {slots : List Slot}
    (h : Tiles start slots stop) {a b : Slot} (ha : a ∈ slots) (hb : b ∈ slots) :
    a = b ∨ a.offset + a.width.size ≤ b.offset ∨ b.offset + b.width.size ≤ a.offset := by
  have hpairs := h.pairwise
  refine List.Pairwise.forall_of_forall_of_flip
    (R := fun a b => a = b ∨ a.offset + a.width.size ≤ b.offset ∨
      b.offset + b.width.size ≤ a.offset) ?_ (hpairs.imp ?_) (hpairs.imp ?_) ha hb
  · intro x _
    exact Or.inl rfl
  · intro x y hxy
    exact Or.inr (Or.inl hxy)
  · intro x y hxy
    exact Or.inr (Or.inr hxy)

end Slot

/-- The slots that arguments fill from an offset on, up to an argument without a
value. -/
def Scope.slots (scope : Scope) (width : Width) : Nat → List Text → List Slot
  | _, [] => []
  | offset, argument :: rest =>
      match (scope.evaluate argument).value with
      | .error _ => []
      | .ok value =>
          { offset, width, labels := (scope.evaluate argument).labels, value } ::
            scope.slots width (offset + width.size) rest

theorem Scope.slots_cons_of_ok {scope : Scope} {width : Width} {offset : Nat} {argument : Text}
    {rest : List Text} {value : Int64} (h : (scope.evaluate argument).value = .ok value) :
    scope.slots width offset (argument :: rest) =
      { offset, width, labels := (scope.evaluate argument).labels, value } ::
        scope.slots width (offset + width.size) rest := by
  rw [Scope.slots, h]

namespace Session

theorem appendList_append {α : Type} (xs : Array α) (l m : List α) :
    xs ++ l ++ m = xs ++ (l ++ m) := by
  apply Array.ext'
  simp

/-! ### Filling slots -/

/-- The warnings of a slot that is filled at `site`. -/
def slotCautions (strict : Bool) (site : Site) (slot : Slot) : List Warning :=
  if slot.width = .word ∨ strict = true then []
  else slot.labels.map fun label => { site, label, slot := some slot.width }

/-- The relocation entries of a slot. -/
def slotEntries (strict : Bool) (slot : Slot) : List UInt32 :=
  if slot.width = .word ∨ strict = false then
    List.replicate slot.labels.length (UInt32.ofNat slot.offset)
  else []

/-- A data line whose arguments all have values puts out its slots, with their
relocation entries and warnings, and changes nothing else. -/
theorem fill_eq_of_none {s : Session} {width : Width} {arguments : List Text}
    (hslot : s.slot = some width) (h : (s.fill width arguments).2 = none) :
    (s.fill width arguments).1 =
      { s with
        bytes := s.bytes ++
          (s.scope.slots width s.bytes.size arguments).flatMap Slot.bytes
        relocations := s.relocations ++
          (s.scope.slots width s.bytes.size arguments).flatMap (slotEntries s.strict)
        warnings := s.warnings ++
          (s.scope.slots width s.bytes.size arguments).flatMap
            (slotCautions s.strict s.site) } := by
  induction arguments generalizing s with
  | nil => simp [fill, Scope.slots]
  | cons argument rest ih =>
      obtain ⟨value, hvalue⟩ := exists_value_of_fill h
      rw [fill_cons_of_ok hvalue] at h ⊢
      have hslot' : ((s.record (s.scope.evaluate argument).labels).append width value).slot =
          some width := by
        rw [record_eq]
        exact hslot
      rw [ih hslot' h, Scope.slots_cons_of_ok hvalue, size_append, bytes_record,
        scope_append, scope_record, record_eq]
      simp only [append, List.flatMap_cons, appendList_append, Slot.bytes, entries, cautions,
        slotEntries, slotCautions, hslot, cursor, Option.some.injEq]

theorem tiles_slots {s : Session} {width : Width} {arguments : List Text}
    (h : (s.fill width arguments).2 = none) :
    Slot.Tiles s.bytes.size (s.scope.slots width s.bytes.size arguments)
      (s.fill width arguments).1.bytes.size := by
  induction arguments generalizing s with
  | nil => rfl
  | cons argument rest ih =>
      obtain ⟨value, hvalue⟩ := exists_value_of_fill h
      rw [fill_cons_of_ok hvalue] at h ⊢
      rw [Scope.slots_cons_of_ok hvalue]
      have hrest := ih h
      rw [scope_append, scope_record, size_append, bytes_record] at hrest
      exact ⟨rfl, hrest⟩

end Session

end FlatAssembler
