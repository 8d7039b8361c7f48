import FlatAssembler.Proofs.Word
import FlatAssembler.Session.Rebase

/-!
# What a move to another base does

A move goes through the recorded slots one by one, so its effect is read off the
list of slots: bytes in no recorded window stay, and a word whose slot stands in
the list so many times grows by so many times the distance of the two bases, as
long as no other recorded slot overlaps it. `Moved` collects this for a whole
session.
-/

namespace FlatAssembler.Session

open LittleEndian

/-! ### One slot -/

@[simp] theorem size_moveSlot (old new : UInt32) (bytes : Array UInt8) (slot : UInt32) :
    (moveSlot old new bytes slot).size = bytes.size :=
  size_setWord ..

theorem getElem?_moveSlot_of_outside (old new : UInt32) (bytes : Array UInt8)
    {slot : UInt32} {i : Nat} (h : ¬(slot.toNat ≤ i ∧ i < slot.toNat + 4)) :
    (moveSlot old new bytes slot)[i]? = bytes[i]? :=
  getElem?_setWord_of_outside _ h

theorem wordAt_moveSlot_self (old new : UInt32) {bytes : Array UInt8} {slot : UInt32}
    (h : slot.toNat + 4 ≤ bytes.size) :
    wordAt (moveSlot old new bytes slot) slot.toNat =
      wordAt bytes slot.toNat + (new - old) := by
  rw [moveSlot, wordAt_setWord_self _ h]
  grind

theorem wordAt_moveSlot_of_apart (old new : UInt32) (bytes : Array UInt8)
    {slot : UInt32} {i : Nat} (h : Apart slot.toNat i) :
    wordAt (moveSlot old new bytes slot) i = wordAt bytes i :=
  wordAt_setWord_of_apart _ h

/-! ### A list of slots -/

@[simp] theorem size_foldl_moveSlot (old new : UInt32) (bytes : Array UInt8)
    (slots : List UInt32) :
    (slots.foldl (moveSlot old new) bytes).size = bytes.size := by
  induction slots generalizing bytes with
  | nil => rfl
  | cons slot slots ih => rw [List.foldl_cons, ih, size_moveSlot]

theorem getElem?_foldl_moveSlot (old new : UInt32) (bytes : Array UInt8)
    {slots : List UInt32} {i : Nat}
    (h : ∀ slot ∈ slots, ¬(slot.toNat ≤ i ∧ i < slot.toNat + 4)) :
    (slots.foldl (moveSlot old new) bytes)[i]? = bytes[i]? := by
  induction slots generalizing bytes with
  | nil => rfl
  | cons slot slots ih =>
      rw [List.foldl_cons, ih _ fun r hr => h r (List.mem_cons_of_mem _ hr)]
      exact getElem?_moveSlot_of_outside old new bytes (h slot List.mem_cons_self)

theorem wordAt_foldl_moveSlot (old new : UInt32) {bytes : Array UInt8}
    {slots : List UInt32} {slot : UInt32} (hslot : slot.toNat + 4 ≤ bytes.size)
    (h : ∀ r ∈ slots, r = slot ∨ Apart r.toNat slot.toNat) :
    wordAt (slots.foldl (moveSlot old new) bytes) slot.toNat =
      wordAt bytes slot.toNat + UInt32.ofNat (slots.count slot) * (new - old) := by
  induction slots generalizing bytes with
  | nil => simp
  | cons r slots ih =>
      have htail : ∀ r ∈ slots, r = slot ∨ Apart r.toNat slot.toNat :=
        fun r hr => h r (List.mem_cons_of_mem _ hr)
      have hsize : slot.toNat + 4 ≤ (moveSlot old new bytes r).size := by
        rw [size_moveSlot]
        exact hslot
      rw [List.foldl_cons, ih hsize htail]
      rcases h r List.mem_cons_self with rfl | hapart
      · rw [wordAt_moveSlot_self old new hslot, List.count_cons_self, UInt32.ofNat_add]
        grind
      · have hne : r ≠ slot := by
          rintro rfl
          rcases hapart with hlt | hlt <;> omega
        rw [wordAt_moveSlot_of_apart old new bytes hapart, List.count_cons_of_ne hne]

/-! ### The whole output -/

/-- The session `t` is `s` with its output moved to the base `base`. -/
structure Moved (s : Session) (base : UInt32) (t : Session) : Prop where
  /-- Only the base and the output differ. -/
  eq_with : t = { s with base, bytes := t.bytes }
  size_eq : t.bytes.size = s.bytes.size
  outside : ∀ i, (∀ slot ∈ s.relocations, ¬(slot.toNat ≤ i ∧ i < slot.toNat + 4)) →
    t.bytes[i]? = s.bytes[i]?
  word : ∀ slot : UInt32, slot.toNat + 4 ≤ s.bytes.size →
    (∀ r ∈ s.relocations, r = slot ∨ Apart r.toNat slot.toNat) →
    wordAt t.bytes slot.toNat =
      wordAt s.bytes slot.toNat + UInt32.ofNat (s.relocations.count slot) * (base - s.base)

theorem Moved.refl (s : Session) : Moved s s.base s where
  eq_with := rfl
  size_eq := rfl
  outside _ _ := rfl
  word slot _ _ := by grind

theorem moved_of_rebase {s t : Session} {base : UInt32} (h : s.rebase base = .ok t) :
    Moved s base t := by
  rw [rebase] at h
  split at h
  · rename_i hbase
    cases h
    rw [hbase]
    exact Moved.refl s
  · split at h
    · cases h
    · cases h
      refine ⟨rfl, size_foldl_moveSlot .., ?_, ?_⟩
      · intro i hi
        apply getElem?_foldl_moveSlot
        intro slot hslot
        exact hi slot (Array.mem_toList_iff.mp hslot)
      · intro slot hslot hapart
        rw [← Array.count_toList]
        apply wordAt_foldl_moveSlot s.base base hslot
        intro r hr
        exact hapart r (Array.mem_toList_iff.mp hr)

/-- A move that fails has moved nothing. -/
theorem session_of_rebase_eq_error {s : Session} {base : UInt32} {e : FailedMove}
    (h : s.rebase base = .error e) : e.session = s := by
  rw [rebase] at h
  split at h
  · cases h
  · split at h
    · cases h
      rfl
    · cases h

/-- A move succeeds as soon as every recorded slot has its four bytes. -/
theorem exists_rebase_eq_ok {s : Session} (base : UInt32)
    (h : ∀ slot ∈ s.relocations, slot.toNat + 4 ≤ s.bytes.size) :
    ∃ t, s.rebase base = .ok t := by
  by_cases hbase : base = s.base
  · exact ⟨s, by rw [rebase, if_pos hbase]⟩
  · have hfind : s.relocations.toList.find? (fun slot => s.bytes.size < slot.toNat + 4) =
        none := by
      rw [List.find?_eq_none]
      intro slot hslot
      have hrange := h slot (Array.mem_toList_iff.mp hslot)
      simp only [decide_eq_true_eq]
      omega
    exact ⟨_, by rw [rebase, if_neg hbase, hfind]⟩

end FlatAssembler.Session
