import FlatAssembler.Proofs.History

/-!
# The exact effect of a move

`Moved` says what a successful move does to a session. Here is the other half: a move
fails only when it is a real one and some recorded slot misses a part of its four bytes,
and then it has changed nothing. `rebase_effect` puts the two together.

Entries may repeat. As long as different ones are four bytes apart, no word is touched
on behalf of another one, and each grows by the distance of the bases once for each of
its entries.
-/

namespace FlatAssembler.Session

open LittleEndian

/-- A move fails if the base changes and a recorded slot reaches beyond the output; the
first such slot is named. -/
theorem rebase_eq_error_iff {s : Session} {base : UInt32} {e : FailedMove} :
    s.rebase base = .error e ↔
      base ≠ s.base ∧
        s.relocations.toList.find? (fun slot => s.bytes.size < slot.toNat + 4) = some e.slot ∧
        e.size = s.bytes.size ∧ e.session = s := by
  rw [rebase]
  by_cases hbase : base = s.base
  · simp [hbase]
  · rw [if_neg hbase]
    cases s.relocations.toList.find? (fun slot => s.bytes.size < slot.toNat + 4) with
    | none => simp
    | some slot =>
        obtain ⟨⟨slot', size⟩, left⟩ := e
        simp [hbase, eq_comm, and_assoc]

theorem exists_rebase_eq_error_iff {s : Session} {base : UInt32} :
    (∃ e, s.rebase base = .error e) ↔
      base ≠ s.base ∧ ∃ slot ∈ s.relocations, s.bytes.size < slot.toNat + 4 := by
  have hfind : (∃ slot ∈ s.relocations, s.bytes.size < slot.toNat + 4) ↔
      (s.relocations.toList.find? fun slot => s.bytes.size < slot.toNat + 4).isSome = true := by
    simp
  rw [hfind, Option.isSome_iff_exists]
  constructor
  · rintro ⟨e, he⟩
    obtain ⟨hbase, hslot, -⟩ := rebase_eq_error_iff.mp he
    exact ⟨hbase, e.slot, hslot⟩
  · rintro ⟨hbase, slot, hslot⟩
    exact ⟨⟨⟨slot, s.bytes.size⟩, s⟩, rebase_eq_error_iff.mpr ⟨hbase, hslot, rfl, rfl⟩⟩

theorem operate_rebase_of_error {s : Session} {base : UInt32} {e : FailedMove}
    (h : s.rebase base = .error e) (fs : FileSystem) :
    s.operate fs (.rebase base) = (s, false) := by
  rw [operate, h]
  simp only [session_of_rebase_eq_error h]

/-- A move to another base that succeeds has found the four bytes of each slot. -/
theorem le_size_of_rebase {s t : Session} {base : UInt32} (h : s.rebase base = .ok t)
    (hbase : base ≠ s.base) {slot : UInt32} (hslot : slot ∈ s.relocations) :
    slot.toNat + 4 ≤ s.bytes.size := by
  rcases Nat.lt_or_ge s.bytes.size (slot.toNat + 4) with hlt | hle
  · obtain ⟨e, he⟩ := exists_rebase_eq_error_iff.mpr ⟨hbase, slot, hslot, hlt⟩
    rw [h] at he
    cases he
  · exact hle

/-- Among entries that coincide or are four bytes apart, any two do. -/
theorem eq_or_apart_of_pairwise {slots : List UInt32}
    (h : slots.Pairwise fun a b => a = b ∨ Apart a.toNat b.toNat) {a b : UInt32}
    (ha : a ∈ slots) (hb : b ∈ slots) : a = b ∨ Apart a.toNat b.toNat := by
  refine List.Pairwise.forall_of_forall_of_flip ?_ h (h.imp ?_) ha hb
  · intro x _
    exact Or.inl rfl
  · intro x y hxy
    exact hxy.imp Eq.symm Apart.symm

/-- The words of entries that do not overlap grow by the distance of the bases, once for
each entry. Where the base stays the same, entries may lie beyond the output. -/
theorem wordAt_of_rebase {s t : Session} {base : UInt32} (h : s.rebase base = .ok t)
    (hapart : s.relocations.toList.Pairwise fun a b => a = b ∨ Apart a.toNat b.toNat)
    {slot : UInt32} (hslot : slot ∈ s.relocations) :
    wordAt t.bytes slot.toNat =
      wordAt s.bytes slot.toNat + UInt32.ofNat (s.relocations.count slot) * (base - s.base) := by
  by_cases hbase : base = s.base
  · rw [rebase, if_pos hbase] at h
    cases h
    grind
  · apply (moved_of_rebase h).word slot (le_size_of_rebase h hbase hslot)
    intro r hr
    exact eq_or_apart_of_pairwise hapart (Array.mem_toList_iff.mpr hr)
      (Array.mem_toList_iff.mpr hslot)

/-- A move fails if and only if the base is to change and a recorded slot reaches beyond
the output, and then the session that it leaves is the one before. Otherwise the base
becomes the new one, the output keeps its size and every byte outside of the recorded
windows, and nothing else changes; and where recorded offsets are equal or at least four
apart, the word at an offset that is recorded `m` times grows by `m` times the distance of
the bases. -/
theorem rebase_effect (s : Session) (fs : FileSystem) (base : UInt32) :
    ((∃ e, s.rebase base = .error e) ↔
        base ≠ s.base ∧ ∃ slot ∈ s.relocations, s.bytes.size < slot.toNat + 4) ∧
      (∀ e, s.rebase base = .error e →
        e.session = s ∧ s.operate fs (.rebase base) = (s, false)) ∧
      ∀ t, s.rebase base = .ok t →
        s.operate fs (.rebase base) = (t, true) ∧
        t = { s with base, bytes := t.bytes } ∧
        t.bytes.size = s.bytes.size ∧
        (∀ i, (∀ slot ∈ s.relocations, ¬(slot.toNat ≤ i ∧ i < slot.toNat + 4)) →
          t.bytes[i]? = s.bytes[i]?) ∧
        ((s.relocations.toList.Pairwise fun a b => a = b ∨ Apart a.toNat b.toNat) →
          ∀ slot ∈ s.relocations,
            wordAt t.bytes slot.toNat = wordAt s.bytes slot.toNat +
              UInt32.ofNat (s.relocations.count slot) * (base - s.base)) := by
  refine ⟨exists_rebase_eq_error_iff, ?_, ?_⟩
  · intro e he
    exact ⟨session_of_rebase_eq_error he, operate_rebase_of_error he fs⟩
  · intro t ht
    have hmoved := moved_of_rebase ht
    refine ⟨operate_rebase_of_ok ht fs, hmoved.eq_with, hmoved.size_eq, hmoved.outside, ?_⟩
    intro hapart slot hslot
    exact wordAt_of_rebase ht hapart hslot

/-- The distance goes round the end of 32 bits, twice for the second word, which has two
entries. -/
theorem rebase_effect_repeated :
    let s : Session :=
      { base := 2, bytes := #[1, 0, 0, 0, 7, 0, 0, 0, 9], relocations := #[4, 0, 4] }
    let t := (s.operate {} (.rebase 0)).1
    s.rebase 0 = .ok t ∧
      (s.relocations.toList.Pairwise fun a b => a = b ∨ Apart a.toNat b.toNat) ∧
      wordAt t.bytes 0 = wordAt s.bytes 0 + 1 * (0 - 2) ∧
      wordAt t.bytes 4 = wordAt s.bytes 4 + 2 * (0 - 2) := by
  intro s t
  have ht : s.rebase 0 = .ok t := rebase_of_operate (by decide +kernel)
  have hapart : s.relocations.toList.Pairwise fun a b => a = b ∨ Apart a.toNat b.toNat := by
    simp [s, Apart]
  obtain ⟨-, -, -, -, hword⟩ := (rebase_effect s {} 0).2.2 t ht
  have hfirst := hword hapart 0 (by decide +kernel)
  have hsecond := hword hapart 4 (by decide +kernel)
  have hcounts : s.relocations.count 0 = 1 ∧ s.relocations.count 4 = 2 := by decide +kernel
  rw [hcounts.1] at hfirst
  rw [hcounts.2] at hsecond
  exact ⟨ht, hapart, hfirst, hsecond⟩

end FlatAssembler.Session
