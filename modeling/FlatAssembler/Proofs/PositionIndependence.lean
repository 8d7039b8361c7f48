import FlatAssembler.Proofs.RelocationList

/-!
# Words that do not depend on the base

Relocation entries are made for each label that is consulted, not for how a value
depends on the base. A word that reads the same at two bases, such as the
difference of two labels, is therefore moved all the same, once for each of its
labels. `extract_rebase_eq_iff` says when such a word survives a move: the number
of its labels times the distance of the bases has to vanish in 32 bits, as it
does for every word without a label. `not_forall_extract_rebase_eq` shows that it
need not.
-/

namespace FlatAssembler.Session

open LittleEndian

/-- A word of a strict session, moved to another base, has grown by the distance
of the bases for each label that it consulted. -/
theorem wordAt_rebase {s t u : Session} {slots : List Slot} {base : UInt32}
    (hs : s.relocations = #[]) (h : Records s slots t)
    (hsize : t.bytes.size < UInt32.size) (hu : t.rebase base = .ok u) {slot : Slot}
    (hslot : slot ∈ slots) (hword : slot.width = .word) :
    wordAt u.bytes slot.offset =
      wordAt t.bytes slot.offset + UInt32.ofNat slot.labels.length * (base - t.base) := by
  have hoffset := Slot.toNat_offset h.tiles hsize hslot
  have hend := (h.tiles.bounds hslot).2
  rw [hword] at hend
  have hmoved := (moved_of_rebase hu).word (UInt32.ofNat slot.offset) (by rw [hoffset]; exact hend)
  rw [hoffset, ← Array.count_toList, h.toList_relocations hs,
    Slot.count_wordEntries h.tiles hsize hslot hword] at hmoved
  apply hmoved
  intro entry hentry
  obtain ⟨other, hother, hlabel, heq, -⟩ := h.exists_labelWord hs hsize hentry
  rcases h.tiles.eq_or_before_or_after hslot hother with rfl | hbefore | hafter
  · rw [heq, UInt32.ofNat_toNat]
    exact Or.inl rfl
  · rw [hword, heq] at hbefore
    exact Or.inr (Or.inr hbefore)
  · rw [hlabel.1, heq] at hafter
    exact Or.inr (Or.inl hafter)

theorem records_load_of_strict {s : Session} {fs : FileSystem} {operation : Operation}
    (hslot : s.slot = none) (hstrict : s.strict = true) (hwarnings : s.warnings = #[])
    (hload : operation.isLoad = true) (h : Succeeds fs s operation) :
    Records s (slotsOf (s.moments (operation.events fs s))) (s.operate fs operation).1 := by
  apply records_operate hslot h
  rw [(s.operate_of_isLoad fs hload).1]
  exact (warnings_run hstrict _).trans hwarnings

/-- Take a source that loads in a strict session at `b₁`, and a word that reads
the same there as at `b₂`. After a move from `b₁` to `b₂` it reads the same still
if and only if its labels, each counted with the distance of the bases, add up to
zero. -/
theorem extract_rebase_eq_iff (fs : FileSystem) (constants : Constants) (b₁ b₂ : UInt32)
    (operation : Operation) (hload : operation.isLoad = true)
    (h : Succeeds fs { base := b₁, constants, strict := true } operation)
    (hsize : (({ base := b₁, constants, strict := true } : Session).operate fs
      operation).1.bytes.size < UInt32.size) :
    let s : Session := { base := b₁, constants, strict := true }
    let s₁ := (s.operate fs operation).1
    let s₂ := ({ s with base := b₂ }.operate fs operation).1
    ∃ t, s₁.rebase b₂ = .ok t ∧
      ∀ slot ∈ slotsOf (s.moments (operation.events fs s)), slot.width = .word →
        s₁.bytes.extract slot.offset (slot.offset + 4) =
          s₂.bytes.extract slot.offset (slot.offset + 4) →
        (t.bytes.extract slot.offset (slot.offset + 4) =
            s₂.bytes.extract slot.offset (slot.offset + 4) ↔
          UInt32.ofNat slot.labels.length * (b₂ - b₁) = 0) := by
  intro s s₁ s₂
  have hrecords : Records s _ s₁ := records_load_of_strict rfl rfl rfl hload h
  have hbase : s₁.base = b₁ := by
    rw [base_operate h]
    cases operation with
    | load _ => rfl
    | loadSource _ _ => rfl
    | rebase _ => cases hload
    | setStrict _ => cases hload
    | setListed _ => cases hload
  obtain ⟨t, ht⟩ := hrecords.exists_rebase_eq_ok rfl hsize b₂
  refine ⟨t, ht, ?_⟩
  intro slot hslot hword heq
  have hend := (hrecords.tiles.bounds hslot).2
  rw [hword] at hend
  have hend' : slot.offset + 4 ≤ t.bytes.size := by
    rw [(moved_of_rebase ht).size_eq]
    exact hend
  rw [← heq, ← wordAt_eq_iff hend' hend, wordAt_rebase rfl hrecords hsize ht hslot hword,
    hbase, UInt32.add_eq_left]

/-- The difference of two labels survives a move by half the address space. -/
theorem extract_rebase_eq_iff_difference :
    ∃ t, (({ strict := true } : Session).operate {}
        (.loadSource "m.s" "A: .word 0\nB: .word B-A")).1.rebase 0x80000000 = .ok t ∧
      t.bytes.extract 4 8 = #[4, 0, 0, 0] := by
  obtain ⟨t, ht, hword⟩ := extract_rebase_eq_iff {} [] 0 0x80000000
    (.loadSource "m.s" "A: .word 0\nB: .word B-A") rfl (by decide +kernel) (by decide +kernel)
  refine ⟨t, ht, ?_⟩
  rw [(hword ⟨4, .word, ["B", "A"], 4⟩ (by decide +kernel) rfl (by decide +kernel)).mpr
    (by decide)]
  decide +kernel

/-- It does not survive a move by 4096: `B-A` reads 4 at 0 and at 4096, but 8196
after the move. -/
theorem not_forall_extract_rebase_eq :
    ¬∀ (fs : FileSystem) (constants : Constants) (b₁ b₂ : UInt32) (operation : Operation),
      operation.isLoad = true →
      Succeeds fs { base := b₁, constants, strict := true } operation →
      Succeeds fs { base := b₂, constants, strict := true } operation →
      let s : Session := { base := b₁, constants, strict := true }
      let s₁ := (s.operate fs operation).1
      let s₂ := ({ s with base := b₂ }.operate fs operation).1
      ∀ slot ∈ slotsOf (s.moments (operation.events fs s)), slot.width = .word →
        s₁.bytes.extract slot.offset (slot.offset + 4) =
          s₂.bytes.extract slot.offset (slot.offset + 4) →
        ∃ t, s₁.rebase b₂ = .ok t ∧
          t.bytes.extract slot.offset (slot.offset + 4) =
            s₂.bytes.extract slot.offset (slot.offset + 4) := by
  intro h
  obtain ⟨t, ht, hword⟩ := h {} [] 0 4096 (.loadSource "m.s" "A: .word 0\nB: .word B-A") rfl
    (by decide +kernel) (by decide +kernel) ⟨4, .word, ["B", "A"], 4⟩ (by decide +kernel) rfl
    (by decide +kernel)
  have hmoved : (({ strict := true } : Session).operateAll {}
      [.loadSource "m.s" "A: .word 0\nB: .word B-A", .rebase 4096]).bytes.extract 4 8 =
      #[4, 32, 0, 0] := by decide +kernel
  rw [operateAll_cons, operateAll_cons, operate_rebase_of_ok ht] at hmoved
  rw [show t.bytes.extract 4 8 = _ from hmoved] at hword
  revert hword
  decide +kernel

end FlatAssembler.Session
