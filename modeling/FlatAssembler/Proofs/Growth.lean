import FlatAssembler.Proofs.Compatible

/-!
# Nothing is taken back

Whatever source a session goes through, and however that ends, its output, its
relocation entries, its warnings, its statuses and its listing only become
longer, and its settings stay. `Grows` is this relation. Each elementary change of
a session respects it, so that it holds along every run.
-/

namespace FlatAssembler.Session

/-- The session `t` has all that `s` has put out, under the same settings. -/
structure Grows (s t : Session) : Prop where
  base : t.base = s.base
  strict : t.strict = s.strict
  listed : t.listed = s.listed
  bytes : s.bytes.toList <+: t.bytes.toList
  relocations : s.relocations.toList <+: t.relocations.toList
  warnings : s.warnings.toList <+: t.warnings.toList
  statuses : s.statuses.toList <+: t.statuses.toList
  listing : s.listing.toList <+: t.listing.toList

namespace Grows

theorem refl (s : Session) : Grows s s where
  base := rfl
  strict := rfl
  listed := rfl
  bytes := List.prefix_refl _
  relocations := List.prefix_refl _
  warnings := List.prefix_refl _
  statuses := List.prefix_refl _
  listing := List.prefix_refl _

/-- The tables, the place and the slot have no part in it. -/
theorem of_same {s t : Session}
    (h : t = { s with
      constants := t.constants, symbols := t.symbols, loaded := t.loaded, site := t.site,
      slot := t.slot }) : Grows s t := by
  rw [h]
  exact ⟨rfl, rfl, rfl, List.prefix_refl _, List.prefix_refl _, List.prefix_refl _,
    List.prefix_refl _, List.prefix_refl _⟩

theorem trans {s t u : Session} (h : Grows s t) (h' : Grows t u) : Grows s u where
  base := h'.base.trans h.base
  strict := h'.strict.trans h.strict
  listed := h'.listed.trans h.listed
  bytes := h.bytes.trans h'.bytes
  relocations := h.relocations.trans h'.relocations
  warnings := h.warnings.trans h'.warnings
  statuses := h.statuses.trans h'.statuses
  listing := h.listing.trans h'.listing

theorem size_le {s t : Session} (h : Grows s t) : s.bytes.size ≤ t.bytes.size :=
  h.bytes.length_le

theorem warnings_eq_empty {s t : Session} (h : Grows s t) (ht : t.warnings = #[]) :
    s.warnings = #[] := by
  have hprefix := h.warnings
  rw [ht] at hprefix
  exact Array.toList_eq_nil_iff.mp (List.prefix_nil.mp hprefix)

end Grows

/-! ### Runs -/

theorem grows_append_lists (s : Session) (bytes : List UInt8) (entries : List UInt32)
    (cautions : List Warning) :
    Grows s
      { s with
        bytes := s.bytes ++ bytes
        relocations := s.relocations ++ entries
        warnings := s.warnings ++ cautions } where
  base := rfl
  strict := rfl
  listed := rfl
  bytes := by simp
  relocations := by simp
  warnings := by simp
  statuses := List.prefix_refl _
  listing := List.prefix_refl _

theorem grows_record (s : Session) (labels : List Text) : Grows s (s.record labels) := by
  rw [record_eq]
  simpa using grows_append_lists s [] (s.entries labels) (s.cautions labels)

theorem grows_append (s : Session) (width : Width) (value : Int64) :
    Grows s (s.append width value) := by
  have h := grows_append_lists s
    (LittleEndian.encode width.size value.toUInt64.toNat) [] []
  rw [Array.appendList_nil, Array.appendList_nil] at h
  exact h

theorem grows_list (s : Session) (start : Nat) (source : Text) :
    Grows s (s.list start source) := by
  rw [list]
  split
  · exact ⟨rfl, rfl, rfl, List.prefix_refl _, List.prefix_refl _, List.prefix_refl _,
      List.prefix_refl _, by simp⟩
  · exact Grows.refl s

theorem grows_note (s : Session) (status : Status) : Grows s (s.note status) :=
  ⟨rfl, rfl, rfl, List.prefix_refl _, List.prefix_refl _, List.prefix_refl _,
    by simp [note], List.prefix_refl _⟩

theorem compatible_grows : Compatible Grows where
  refl := Grows.refl
  trans := Grows.trans
  record := grows_record
  append := grows_append
  slot := fun _ _ _ h => ((Grows.of_same rfl).trans h).trans (Grows.of_same rfl)
  constant := fun _ _ _ _ => Grows.of_same rfl
  publication := fun _ _ => Grows.of_same rfl
  label := fun _ _ => Grows.of_same rfl
  place := fun _ _ => Grows.of_same rfl
  list := grows_list
  mark := fun _ _ => Grows.of_same rfl
  note := grows_note

theorem grows_fill (s : Session) (width : Width) (arguments : List Text) :
    Grows s (s.fill width arguments).1 :=
  compatible_grows.fill s width arguments

theorem grows_run (s : Session) (events : List Event) : Grows s (s.run events).1 :=
  compatible_grows.run s events

end FlatAssembler.Session
