import FlatAssembler.Proofs.History

/-!
# What a load leaves in place

A load can fail anywhere, inside of any number of included files and between two
values of a line. What was there before it began is there all the same: `Grows`
speaks of everything that is put out one after the other, and `Keeps` of the
tables, whose entries may move but do not go away. Each elementary change of a
session respects both, so they hold from the beginning of a load to wherever it
ends.

The place in the source and the slot are the only parts of a session that lines
set and that have to be set back. `Continues` adds that they are.
-/

namespace FlatAssembler

namespace Constants

/-- Every constant has its value in the other table too. -/
def Persists (constants constants' : Constants) : Prop :=
  ∀ name value, constants.get? name = some value → constants'.get? name = some value

theorem Persists.refl (constants : Constants) : Persists constants constants :=
  fun _ _ h => h

theorem Persists.trans {a b c : Constants} (h : Persists a b) (h' : Persists b c) :
    Persists a c :=
  fun name value ha => h' name value (h name value ha)

theorem persists_add (constants : Constants) (name : Text) (value : Int64) :
    Persists constants (constants.add name value) := by
  intro other v h
  simp [get?_add, h]

end Constants

namespace SymbolTable

/-- Every symbol is in the other table too, where its offset may be another one,
and is exported there if it is exported here. -/
def Persists (table table' : SymbolTable) : Prop :=
  ∀ name symbol, table.find name = some symbol →
    ∃ symbol', table'.find name = some symbol' ∧
      (symbol.exported = true → symbol'.exported = true)

theorem Persists.refl (table : SymbolTable) : Persists table table :=
  fun _ symbol h => ⟨symbol, h, id⟩

theorem Persists.trans {a b c : SymbolTable} (h : Persists a b) (h' : Persists b c) :
    Persists a c := by
  intro name symbol ha
  obtain ⟨symbol', hb, hexported⟩ := h name symbol ha
  obtain ⟨symbol'', hc, hexported'⟩ := h' name symbol' hb
  exact ⟨symbol'', hc, fun hsymbol => hexported' (hexported hsymbol)⟩

theorem persists_update (table : SymbolTable) (name : Text) {change : Symbol → Symbol}
    (hname : ∀ s, (change s).name = s.name)
    (hexported : ∀ s, s.exported = true → (change s).exported = true) :
    Persists table (update name change table) := by
  intro other symbol h
  by_cases hother : other = name
  · subst hother
    rw [find_update_self table other change hname, h]
    exact ⟨_, rfl, hexported symbol⟩
  · rw [find_update_of_ne table change hname hother]
    exact ⟨symbol, h, id⟩

theorem persists_define (table : SymbolTable) (name : Text) (offset : UInt32) :
    Persists table (table.define name offset) :=
  table.persists_update name (fun _ => rfl) fun _ h => h

theorem persists_publish (table : SymbolTable) (name : Text) :
    Persists table (table.publish name) :=
  table.persists_update name (fun _ => rfl) fun _ _ => rfl

end SymbolTable

namespace Session

/-- The session `t` has every entry of the tables of `s`, and is outside of a slot
if `s` is. -/
structure Keeps (s t : Session) : Prop where
  constants : s.constants.Persists t.constants
  symbols : s.symbols.Persists t.symbols
  loaded : s.loaded <+: t.loaded
  slot : s.slot = none → t.slot = none

theorem Keeps.of_same {s t : Session} (hconstants : t.constants = s.constants)
    (hsymbols : t.symbols = s.symbols) (hloaded : t.loaded = s.loaded)
    (hslot : s.slot = none → t.slot = none) : Keeps s t where
  constants := hconstants ▸ Constants.Persists.refl _
  symbols := hsymbols ▸ SymbolTable.Persists.refl _
  loaded := hloaded ▸ List.prefix_refl _
  slot := hslot

theorem Keeps.refl (s : Session) : Keeps s s :=
  Keeps.of_same rfl rfl rfl id

theorem Keeps.trans {s t u : Session} (h : Keeps s t) (h' : Keeps t u) : Keeps s u where
  constants := h.constants.trans h'.constants
  symbols := h.symbols.trans h'.symbols
  loaded := h.loaded.trans h'.loaded
  slot := fun hs => h'.slot (h.slot hs)

theorem keeps_record (s : Session) (labels : List Text) : Keeps s (s.record labels) := by
  rw [record_eq]
  exact Keeps.of_same rfl rfl rfl id

theorem keeps_list (s : Session) (start : Nat) (source : Text) :
    Keeps s (s.list start source) := by
  rw [list]
  split
  · exact Keeps.of_same rfl rfl rfl id
  · exact Keeps.refl s

theorem compatible_keeps : Compatible Keeps where
  refl := Keeps.refl
  trans := Keeps.trans
  record := keeps_record
  append := fun _ _ _ => Keeps.of_same rfl rfl rfl id
  -- The slot is set back whether or not all arguments had a value.
  slot := fun _ _ _ h => ⟨h.constants, h.symbols, h.loaded, fun _ => rfl⟩
  constant := fun s name value _ =>
    ⟨s.constants.persists_add name value, .refl _, List.prefix_refl _, id⟩
  publication := fun s name =>
    ⟨.refl _, s.symbols.persists_publish name, List.prefix_refl _, id⟩
  label := fun s name =>
    ⟨.refl _, s.symbols.persists_define name s.cursor, List.prefix_refl _, id⟩
  place := fun _ _ => Keeps.of_same rfl rfl rfl id
  list := keeps_list
  mark := fun _ _ => ⟨.refl _, .refl _, List.prefix_append _ _, id⟩
  note := fun _ _ => Keeps.of_same rfl rfl rfl id

/-! ### Loads -/

/-- The session `t` goes on from `s`: it has all that `s` has, and stands where
`s` stands. -/
structure Continues (s t : Session) : Prop extends Grows s t, Keeps s t where
  site : t.site = s.site
  sameSlot : t.slot = s.slot

theorem continues_perform {s : Session} (hslot : s.slot = none) (path : Text)
    (events : List Event) : Continues s (s.perform path events).1 := by
  rw [(s.perform_eq path events).1]
  have hgrows := s.grows_run events
  have hkeeps := compatible_keeps.run s events
  exact
    { toGrows := hgrows.trans (Grows.of_same rfl)
      toKeeps := hkeeps.trans (Keeps.of_same rfl rfl rfl id)
      site := rfl
      sameSlot := (hkeeps.slot hslot).trans hslot.symm }

/-- A load from a session that is outside of a line only adds to it, and leaves it
where it stood, whether the load succeeds or fails. -/
theorem continues_load (s : Session) (fs : FileSystem) (hslot : s.slot = none) :
    (∀ path, Continues s (s.load fs path).1) ∧
      ∀ name source, Continues s (s.loadSource fs name source).1 := by
  constructor
  · intro path
    exact continues_perform hslot path _
  · intro name source
    exact continues_perform hslot name _

/-- A load that fails on the second value of a line, two files deep, in a session
that has an exported symbol, a constant and a place of its own. -/
theorem continues_load_failing :
    let fs : FileSystem :=
      { files := [(["m.s"], "L:\n.include \"d/x.s\""), (["d", "x.s"], ".include \"y.s\""),
          (["d", "y.s"], "A: .byte A,?")] }
    let s : Session :=
      { constants := [("K", 3)], symbols := [⟨"A", 0, true⟩], loaded := ["o.s"],
        site := ⟨"o.s", 7⟩, bytes := #[9] }
    s.slot = none ∧
      ((s.load fs "m.s").1.bytes, (s.load fs "m.s").1.symbols, (s.load fs "m.s").2.isOk) =
        (#[9, 1], [⟨"A", 1, true⟩, ⟨"L", 1, false⟩], false) ∧
      Continues s (s.load fs "m.s").1 :=
  ⟨rfl, by decide +kernel, (continues_load _ _ rfl).1 _⟩

end Session

end FlatAssembler
