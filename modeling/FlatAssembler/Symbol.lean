import FlatAssembler.Text.Basic

/-!
# Symbols

A symbol is a label with its offset in the output. The table keeps one symbol for each name, in the
order in which the names first arrived. Defining a label again moves it; exporting a name that has
no label yet makes a placeholder at offset zero, which a later label moves. `SymbolTable.sorted` is
the canonical order in which a table is shown.
-/

namespace FlatAssembler

/-- A label, its offset from the start of the output, and whether it is exported. -/
structure Symbol where
  name : Text
  offset : UInt32 := 0
  exported : Bool := false
  deriving DecidableEq, Repr

/-- The symbols of a session, in the order of their first arrival. -/
abbrev SymbolTable := List Symbol

namespace Symbol

/-- By offset, and by name where the offsets are equal. -/
def precedes (a b : Symbol) : Bool :=
  a.offset < b.offset || (a.offset == b.offset && Text.le a.name b.name)

end Symbol

namespace SymbolTable

/-- The symbol of this name. -/
def find (table : SymbolTable) (name : Text) : Option Symbol :=
  table.find? fun s => s.name == name

/-- Changes the symbol of this name, which is put in at offset zero if it is missing. -/
def update (name : Text) (change : Symbol → Symbol) : SymbolTable → SymbolTable
  | [] => [change { name }]
  | s :: table => if s.name = name then change s :: table else s :: update name change table

/-- Binds a label to an offset. -/
def define (table : SymbolTable) (name : Text) (offset : UInt32) : SymbolTable :=
  update name (fun s => { s with offset }) table

/-- Marks a name as exported. -/
def publish (table : SymbolTable) (name : Text) : SymbolTable :=
  update name (fun s => { s with exported := true }) table

/-- The symbols by offset, then by name. -/
def sorted (table : SymbolTable) : List Symbol := table.mergeSort Symbol.precedes

/-! ### Looking up after a change -/

theorem find_update_self (table : SymbolTable) (name : Text) (change : Symbol → Symbol)
    (h : ∀ s, (change s).name = s.name) :
    (update name change table).find name = some (change ((table.find name).getD { name })) := by
  induction table with
  | nil => simp [update, find, h]
  | cons s table ih =>
    by_cases hs : s.name = name
    · simp [update, find, hs, h]
    · simpa [update, find, hs] using ih

theorem find_update_of_ne (table : SymbolTable) {name other : Text} (change : Symbol → Symbol)
    (h : ∀ s, (change s).name = s.name) (hne : other ≠ name) :
    (update name change table).find other = table.find other := by
  induction table with
  | nil => simp [update, find, h, hne.symm]
  | cons s table ih =>
    by_cases hs : s.name = name
    · simp [update, find, hs, h, hne.symm]
    · by_cases ho : s.name = other
      · simp [update, find, ho, hne]
      · simpa [update, find, hs, ho] using ih

/-- A change puts in at most the one name. -/
theorem map_name_update (table : SymbolTable) (name : Text) (change : Symbol → Symbol)
    (h : ∀ s, (change s).name = s.name) :
    (update name change table).map Symbol.name =
      if name ∈ table.map Symbol.name then table.map Symbol.name
      else table.map Symbol.name ++ [name] := by
  induction table with
  | nil => simp [update, h]
  | cons s table ih =>
    by_cases hs : s.name = name
    · simp [update, hs, h]
    · simp only [update, hs, if_false, List.map_cons, ih, List.mem_cons, Ne.symm hs, false_or]
      split <;> simp

end SymbolTable

end FlatAssembler
