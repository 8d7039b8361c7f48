import FlatAssembler.Proofs.Build
import FlatAssembler.Proofs.IncludeLine
import FlatAssembler.Proofs.LiteralGrammar
import FlatAssembler.Proofs.SymbolHistory
import Mathlib.Data.List.Nodup

/-!
# The listing of the symbols

A table of symbols has no order that means anything; it is shown by offset and, where
offsets are equal, by name. As no two symbols have one name, no two of them stand on the
same step of this order (`Symbol.Before`), and so there is one way only to sort a table,
whichever way its entries come and however they are sorted (`eq_sorted_of_pairwise`).

The listing has a row for each symbol: eight digits, a mark, and the name. `readRow` takes a
row apart again. That the rows themselves can be told apart is owed to the names: they are
words of source lines, and a word has no blank in it, so there is no newline in a name
(`Session.Reached.newline_notMem`).
-/

namespace FlatAssembler

/-! ### The order -/

namespace Symbol

/-- By offset, and by name where the offsets are equal. -/
def Before (a b : Symbol) : Prop :=
  a.offset < b.offset ∨ a.offset = b.offset ∧ a.name < b.name

instance (a b : Symbol) : Decidable (a.Before b) := inferInstanceAs (Decidable (_ ∨ _))

variable {a b : Symbol}

theorem precedes_iff :
    precedes a b = true ↔ a.offset < b.offset ∨ a.offset = b.offset ∧ a.name ≤ b.name := by
  simp [precedes, Text.le_iff]

theorem precedes_trans (a b c : Symbol) (h : precedes a b = true) (h' : precedes b c = true) :
    precedes a c = true := by
  rw [precedes_iff] at h h' ⊢
  rcases h with h | ⟨h, hname⟩ <;> rcases h' with h' | ⟨h', hname'⟩
  · exact Or.inl (UInt32.lt_trans h h')
  · exact Or.inl (h' ▸ h)
  · exact Or.inl (h ▸ h')
  · exact Or.inr ⟨h.trans h', List.le_trans hname hname'⟩

theorem precedes_total (a b : Symbol) : (precedes a b || precedes b a) = true := by
  rw [Bool.or_eq_true, precedes_iff, precedes_iff]
  rcases Std.lt_trichotomy a.offset b.offset with h | h | h
  · exact Or.inl (Or.inl h)
  · exact (List.le_total a.name b.name).imp (fun hle => Or.inr ⟨h, hle⟩)
      fun hle => Or.inr ⟨h.symm, hle⟩
  · exact Or.inr (Or.inl h)

/-- Two symbols that precede each other have the same name. -/
theorem name_eq_of_precedes (h : precedes a b = true) (h' : precedes b a = true) :
    a.name = b.name := by
  rw [precedes_iff] at h h'
  rcases h with h | ⟨h, hname⟩ <;> rcases h' with h' | ⟨h', hname'⟩
  · exact absurd (UInt32.lt_trans h h') (UInt32.lt_irrefl _)
  · exact absurd (h' ▸ h) (UInt32.lt_irrefl _)
  · exact absurd (h ▸ h') (UInt32.lt_irrefl _)
  · exact List.le_antisymm hname hname'

theorem before_of_precedes (h : precedes a b = true) (hne : a.name ≠ b.name) : a.Before b :=
  (precedes_iff.mp h).imp_right fun ⟨hoffset, hname⟩ => ⟨hoffset, Std.lt_of_le_of_ne hname hne⟩

theorem precedes_of_not_before (h : ¬b.Before a) : precedes a b = true := by
  rw [Before, not_or, not_and] at h
  rw [precedes_iff]
  rcases Std.lt_trichotomy a.offset b.offset with hlt | heq | hgt
  · exact Or.inl hlt
  · exact Or.inr ⟨heq, h.2 heq.symm⟩
  · exact absurd hgt h.1

end Symbol

namespace SymbolTable

variable {table order list : SymbolTable}

/-- The list has the symbols of the table in their order, each name once. -/
structure Shows (table : SymbolTable) (list : List Symbol) : Prop where
  perm : list.Perm table
  increasing : list.Pairwise Symbol.Before
  nodup : (list.map Symbol.name).Nodup

theorem perm_sorted (table : SymbolTable) : table.sorted.Perm table :=
  List.mergeSort_perm table Symbol.precedes

theorem pairwise_sorted (table : SymbolTable) :
    table.sorted.Pairwise fun a b => Symbol.precedes a b = true :=
  List.pairwise_mergeSort Symbol.precedes_trans Symbol.precedes_total table

theorem shows_sorted (h : (table.map Symbol.name).Nodup) : table.Shows table.sorted := by
  have hnodup : (table.sorted.map Symbol.name).Nodup :=
    ((perm_sorted table).map Symbol.name).nodup_iff.mpr h
  refine ⟨perm_sorted table, ?_, hnodup⟩
  have hnames : table.sorted.Pairwise fun a b => a.name ≠ b.name := List.pairwise_map.mp hnodup
  exact ((pairwise_sorted table).and hnames).imp fun h => Symbol.before_of_precedes h.1 h.2

/-- Symbols with different names can be sorted in one way only. -/
theorem eq_sorted_of_pairwise (h : (table.map Symbol.name).Nodup) (hperm : list.Perm table)
    (hsorted : list.Pairwise fun a b => Symbol.precedes a b = true) : list = table.sorted := by
  refine List.Perm.eq_of_pairwise ?_ hsorted (pairwise_sorted table)
    (hperm.trans (perm_sorted table).symm)
  intro a b ha hb hab hba
  have hmem : b ∈ table := (perm_sorted table).mem_iff.mp hb
  exact List.inj_on_of_nodup_map h (hperm.mem_iff.mp ha) hmem (Symbol.name_eq_of_precedes hab hba)

theorem nodup_of_perm (h : (table.map Symbol.name).Nodup) (hperm : order.Perm table) :
    (order.map Symbol.name).Nodup :=
  (hperm.map Symbol.name).nodup_iff.mpr h

theorem find_eq_some_iff (h : (table.map Symbol.name).Nodup) {name : Text} {symbol : Symbol} :
    table.find name = some symbol ↔ symbol ∈ table ∧ symbol.name = name := by
  constructor
  · intro hfind
    have hname : symbol.name = name := by simpa using List.find?_some hfind
    exact ⟨List.mem_of_find?_eq_some hfind, hname⟩
  · rintro ⟨hmem, rfl⟩
    exact (mem_iff_find h symbol).mp hmem

theorem find_eq_of_perm (h : (table.map Symbol.name).Nodup) (hperm : order.Perm table)
    (name : Text) : order.find name = table.find name := by
  apply Option.ext
  intro symbol
  rw [find_eq_some_iff h, find_eq_some_iff (nodup_of_perm h hperm), hperm.mem_iff]

end SymbolTable

/-! ### Rows -/

namespace CommandLine

open Literal (hexadecimalDigits hexDigits_digits)

/-- The line of a symbol without its end. -/
def symbolRow (s : Symbol) : Text :=
  Text.concat [Text.upperHex 8 s.offset.toNat, if s.exported then " G " else "   ", s.name]

/-- The symbol that a row shows: eight digits, the mark between blanks, and the name. -/
def readRow (row : Text) : Symbol where
  name := row.drop 11
  offset := UInt32.ofNat (Literal.ofDigits 16 (Text.chars (row.take 8)))
  exported := row[9]? = some 'G'.toUInt8

/-- The symbols that a listing shows. The last line is not ended, so it is none. -/
def readListing (listing : Text) : List Symbol :=
  (splitAt '\n'.toUInt8 listing).dropLast.map readRow

theorem length_ofChars_of_digits {digits : List Char}
    (h : ∀ c ∈ digits, c ∈ hexadecimalDigits) : (Text.ofChars digits).length = digits.length := by
  have hsize : ∀ c ∈ hexadecimalDigits, (String.utf8EncodeChar c).length = 1 :=
    List.all_iff_forall_prop.mp (by decide)
  induction digits with
  | nil => rfl
  | cons c digits ih =>
      obtain ⟨hc, hdigits⟩ := List.forall_mem_cons.mp h
      rw [Text.ofChars_cons, List.length_append, hsize c hc, ih hdigits, List.length_cons,
        Nat.add_comm]

theorem upperHexDigits_mem {width n : Nat} :
    ∀ c ∈ (Text.hexDigits width n).map Char.toUpper, c ∈ hexadecimalDigits := by
  intro c hc
  obtain ⟨d, hd, rfl⟩ := List.mem_map.mp hc
  exact ((hexDigits_digits width n).1 d hd).2.1

/-- Eight digits are enough for an offset. -/
theorem length_upperHex_offset (offset : UInt32) : (Text.upperHex 8 offset.toNat).length = 8 := by
  have hlt : offset.toNat < 16 ^ 8 := offset.toNat_lt
  have hlength : (Nat.toDigits 16 offset.toNat).length ≤ 8 :=
    (Nat.length_toDigits_le_iff (by decide) (by decide)).mpr hlt
  rw [Text.upperHex, length_ofChars_of_digits upperHexDigits_mem, List.length_map, Text.hexDigits,
    Text.length_padLeft]
  exact Nat.max_eq_left hlength

theorem ofDigits_upperHex (width n : Nat) :
    Literal.ofDigits 16 (Text.upperHex width n).chars = n := by
  obtain ⟨hdigits, hnumber⟩ := hexDigits_digits width n
  rw [Text.upperHex, Text.chars_ofChars,
    Literal.ofDigits_map_toUpper 16 fun c hc => (hdigits c hc).2.2, hnumber]

theorem newline_notMem_upperHex (width n : Nat) : '\n'.toUInt8 ∉ Text.upperHex width n := by
  intro hmem
  have hdigit : '\n' ∈ hexadecimalDigits :=
    upperHexDigits_mem _ (Text.mem_of_toUInt8_mem_ofChars (by decide) hmem)
  exact absurd hdigit (by decide)

theorem newline_notMem_symbolRow {s : Symbol} (h : '\n'.toUInt8 ∉ s.name) :
    '\n'.toUInt8 ∉ symbolRow s := by
  have hmark : '\n'.toUInt8 ∉ (if s.exported then " G " else "   " : Text) := by
    split <;> decide
  simp [symbolRow, Text.concat, newline_notMem_upperHex, hmark, h]

theorem symbolRow_eq (s : Symbol) :
    symbolRow s = Text.upperHex 8 s.offset.toNat ++ ' '.toUInt8 ::
      (if s.exported then 'G'.toUInt8 else ' '.toUInt8) :: ' '.toUInt8 :: s.name := by
  simp only [symbolRow, Text.concat, List.flatten_cons, List.flatten_nil, List.append_nil]
  cases s.exported <;> rfl

/-- A row is read as the symbol for which it was written. -/
theorem readRow_symbolRow (s : Symbol) : readRow (symbolRow s) = s := by
  have hlength := length_upperHex_offset s.offset
  have hdigits : List.take 8 (symbolRow s) = Text.upperHex 8 s.offset.toNat := by
    rw [symbolRow_eq, List.take_left' hlength]
  have hmark : (symbolRow s)[9]? = some (if s.exported then 'G'.toUInt8 else ' '.toUInt8) := by
    rw [symbolRow_eq, List.getElem?_append_right (by omega), hlength]
    rfl
  have hname : List.drop 11 (symbolRow s) = s.name := by
    rw [symbolRow_eq, List.drop_append, List.drop_eq_nil_of_le (by omega), hlength]
    rfl
  have hexported : decide ((symbolRow s)[9]? = some 'G'.toUInt8) = s.exported := by
    rw [hmark]
    cases s.exported <;> rfl
  rw [readRow, hdigits, hname, hexported, ofDigits_upperHex, UInt32.ofNat_toNat]

/-! ### Listings -/

theorem splitAt_concat_line {rows : List Text} (h : ∀ row ∈ rows, '\n'.toUInt8 ∉ row) :
    splitAt '\n'.toUInt8 (Text.concat (rows.map line)) = rows ++ [[]] := by
  induction rows with
  | nil => rfl
  | cons row rest ih =>
      obtain ⟨hrow, hrest⟩ := List.forall_mem_cons.mp h
      have hfirst : Text.concat ((row :: rest).map line) =
          row ++ '\n'.toUInt8 :: Text.concat (rest.map line) := by
        rw [List.map_cons, Text.concat, List.flatten_cons, line, List.append_assoc]
        rfl
      rw [hfirst, splitAt_append_separator hrow, ih hrest, List.cons_append]

/-- A listing has a line for each symbol, as long as no name breaks its line. -/
theorem splitAt_symbolListing {table : SymbolTable}
    (h : ∀ s ∈ table, '\n'.toUInt8 ∉ s.name) :
    splitAt '\n'.toUInt8 (symbolListing table) = table.sorted.map symbolRow ++ [[]] := by
  have hlines : table.sorted.map symbolLine = (table.sorted.map symbolRow).map line := by
    rw [List.map_map]
    rfl
  rw [symbolListing, hlines]
  apply splitAt_concat_line
  intro row hrow
  obtain ⟨s, hs, rfl⟩ := List.mem_map.mp hrow
  exact newline_notMem_symbolRow (h s ((SymbolTable.perm_sorted table).mem_iff.mp hs))

theorem readListing_symbolListing {table : SymbolTable}
    (h : ∀ s ∈ table, '\n'.toUInt8 ∉ s.name) :
    readListing (symbolListing table) = table.sorted := by
  rw [readListing, splitAt_symbolListing h, List.dropLast_concat, List.map_map]
  exact (List.map_congr_left fun s _ => readRow_symbolRow s).trans (List.map_id _)

end CommandLine

/-! ### Names -/

namespace Statement

theorem IsWord.newline_notMem {ends : List Char} {t : Text} (h : IsWord ends t) :
    '\n'.toUInt8 ∉ t := by
  intro hmem
  rw [← h.wellFormed] at hmem
  have hblank := (h.word '\n' (Text.mem_of_toUInt8_mem_ofChars (by decide) hmem)).1
  exact absurd hblank (by decide)

end Statement

namespace Event

/-- A line names symbols by words. -/
theorem newline_notMem_label {event : Event} {name : Text} (h : event.label? = some name) :
    '\n'.toUInt8 ∉ name := by
  cases event with
  | line site text =>
      rw [label?, Statement.label?] at h
      split at h
      · cases h
      · cases h
        exact (Statement.isCanonical_parse text).label.newline_notMem
  | entered | repeated | completed | unreadable => cases h

theorem newline_notMem_exported {event : Event} {name : Text} (h : event.exported? = some name) :
    '\n'.toUInt8 ∉ name := by
  cases event with
  | line site text =>
      rw [exported?, Statement.exported?] at h
      split at h
      · rename_i harguments
        cases h
        exact ((Statement.isCanonical_parse text).arguments name
          (harguments ▸ List.mem_cons_self)).newline_notMem
      · cases h
  | entered | repeated | completed | unreadable => cases h

end Event

namespace Session

/-- Operations, whether or not they succeed, lead to this session from a new one. -/
def Reached (s : Session) : Prop :=
  ∃ base constants strict listed calls,
    s = ({ base, constants, strict, listed } : Session).operateEach calls

variable {s : Session}

theorem Reached.nodup (h : s.Reached) : (s.symbols.map Symbol.name).Nodup := by
  obtain ⟨base, constants, strict, listed, calls, rfl⟩ := h
  rw [symbols_operateEach]
  exact nodup_tableAfter _

theorem Reached.newline_notMem (h : s.Reached) :
    ∀ symbol ∈ s.symbols, '\n'.toUInt8 ∉ symbol.name := by
  obtain ⟨base, constants, strict, listed, calls, rfl⟩ := h
  intro symbol hsymbol
  rw [symbols_operateEach] at hsymbol
  have hfind := SymbolTable.exists_mem_iff_find.mp ⟨symbol, hsymbol, rfl⟩
  rw [find_tableAfter] at hfind
  rcases isSome_entryOf_iff.mp hfind with ⟨m, -, hm⟩ | ⟨m, -, hm⟩
  · exact Event.newline_notMem_label hm
  · exact Event.newline_notMem_exported hm

end Session

namespace CommandLine

open Session (Reached)

theorem reached_of_newSession {o : SessionOptions} {run : Script.Run} {start : Session}
    (h : newSession o run = .ok start) (fs : FileSystem) (path : Text) :
    Reached (start.load fs path).1 := by
  obtain ⟨base, -, h⟩ := eq_ok_of_bind h
  obtain ⟨constants, -, h⟩ := eq_ok_of_bind h
  cases h
  exact ⟨base, constants, o.strict, false, [(fs, .load path)], rfl⟩

theorem runSymbols_of_load {host : Host} {o : SessionOptions} {fs : FileSystem} {input : Text}
    {start s : Session} {status : Status} (hstart : newSession o (host.runScript o fs) = .ok start)
    (hload : start.load (host.runScript o fs).files input = (s, .ok status)) :
    runSymbols host o false input fs =
      (host.begin (.symbols o false input) fs (host.runScript o fs)).print
        (symbolListing s.symbols) := by
  rw [runSymbols, hstart]
  simp only [hload]
  rfl

/-- The symbols of any session that can be reached are shown in one way only. Sorted, they are
a permutation of the table in which each symbol stands before all that follow, and in whatever
order a table with these symbols comes and however it is sorted, the list is the same. The
listing has one line for each symbol in this order, from which the symbols can be read back,
so sessions with the same listing have the same table. It is what the command prints if the
input can be assembled, after what its script has printed; without a script and without
tracing it is all that the command does. -/
theorem symbolListing_canonical :
    (∀ s : Session, s.Reached →
      s.symbols.Shows s.symbols.sorted ∧
      (∀ order : SymbolTable, order.Perm s.symbols → order.sorted = s.symbols.sorted ∧
        ∀ list, list.Perm order → list.Pairwise (fun a b => ¬b.Before a) →
          list = s.symbols.sorted) ∧
      splitAt '\n'.toUInt8 (symbolListing s.symbols) = s.symbols.sorted.map symbolRow ++ [[]] ∧
      readListing (symbolListing s.symbols) = s.symbols.sorted) ∧
    (∀ s t : Session, s.Reached → t.Reached →
      symbolListing s.symbols = symbolListing t.symbols →
      s.symbols.Perm t.symbols ∧ ∀ name, s.symbols.find name = t.symbols.find name) ∧
    ∀ (host : Host) o fs input start s status,
      newSession o (host.runScript o fs) = .ok start →
      start.load (host.runScript o fs).files input = (s, .ok status) →
      s.Reached ∧
        runSymbols host o false input fs =
          (host.begin (.symbols o false input) fs (host.runScript o fs)).print
            (symbolListing s.symbols) ∧
        (o.definesFile = [] → o.tracing = [] →
          runSymbols host o false input fs =
            { output := symbolListing s.symbols, files := fs }) := by
  refine ⟨fun s hs => ?_, fun s t hs ht heq => ?_,
    fun host o fs input start s status hstart hload => ?_⟩
  · refine ⟨SymbolTable.shows_sorted hs.nodup, fun order horder => ⟨?_, ?_⟩,
      splitAt_symbolListing hs.newline_notMem, readListing_symbolListing hs.newline_notMem⟩
    · exact SymbolTable.eq_sorted_of_pairwise hs.nodup (order.perm_sorted.trans horder)
        order.pairwise_sorted
    · intro list hlist hsorted
      exact SymbolTable.eq_sorted_of_pairwise hs.nodup (hlist.trans horder)
        (hsorted.imp Symbol.precedes_of_not_before)
  · have hsorted : s.symbols.sorted = t.symbols.sorted := by
      rw [← readListing_symbolListing hs.newline_notMem, heq,
        readListing_symbolListing ht.newline_notMem]
    have hperm : s.symbols.Perm t.symbols :=
      (SymbolTable.perm_sorted s.symbols).symm.trans
        (hsorted ▸ SymbolTable.perm_sorted t.symbols)
    exact ⟨hperm, SymbolTable.find_eq_of_perm ht.nodup hperm⟩
  · have hreached := reached_of_newSession hstart (host.runScript o fs).files input
    rw [hload] at hreached
    have hrun := runSymbols_of_load hstart hload
    refine ⟨hreached, hrun, fun hscript htracing => ?_⟩
    rw [hrun, runScript_of_no_script hscript,
      begin_of_quiet (.symbols o false input) fs htracing]
    rfl

/-- Three symbols at one offset, one of them exported before it has a label and another behind
the last label, are listed by their names. -/
theorem symbolListing_canonical_together :
    let fs : FileSystem :=
      { files := [(["m.s"], ".global Z\nB:\nA: .byte 1,2\nC: .global A")] }
    let s := (({} : Session).load fs "m.s").1
    s.Reached ∧
      s.symbols = [⟨"Z", 0, true⟩, ⟨"B", 0, false⟩, ⟨"A", 0, true⟩, ⟨"C", 2, false⟩] ∧
      splitAt '\n'.toUInt8 (symbolListing s.symbols) =
        (["00000000 G A", "00000000   B", "00000000 G Z", "00000002   C", ""] : List Text) := by
  intro fs s
  have hreached : s.Reached := ⟨0, [], false, false, [(fs, .load "m.s")], rfl⟩
  have hsymbols :
      s.symbols = [⟨"Z", 0, true⟩, ⟨"B", 0, false⟩, ⟨"A", 0, true⟩, ⟨"C", 2, false⟩] := by
    decide +kernel
  obtain ⟨-, hunique, hlines, -⟩ := symbolListing_canonical.1 s hreached
  have hsorted := (hunique s.symbols (List.Perm.refl _)).2
    [⟨"A", 0, true⟩, ⟨"B", 0, false⟩, ⟨"Z", 0, true⟩, ⟨"C", 2, false⟩]
    (by rw [hsymbols]; decide) (by decide)
  refine ⟨hreached, hsymbols, ?_⟩
  rw [hlines, ← hsorted]
  decide +kernel

end CommandLine

end FlatAssembler
