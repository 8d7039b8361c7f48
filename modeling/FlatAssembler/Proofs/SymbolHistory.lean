import FlatAssembler.Proofs.History
import Mathlib.Data.List.Induction

/-!
# The symbol table as a history

Two things change the symbol table: the label of a line, which is bound before the
directive is carried out, and a directive that exports a name. A line does at most
one of each, and does it whether or not the line fails afterwards. So the table is a
fold over the lines that were reached (`symbols_operateEach`), and what it says of a
name can be told from these lines: `entryOf` is the naive account, by the last line
with the label and by whether any line exported the name.

The table is changed in place and in either order, and nothing of this shows in
`find_tableAfter`: looking a name up gives the naive account.
-/

namespace FlatAssembler

namespace Statement

/-- The label, if there is one. -/
def label? (st : Statement) : Option Text := if st.label = [] then none else some st.label

/-- The name that is exported. -/
def exported? (st : Statement) : Option Text :=
  match st.action, st.arguments with
  | .publication, [name] => some name
  | _, _ => none

end Statement

namespace Event

/-- The label of a line. -/
def label? : Event → Option Text
  | .line _ text => (Statement.parse text).label?
  | _ => none

/-- The name that a line exports. -/
def exported? : Event → Option Text
  | .line _ text => (Statement.parse text).exported?
  | _ => none

end Event

namespace SymbolTable

/-- The table after a line with this label, which exports this name, if it does. -/
def revise (label? exported? : Option Text) (offset : UInt32) (table : SymbolTable) :
    SymbolTable :=
  let bound := label?.elim table (table.define · offset)
  exported?.elim bound bound.publish

theorem find_update (table : SymbolTable) (name other : Text) (change : Symbol → Symbol)
    (hname : ∀ s, (change s).name = s.name) :
    (update name change table).find other =
      if name = other then some (change ((table.find other).getD { name := other }))
      else table.find other := by
  by_cases h : name = other
  · subst h
    rw [if_pos rfl, find_update_self table name change hname]
  · rw [if_neg h, find_update_of_ne table change hname (Ne.symm h)]

theorem find_revise (label? exported? : Option Text) (offset : UInt32) (table : SymbolTable)
    (name : Text) :
    (table.revise label? exported? offset).find name =
      let bound := if label? = some name then
          some { (table.find name).getD { name } with offset }
        else table.find name
      if exported? = some name then some { bound.getD { name } with exported := true }
      else bound := by
  have hbound : (label?.elim table (table.define · offset)).find name =
      if label? = some name then some { (table.find name).getD { name } with offset }
      else table.find name := by
    cases label? with
    | none => simp
    | some label =>
        have h := find_update table label name (fun s => { s with offset }) fun _ => rfl
        simpa [define] using h
  rw [revise, ← hbound]
  cases exported? with
  | none => simp
  | some exported =>
      have h := find_update (label?.elim table (table.define · offset)) exported name
        (fun s => { s with exported := true }) fun _ => rfl
      simpa [publish] using h

theorem nodup_update {table : SymbolTable} (name : Text) {change : Symbol → Symbol}
    (hname : ∀ s, (change s).name = s.name) (h : (table.map Symbol.name).Nodup) :
    ((update name change table).map Symbol.name).Nodup := by
  rw [map_name_update table name change hname]
  split
  · exact h
  · rename_i hmem
    rw [List.nodup_append]
    refine ⟨h, by simp, ?_⟩
    intro other hother new hnew heq
    rw [List.mem_singleton] at hnew
    exact hmem (hnew ▸ heq ▸ hother)

theorem nodup_revise (label? exported? : Option Text) (offset : UInt32) {table : SymbolTable}
    (h : (table.map Symbol.name).Nodup) :
    ((table.revise label? exported? offset).map Symbol.name).Nodup := by
  have hbound : ((label?.elim table (table.define · offset)).map Symbol.name).Nodup := by
    cases label? with
    | none => exact h
    | some label => exact nodup_update label (fun _ => rfl) h
  cases exported? with
  | none => exact hbound
  | some exported => exact nodup_update exported (fun _ => rfl) hbound

theorem exists_mem_iff_find {table : SymbolTable} {name : Text} :
    (∃ symbol ∈ table, symbol.name = name) ↔ (table.find name).isSome = true := by
  simp [find]

theorem mem_iff_find {table : SymbolTable} (h : (table.map Symbol.name).Nodup)
    (symbol : Symbol) : symbol ∈ table ↔ table.find symbol.name = some symbol := by
  induction table with
  | nil => simp [find]
  | cons first rest ih =>
      rw [List.map_cons, List.nodup_cons] at h
      have hfind : SymbolTable.find (first :: rest) symbol.name =
          if first.name = symbol.name then some first else SymbolTable.find rest symbol.name := by
        by_cases hname : first.name = symbol.name <;> simp [find, hname]
      rw [hfind, List.mem_cons, ih h.2]
      by_cases hname : first.name = symbol.name
      · have habsent : symbol ∉ rest := fun hmem =>
          h.1 (hname ▸ List.mem_map_of_mem hmem)
        rw [if_pos hname, ← ih h.2]
        simp [habsent, eq_comm]
      · have hne : symbol ≠ first := fun heq => hname (heq ▸ rfl)
        simp [hname, hne]

end SymbolTable

namespace Session

/-! ### The table of a run -/

theorem scope_fill (s : Session) (width : Width) (arguments : List Text) :
    (s.fill width arguments).1.scope = s.scope := by
  induction arguments generalizing s with
  | nil => rfl
  | cons argument rest ih =>
      cases hvalue : (s.scope.evaluate argument).value with
      | error cause => rw [fill_cons_of_error hvalue, scope_record]
      | ok value => rw [fill_cons_of_ok hvalue, ih, scope_append, scope_record]

theorem symbols_emit (s : Session) (width : Width) (arguments : List Text) :
    (s.emit width arguments).1.symbols = s.symbols :=
  congrArg Scope.symbols (scope_fill { s with slot := some width } width arguments)

theorem symbols_defineConstant (s : Session) (name expression : Text) :
    (s.defineConstant name expression).1.symbols = s.symbols := by
  cases hname : s.constants.get? name with
  | some value => rw [defineConstant_of_some hname]
  | none =>
      cases hvalue : (s.scope.evaluate expression).value with
      | error cause => rw [defineConstant_of_error hname hvalue, record_eq]
      | ok value => rw [defineConstant_of_ok hname hvalue, record_eq]

theorem symbols_execute (s : Session) (st : Statement) :
    (s.execute st).1.symbols = st.exported?.elim s.symbols s.symbols.publish := by
  rw [execute, Statement.exported?]
  cases st.action with
  | publication =>
      rcases st.arguments with _ | ⟨name, _ | ⟨other, more⟩⟩ <;> rfl
  | constant =>
      dsimp only
      split
      · exact s.symbols_defineConstant _ _
      · rfl
  | data width =>
      dsimp only
      split
      · rfl
      · exact s.symbols_emit _ _
  | absent | inclusion | stop | ignored | unknown => rfl

/-- A line binds its label and exports its name, whether or not it fails. -/
theorem symbols_step (s : Session) (event : Event) :
    (s.step event).1.symbols = s.symbols.revise event.label? event.exported? s.cursor := by
  cases event with
  | entered _ | repeated _ | completed _ => rfl
  | unreadable failure origin => cases origin <;> rfl
  | line site text =>
      have hexecute := symbols_execute (s.atLine site (Statement.parse text)) (Statement.parse text)
      have hbound : (s.atLine site (Statement.parse text)).symbols =
          (Statement.parse text).label?.elim s.symbols (s.symbols.define · s.cursor) := by
        rw [atLine_eq, Statement.label?]
        split <;> rfl
      rw [hbound] at hexecute
      have hlist (t : Session) (start : Nat) (source : Text) :
          (t.list start source).symbols = t.symbols := by
        rw [list]
        split <;> rfl
      rcases h : (s.atLine site (Statement.parse text)).execute (Statement.parse text) with
        ⟨t, _ | cause⟩ <;> rw [h] at hexecute
      · rw [step, assembleLine_of_none h, hlist]
        exact hexecute
      · rw [step, assembleLine_of_some h]
        exact hexecute

/-- The table that a stretch of history makes of a table. -/
def tableAfter (past : List (Session × Event)) (table : SymbolTable) : SymbolTable :=
  past.foldl (fun table m => table.revise m.2.label? m.2.exported? m.1.cursor) table

theorem symbols_run (s : Session) (events : List Event) :
    (s.run events).1.symbols = tableAfter (s.moments events) s.symbols := by
  induction events generalizing s with
  | nil => rfl
  | cons event rest ih =>
      have hstep := s.symbols_step event
      rcases h : s.step event with ⟨t, _ | fault⟩ <;> rw [h] at hstep
      · rw [run_cons_of_none h, moments_cons_of_none h, ih, hstep]
        rfl
      · rw [run_cons_of_some h, moments_cons_of_some h]
        exact hstep

theorem symbols_operate (s : Session) (fs : FileSystem) (operation : Operation) :
    (s.operate fs operation).1.symbols =
      tableAfter (s.moments (operation.events fs s)) s.symbols := by
  rcases s.operate_cases fs operation with ⟨heq, -⟩ | ⟨base, rfl⟩ | ⟨_, rfl⟩ | ⟨_, rfl⟩
  · rw [heq]
    exact s.symbols_run _
  · obtain ⟨_, _, _, heq⟩ := s.exists_operate_rebase_eq fs base
    rw [heq]
    rfl
  · rfl
  · rfl

theorem symbols_operateEach (s : Session) (calls : List (FileSystem × Operation)) :
    (s.operateEach calls).symbols = tableAfter (s.historyEach calls) s.symbols := by
  induction calls generalizing s with
  | nil => rfl
  | cons call rest ih =>
      obtain ⟨fs, operation⟩ := call
      rw [operateEach_cons, ih, symbols_operate, historyEach, tableAfter, tableAfter, tableAfter,
        List.foldl_append]

/-! ### What the history says of a name -/

/-- The size of the output when the last line with this label was reached. -/
def labelOffset? (past : List (Session × Event)) (name : Text) : Option Nat :=
  (past.filter fun m => m.2.label? = some name).getLast?.map fun m => m.1.bytes.size

def isExported (past : List (Session × Event)) (name : Text) : Bool :=
  past.any fun m => m.2.exported? = some name

/-- The entry that a name should have. -/
def entryOf (past : List (Session × Event)) (name : Text) : Option Symbol :=
  if (labelOffset? past name).isSome || isExported past name then
    some
      { name
        offset := UInt32.ofNat ((labelOffset? past name).getD 0)
        exported := isExported past name }
  else none

theorem labelOffset?_append_singleton (past : List (Session × Event)) (m : Session × Event)
    (name : Text) :
    labelOffset? (past ++ [m]) name =
      if m.2.label? = some name then some m.1.bytes.size else labelOffset? past name := by
  by_cases h : m.2.label? = some name <;> simp [labelOffset?, h]

theorem isExported_append_singleton (past : List (Session × Event)) (m : Session × Event)
    (name : Text) :
    isExported (past ++ [m]) name =
      (isExported past name || decide (m.2.exported? = some name)) := by
  simp [isExported]

theorem entryOf_append_singleton (past : List (Session × Event)) (m : Session × Event)
    (name : Text) :
    entryOf (past ++ [m]) name =
      let bound := if m.2.label? = some name then
          some { (entryOf past name).getD { name } with offset := m.1.cursor }
        else entryOf past name
      if m.2.exported? = some name then some { bound.getD { name } with exported := true }
      else bound := by
  simp only [entryOf, labelOffset?_append_singleton, isExported_append_singleton]
  by_cases hlabel : m.2.label? = some name <;> by_cases hexported : m.2.exported? = some name <;>
    rcases labelOffset? past name with _ | offset <;> rcases isExported past name <;>
    simp [hlabel, hexported, cursor]

/-- Looking a name up gives what the history says of it. -/
theorem find_tableAfter (past : List (Session × Event)) (name : Text) :
    (tableAfter past []).find name = entryOf past name := by
  induction past using List.reverseRecOn with
  | nil => rfl
  | append_singleton past m ih =>
      have hlast : tableAfter (past ++ [m]) [] =
          (tableAfter past []).revise m.2.label? m.2.exported? m.1.cursor := by
        simp [tableAfter]
      rw [hlast, SymbolTable.find_revise, ih, entryOf_append_singleton]

theorem nodup_tableAfter (past : List (Session × Event)) :
    ((tableAfter past []).map Symbol.name).Nodup := by
  induction past using List.reverseRecOn with
  | nil => exact List.nodup_nil
  | append_singleton past m ih =>
      simpa [tableAfter] using
        SymbolTable.nodup_revise m.2.label? m.2.exported? m.1.cursor ih

/-! ### Offsets -/

theorem size_le_of_mem_moments {s : Session} {events : List Event} {m : Session × Event}
    (hm : m ∈ s.moments events) : m.1.bytes.size ≤ (s.run events).1.bytes.size := by
  induction events generalizing s with
  | nil => cases hm
  | cons event rest ih =>
      have hfirst := (s.grows_run (event :: rest)).size_le
      rcases h : s.step event with ⟨t, _ | fault⟩
      · rw [moments_cons_of_none h] at hm
        rcases List.mem_cons.mp hm with rfl | hm
        · exact hfirst
        · rw [run_cons_of_none h]
          exact ih hm
      · rw [moments_cons_of_some h, List.mem_singleton] at hm
        rw [hm]
        exact hfirst

theorem size_operateEach_le (s : Session) (calls : List (FileSystem × Operation)) :
    s.bytes.size ≤ (s.operateEach calls).bytes.size := by
  induction calls generalizing s with
  | nil => exact Nat.le_refl _
  | cons call rest ih => exact Nat.le_trans (s.size_operate_le call.1 call.2) (ih _)

theorem size_le_of_mem_historyEach {s : Session} {calls : List (FileSystem × Operation)}
    {m : Session × Event} (hm : m ∈ s.historyEach calls) :
    m.1.bytes.size ≤ (s.operateEach calls).bytes.size := by
  induction calls generalizing s with
  | nil => cases hm
  | cons call rest ih =>
      obtain ⟨fs, operation⟩ := call
      rw [historyEach] at hm
      rcases List.mem_append.mp hm with hm | hm
      · refine Nat.le_trans ?_ (size_operateEach_le (s.operate fs operation).1 rest)
        rcases s.operate_cases fs operation with ⟨heq, -⟩ | ⟨_, rfl⟩ | ⟨_, rfl⟩ | ⟨_, rfl⟩
        · rw [heq]
          exact size_le_of_mem_moments hm
        all_goals cases hm
      · exact ih hm

theorem isExported_iff {past : List (Session × Event)} {name : Text} :
    isExported past name = true ↔ ∃ m ∈ past, m.2.exported? = some name := by
  simp [isExported]

theorem isSome_labelOffset?_iff {past : List (Session × Event)} {name : Text} :
    (labelOffset? past name).isSome = true ↔ ∃ m ∈ past, m.2.label? = some name := by
  simp [labelOffset?]

theorem exists_of_labelOffset? {past : List (Session × Event)} {name : Text} {offset : Nat}
    (h : labelOffset? past name = some offset) : ∃ m ∈ past, m.1.bytes.size = offset := by
  obtain ⟨m, hm, rfl⟩ := Option.map_eq_some_iff.mp h
  exact ⟨m, (List.mem_filter.mp (List.mem_of_getLast? hm)).1, rfl⟩

/-- An offset is that of a line which was reached, or zero. -/
theorem labelOffset?_getD_le {s : Session} {calls : List (FileSystem × Operation)}
    (name : Text) :
    (labelOffset? (s.historyEach calls) name).getD 0 ≤ (s.operateEach calls).bytes.size := by
  cases h : labelOffset? (s.historyEach calls) name with
  | none => exact Nat.zero_le _
  | some offset =>
      obtain ⟨m, hm, rfl⟩ := exists_of_labelOffset? h
      exact size_le_of_mem_historyEach hm

theorem isSome_entryOf_iff {past : List (Session × Event)} {name : Text} :
    (entryOf past name).isSome = true ↔
      (∃ m ∈ past, m.2.label? = some name) ∨ ∃ m ∈ past, m.2.exported? = some name := by
  rw [← isSome_labelOffset?_iff, ← isExported_iff, ← Bool.or_eq_true, entryOf]
  split
  · rename_i h
    simp [h]
  · rename_i h
    simp [h]

theorem of_entryOf_eq_some {past : List (Session × Event)} {name : Text} {symbol : Symbol}
    (h : entryOf past name = some symbol) :
    symbol.offset = UInt32.ofNat ((labelOffset? past name).getD 0) ∧
      symbol.exported = isExported past name := by
  rw [entryOf] at h
  split at h
  · cases h
    exact ⟨rfl, rfl⟩
  · cases h

/-! ### Labels -/

theorem label_of_find_eq_some {s : Session} {name : Text} {symbol : Symbol}
    (h : s.symbols.find name = some symbol) : s.label name = .ok symbol.offset := by
  rw [label, h]

theorem label_of_find_eq_none {s : Session} {name : Text} (h : s.symbols.find name = none) :
    s.label name = .error (Cause.unknownLabel name).unplaced := by
  rw [label, h]

/-- After any operations on a new session, as long as the output is shorter than
`2 ^ 32` bytes, the symbols are what the lines that were reached say. A name has a
symbol if a line had it for its label or exported it; the offset is the size of the
output when the last line with the label was reached, or else zero; and it is
exported if a line exported it. Moves change nothing of this, and `label` finds the
offset of just these names. -/
theorem symbols_of_history (base : UInt32) (constants : Constants) (strict listed : Bool)
    (calls : List (FileSystem × Operation))
    (hsize : (({ base, constants, strict, listed } : Session).operateEach calls).bytes.size <
      UInt32.size) :
    let past := ({ base, constants, strict, listed } : Session).historyEach calls
    let s := ({ base, constants, strict, listed } : Session).operateEach calls
    (∀ name, (∃ symbol ∈ s.symbols, symbol.name = name) ↔
      (∃ m ∈ past, m.2.label? = some name) ∨ ∃ m ∈ past, m.2.exported? = some name) ∧
    (∀ symbol ∈ s.symbols,
      symbol.offset.toNat = (labelOffset? past symbol.name).getD 0 ∧
      (symbol.exported = true ↔ ∃ m ∈ past, m.2.exported? = some symbol.name) ∧
      symbol.offset.toNat ≤ s.bytes.size) ∧
    (s.symbols.map Symbol.name).Nodup ∧
    (∀ fs new, (s.operate fs (.rebase new)).1.symbols = s.symbols ∧
      (s.operate fs (.rebase new)).1.bytes.size = s.bytes.size) ∧
    (∀ symbol ∈ s.symbols, s.label symbol.name = .ok symbol.offset) ∧
    ∀ name, (∃ fault, s.label name = .error fault ∧ fault.kind = .invalidValue) ↔
      ∀ symbol ∈ s.symbols, symbol.name ≠ name := by
  intro past s
  have htable : s.symbols = tableAfter past [] := symbols_operateEach _ calls
  have hnodup : (s.symbols.map Symbol.name).Nodup := htable ▸ nodup_tableAfter past
  have hfind (name : Text) : s.symbols.find name = entryOf past name :=
    htable ▸ find_tableAfter past name
  have hentry {symbol : Symbol} (hsymbol : symbol ∈ s.symbols) :
      s.symbols.find symbol.name = some symbol :=
    (SymbolTable.mem_iff_find hnodup symbol).mp hsymbol
  refine ⟨?_, ?_, hnodup, ?_, ?_, ?_⟩
  · intro name
    rw [SymbolTable.exists_mem_iff_find, hfind]
    exact isSome_entryOf_iff
  · intro symbol hsymbol
    obtain ⟨hoffset, hexported⟩ := of_entryOf_eq_some ((hfind _).symm.trans (hentry hsymbol))
    have hle : (labelOffset? past symbol.name).getD 0 ≤ s.bytes.size :=
      labelOffset?_getD_le symbol.name
    have hnat : symbol.offset.toNat = (labelOffset? past symbol.name).getD 0 := by
      rw [hoffset]
      exact UInt32.toNat_ofNat_of_lt' (Nat.lt_of_le_of_lt hle hsize)
    exact ⟨hnat, hexported ▸ isExported_iff, hnat ▸ hle⟩
  · intro fs new
    obtain ⟨_, _, hbytes, heq⟩ := s.exists_operate_rebase_eq fs new
    rw [heq]
    exact ⟨rfl, hbytes⟩
  · intro symbol hsymbol
    exact label_of_find_eq_some (hentry hsymbol)
  · intro name
    have hnone : (∀ symbol ∈ s.symbols, symbol.name ≠ name) ↔ s.symbols.find name = none := by
      rw [← Option.not_isSome_iff_eq_none, ← SymbolTable.exists_mem_iff_find]
      simp
    rw [hnone]
    constructor
    · rintro ⟨fault, hfault, -⟩
      cases h : s.symbols.find name with
      | none => rfl
      | some symbol =>
          rw [label_of_find_eq_some h] at hfault
          cases hfault
    · intro h
      exact ⟨_, label_of_find_eq_none h, rfl⟩

/-- A name is exported before it has a label, the label is moved by a line that fails,
and the output is moved in between. -/
theorem symbols_of_history_moved :
    let fs : FileSystem := { files := [(["x.s"], ".word 1\nL: .byte 2\nM: .global L\n.byte 3")] }
    let calls : List (FileSystem × Operation) :=
      [(fs, .loadSource "m.s" ".global N\n.include \"x.s\""), (fs, .rebase 4096),
        ({}, .loadSource "n.s" "M: .byte 7,M/0")]
    let s := ({} : Session).operateEach calls
    s.bytes.size < UInt32.size ∧
      s.symbols = [⟨"N", 0, true⟩, ⟨"L", 4, true⟩, ⟨"M", 6, false⟩] ∧
      ∀ symbol ∈ s.symbols, symbol.offset.toNat =
        (labelOffset? (({} : Session).historyEach calls) symbol.name).getD 0 := by
  intro fs calls s
  have hsize : s.bytes.size < UInt32.size := by decide +kernel
  exact ⟨hsize, by decide +kernel,
    fun symbol hsymbol => ((symbols_of_history 0 [] false false calls hsize).2.1 symbol hsymbol).1⟩

end Session

end FlatAssembler
