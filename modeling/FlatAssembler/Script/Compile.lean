import FlatAssembler.Script.Code

/-!
# From commands to code

Expressions are computed in the registers behind those of the locals. `Expr.emit` puts a value into
a given register and may use all registers from `free` on meanwhile. An operand that is a constant
or the content of another register is not copied first: `Draft.settle` takes the copying back.

An assignment works in three stages. The keys of its targets come first; then its values, where that
of a local goes straight into the register of the local and so is seen by the values behind it; last
everything else is stored, from the last target to the first.
-/

namespace FlatAssembler.Script

/-- Code that is being written. -/
structure Draft where
  constants : List Constant := []
  /-- The instructions, the last one first. -/
  instructions : List Instruction := []
  /-- The locals, the last one first. The first local is in register zero. -/
  locals : List Text := []
  deriving Repr

/-- Writing code. -/
abbrev Build := StateM Draft

namespace Draft

/-- The register of a local; of two with one name the later hides the earlier. -/
def register? (d : Draft) (name : Text) : Option Nat :=
  (d.locals.findIdx? (· == name)).map (d.locals.length - 1 - ·)

/-- The first register that is not that of a local. -/
def top (d : Draft) : Nat := d.locals.length

/-- Appends an instruction. -/
def push (i : Instruction) : Build Unit :=
  modify fun d => { d with instructions := i.narrow :: d.instructions }

/-- Appends an instruction that makes registers nil. If it follows another such one whose ends add
up to `first`, that one is made to reach to `last` instead. -/
def pushClear (first last : Nat) : Build Unit := do
  match (← get).instructions with
  | .clear a b :: rest =>
    if a + b = first then
      modify fun d => { d with instructions := (Instruction.clear a last).narrow :: rest }
    else push (.clear first last)
  | _ => push (.clear first last)

/-- The place of a constant in the pool, into which it is put if no other can stand for it. -/
def intern (c : Constant) : Build Nat := do
  let constants := (← get).constants
  match constants.findIdx? (·.agrees c) with
  | some i => return i
  | none =>
    modify fun d => { d with constants := constants ++ [c] }
    return constants.length

/-- Takes the last instruction back. -/
def pop : Build Unit := modify fun d => { d with instructions := d.instructions.tail }

/-- The operand for the value that the last instruction has put into register `free`, and the next
free register. If the value was loaded from the pool or moved, it is taken from there and the
instruction is dropped; constants only if `fromPool` says so and there is an operand for them. An
instruction that has written the register of a local stays. -/
def settle (fromPool : Bool) (free : Nat) : Build (Nat × Nat) := do
  let d ← get
  match d.instructions.head? with
  | some (.load dest i) =>
    if fromPool && d.top ≤ dest && Place.firstConstant + i < operandField then
      pop
      return (Place.firstConstant + i, free)
    else return (free, free + 1)
  | some (.move dest source) =>
    if d.top ≤ dest then
      pop
      return (source, free)
    else return (free, free + 1)
  | _ => return (free, free + 1)

end Draft

open Draft

/-- How many items a table takes in at once. -/
def itemsAtOnce : Nat := 50

/-- The number of free registers that a value in register `dest` takes up. -/
def taken (dest free : Nat) : Nat := if dest < free then 0 else 1

mutual

/-- Writes code that puts the value into register `dest`, with the registers from `free` on at its
disposal, and says how many of those the value takes up. A table always takes up one, as it is
built there and then moved. -/
def Expr.emit (dest free : Nat) : Expr → Build Nat
  | .nil => do
    pushClear dest dest
    return taken dest free
  | .bool b => do
    push (.loadBool dest b)
    return taken dest free
  | .number x => do
    push (.load dest (← intern (.number x)))
    return taken dest free
  | .string text => do
    push (.load dest (← intern (.string text)))
    return taken dest free
  | .name n => do
    match (← get).register? n with
    | some r => push (.move dest r)
    | none =>
      let _ ← intern (.string n)
      push (.loadGlobal dest n)
    return taken dest free
  | .table items => do
    push (.newTable free)
    Expr.emitItems free 0 items
    if dest ≠ free then push (.move dest free)
    return 1
  | .negate e => do
    let _ ← e.emit free free
    let (operand, _) ← settle false free
    push (.negate dest (.ofOperand operand))
    return taken dest free
  | .arithmetic op left right => do
    let _ ← left.emit free free
    let (l, free') ← settle true free
    let _ ← right.emit free' free'
    let (r, _) ← settle true free'
    push (.arithmetic op dest (.ofOperand l) (.ofOperand r))
    return taken dest free

/-- Writes code for the items of the table in register `table`, of which `count` are done. -/
def Expr.emitItems (table count : Nat) : List Expr → Build Unit
  | [] => pure ()
  | e :: es => do
    let place := table + 1 + count % itemsAtOnce
    let _ ← e.emit place place
    if (count + 1) % itemsAtOnce = 0 || es.isEmpty then push (.fillTable table)
    Expr.emitItems table (count + 1) es

end

/-- Writes code for values that no one takes. -/
def emitSurplus : (free : Nat) → List Expr → Build Unit
  | _, [] => pure ()
  | free, e :: es => do
    let used ← e.emit free free
    emitSurplus (free + used) es

/-! ### Assignments -/

/-- A target whose table and key are in place. -/
inductive Destination where
  | inRegister (r : Nat)
  | asGlobal (name : Text)
  | inTable (table key : Nat)

/-- What is left to do when the value of a target is there. -/
inductive Store where
  | nothing
  /-- The value waits in a register. -/
  | move (r : Nat)
  | global (name : Text)
  /-- The value is an operand like the key. -/
  | entry (table key value : Nat)

/-- Puts the table and key of a target in place. Comes back with the next free register as well. -/
def Target.emit (free : Nat) : Target → Build (Destination × Nat)
  | .name n => do
    match (← get).register? n with
    | some r => return (.inRegister r, free)
    | none =>
      let _ ← intern (.string n)
      return (.asGlobal n, free)
  | .entry holder key => do
    let _ ← (Expr.name holder).emit free free
    let (table, free) ← settle true free
    let _ ← key.fold.emit free free
    return (.inTable table free, free + 1)

/-- Puts the tables and keys of targets in place, from the first to the last. -/
def emitTargets : (free : Nat) → List Target → Build (List Destination × Nat)
  | free, [] => return ([], free)
  | free, t :: ts => do
    let (d, free) ← t.emit free
    let (ds, free) ← emitTargets free ts
    return (d :: ds, free)

/-- Computes the value for a destination. -/
def Destination.emit (free : Nat) (value : Expr) : Destination → Build (Store × Nat)
  | .inRegister r => do
    let used ← value.emit r free
    return (if used = 0 then .nothing else .move r, free + used)
  | .asGlobal name => do
    let used ← value.emit free free
    return (.global name, free + used)
  | .inTable table key => do
    let _ ← value.emit free free
    let (operand, free) ← settle true free
    return (.entry table key operand, free)

/-- Computes the values for destinations, from the first to the last; a missing value is nil. -/
def emitValues : (free : Nat) → List Destination → List Expr → Build (List Store × Nat)
  | free, [], _ => return ([], free)
  | free, d :: ds, values => do
    let (s, free) ← d.emit free (values.headD .nil)
    let (ss, free) ← emitValues free ds values.tail
    return (s :: ss, free)

/-- Stores a value that waits in register `next`, and says in which one the next value waits. An
entry has its value with it, but counts as one that waited unless the value is a constant. -/
def Store.emit (next : Nat) : Store → Build Nat
  | .nothing => return next
  | .move r => do
    push (.move r next)
    return next - 1
  | .global name => do
    push (.storeGlobal name next)
    return next - 1
  | .entry table key value => do
    push (.storeEntry table (.ofOperand key) (.ofOperand value))
    match Place.ofOperand value with
    | .constant _ => return next
    | .register _ => return next - 1

/-- Makes the stores, from the last to the first. -/
def emitStores (next : Nat) : List Store → Build Nat
  | [] => return next
  | s :: ss => do s.emit (← emitStores next ss)

/-! ### Commands -/

/-- Writes code that puts values into registers one after the other. -/
def emitInto : (r : Nat) → List Expr → Build Unit
  | _, [] => pure ()
  | r, e :: es => do
    let _ ← e.emit r r
    emitInto (r + 1) es

/-- Writes code for a command. The names of a declaration are there only behind it. -/
def Command.emit : Command → Build Unit
  | .assign targets values => do
    let values := Expr.foldAll values
    let (destinations, free) ← emitTargets (← get).top targets
    let (stores, free) ← emitValues free destinations values
    emitSurplus free (values.drop targets.length)
    let _ ← emitStores (free - 1) stores
  | .declare names values => do
    let values := Expr.foldAll values
    let first := (← get).top
    let behind := first + names.length
    emitInto first (values.take names.length)
    if values.length < names.length then pushClear (first + values.length) (behind - 1)
    emitSurplus behind (values.drop names.length)
    modify fun d => { d with locals := names.reverse ++ d.locals }
  | .call callee entry arguments => do
    let function := (← get).top
    let _ ← (Expr.name callee).emit function function
    match entry with
    | none => pure ()
    | some name =>
      let _ ← intern (.string name)
      push (.loadEntry function function name)
    emitInto (function + 1) (Expr.foldAll arguments)
    push (.call function arguments.length)

/-- The code of a script, if its locals and its instructions make do with the registers there
are. -/
def compile? (commands : List Command) : Option Code :=
  let draft := (commands.forM Command.emit).run {} |>.2
  if draft.top ≤ registerCount && draft.instructions.all (fun i => i.highest < registerCount) then
    some ⟨draft.constants, draft.instructions.reverse⟩
  else none

end FlatAssembler.Script
