import FlatAssembler.Session.Basic

/-!
# Rebasing

The output of a session can be moved to another base address after it was assembled: every recorded
slot is read as a word, and its distance from the old base is added to the new one. A slot that was
recorded twice is moved twice. All slots are looked at before the first one is moved.
-/

namespace FlatAssembler

/-- A recorded slot that does not have four bytes of output. -/
structure SlotOutOfRange where
  slot : UInt32
  size : Nat
  deriving DecidableEq, Repr

/-- The slot in hexadecimal and the size in decimal. -/
def SlotOutOfRange.message (e : SlotOutOfRange) : Text :=
  Text.concat ["relocation slot out of range: slot at 0x", Text.hex 0 e.slot.toNat, ", buffer is ",
    Text.decimal e.size, " bytes"]

/-- A move that failed: the slot that is to blame, and the session as the move has left it. -/
structure FailedMove extends SlotOutOfRange where
  session : Session
  deriving DecidableEq, Repr

namespace Session

/-- Moves the word of one slot. -/
def moveSlot (old new : UInt32) (bytes : Array UInt8) (slot : UInt32) : Array UInt8 :=
  LittleEndian.setWord bytes slot.toNat
    (new + (LittleEndian.wordAt bytes slot.toNat - old))

/-- Encodes the output for another base. -/
def rebase (s : Session) (base : UInt32) : Except FailedMove Session :=
  if base = s.base then .ok s
  else match s.relocations.toList.find? fun slot => s.bytes.size < slot.toNat + 4 with
    | some slot => .error { slot, size := s.bytes.size, session := s }
    | none =>
      .ok { s with base, bytes := s.relocations.toList.foldl (moveSlot s.base base) s.bytes }

end Session

end FlatAssembler
