/-!
# Little-endian bytes

A number in a slot of fixed width: the low eight bits come first, and bits beyond the slot are
dropped. Slots of a buffer are overwritten in place by `patch`.
-/

namespace FlatAssembler.LittleEndian

/-- The `width` low bytes of `n`, the least significant one first. -/
def encode : Nat → Nat → List UInt8
  | 0, _ => []
  | width + 1, n => UInt8.ofNat n :: encode width (n / 256)

/-- The number with these bytes. -/
def decode : List UInt8 → Nat
  | [] => 0
  | b :: bs => b.toNat + 256 * decode bs

/-- The buffer with `bytes` in place of those from position `i` on. -/
def patch (buffer : Array UInt8) (i : Nat) : List UInt8 → Array UInt8
  | [] => buffer
  | b :: bs => patch (buffer.setIfInBounds i b) (i + 1) bs

/-- The 32-bit word whose four bytes start at position `i`. -/
def wordAt (buffer : Array UInt8) (i : Nat) : UInt32 :=
  UInt32.ofNat (decode (buffer.extract i (i + 4)).toList)

/-- The buffer with this word at position `i`. -/
def setWord (buffer : Array UInt8) (i : Nat) (word : UInt32) : Array UInt8 :=
  patch buffer i (encode 4 word.toNat)

@[simp] theorem encode_zero (n : Nat) : encode 0 n = [] := rfl

@[simp] theorem encode_succ (width n : Nat) :
    encode (width + 1) n = UInt8.ofNat n :: encode width (n / 256) := rfl

@[simp] theorem decode_nil : decode [] = 0 := rfl

@[simp] theorem decode_cons (b : UInt8) (bs : List UInt8) :
    decode (b :: bs) = b.toNat + 256 * decode bs := rfl

@[simp] theorem length_encode (width n : Nat) : (encode width n).length = width := by
  induction width generalizing n with
  | zero => rfl
  | succ width ih => simp [ih]

@[simp] theorem size_patch (buffer : Array UInt8) (i : Nat) (bytes : List UInt8) :
    (patch buffer i bytes).size = buffer.size := by
  induction bytes generalizing buffer i with
  | nil => rfl
  | cons b bs ih => simp [patch, ih]

@[simp] theorem size_setWord (buffer : Array UInt8) (i : Nat) (word : UInt32) :
    (setWord buffer i word).size = buffer.size := by
  simp [setWord]

end FlatAssembler.LittleEndian
