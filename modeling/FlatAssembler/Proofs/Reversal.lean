import FlatAssembler.Proofs.History
import Mathlib.Data.Nat.ModEq
import Mathlib.Tactic.LinearCombination
import Mathlib.Tactic.Ring

/-!
# Moving the output there and back

The windows of recorded slots may overlap, since a label in a byte or a half is
relocated as a word. A move adds the distance of the bases to one window after the
other, and what does not fit into a window is dropped at its end. Whether a second
move takes the first one back depends on these dropped carries and borrows, and on
nothing else.

The output is read as one number (`tail`), in which a window at `slot` counts by
`256 ^ slot`. Over a whole move the number changes by the distance at each slot, less
`2 ^ 32` at each slot that drops a carry (`tail_foldl_moveSlot`); on the way back the
same distance goes, and `2 ^ 32` comes at each slot that drops a borrow
(`tail_foldl_moveSlot_back`). So the output is restored if and only if both weigh the
same. All of this may begin at any byte that no window reaches across, which is how
single bytes are seen to be restored whatever is dropped behind them.
-/

namespace FlatAssembler.LittleEndian

/-! ### Buffers as numbers -/

theorem decode_append (bytes more : List UInt8) :
    decode (bytes ++ more) = decode bytes + 256 ^ bytes.length * decode more := by
  induction bytes with
  | nil => simp
  | cons b bs ih =>
      rw [List.cons_append, decode_cons, decode_cons, ih, List.length_cons]
      ring

theorem decode_lt_pow (bytes : List UInt8) : decode bytes < 256 ^ bytes.length := by
  induction bytes with
  | nil => simp
  | cons b bs ih =>
      have hb : b.toNat < 256 := b.toNat_lt
      rw [decode_cons, List.length_cons, pow_succ]
      omega

theorem decode_take (bytes : List UInt8) (k : Nat) :
    decode (bytes.take k) = decode bytes % 256 ^ k := by
  have hlt : decode (bytes.take k) < 256 ^ k :=
    Nat.lt_of_lt_of_le (decode_lt_pow _)
      (Nat.pow_le_pow_right (by decide) (List.length_take_le k bytes))
  rcases Nat.le_total k bytes.length with hk | hk
  · have hsplit := decode_append (bytes.take k) (bytes.drop k)
    rw [List.take_append_drop, List.length_take_of_le hk] at hsplit
    rw [hsplit, Nat.add_mul_mod_self_left, Nat.mod_eq_of_lt hlt]
  · rw [List.take_of_length_le hk] at hlt ⊢
    rw [Nat.mod_eq_of_lt hlt]

theorem eq_of_decode_eq {bytes bytes' : List UInt8} (hlength : bytes.length = bytes'.length)
    (h : decode bytes = decode bytes') : bytes = bytes' := by
  rw [← encode_decode bytes, ← encode_decode bytes', hlength, h]

/-- The bytes from a position on as one number. -/
def tail (buffer : Array UInt8) (start : Nat) : Nat := decode (buffer.toList.drop start)

theorem eq_of_tail_eq {a b : Array UInt8} (hsize : a.size = b.size) (h : tail a 0 = tail b 0) :
    a = b := by
  apply Array.toList_inj.mp
  apply eq_of_decode_eq
  · rw [Array.length_toList, Array.length_toList, hsize]
  · simpa [tail] using h

theorem toNat_wordAt {buffer : Array UInt8} {i : Nat} (h : i + 4 ≤ buffer.size) :
    (wordAt buffer i).toNat = decode (buffer.extract i (i + 4)).toList := by
  rw [wordAt, UInt32.toNat_ofNat_of_lt' (decode_lt (length_extract_four h))]

/-- A buffer around the window of a word. -/
theorem toList_eq_around (buffer : Array UInt8) (i : Nat) :
    buffer.toList =
      buffer.toList.take i ++
        ((buffer.extract i (i + 4)).toList ++ buffer.toList.drop (i + 4)) := by
  rw [Array.toList_extract, List.extract_eq_take_drop, Nat.add_sub_cancel_left,
    ← List.drop_drop, List.take_append_drop, List.take_append_drop]

theorem toList_setWord {buffer : Array UInt8} {i : Nat} (word : UInt32)
    (h : i + 4 ≤ buffer.size) :
    (setWord buffer i word).toList =
      buffer.toList.take i ++ (encode 4 word.toNat ++ buffer.toList.drop (i + 4)) := by
  have hbefore : (setWord buffer i word).toList.take i = buffer.toList.take i := by
    apply List.ext_getElem?
    intro k
    rw [List.getElem?_take, List.getElem?_take]
    split
    · rw [Array.getElem?_toList, Array.getElem?_toList]
      exact getElem?_setWord_of_outside word (by omega)
    · rfl
  have hbehind : (setWord buffer i word).toList.drop (i + 4) = buffer.toList.drop (i + 4) := by
    apply List.ext_getElem?
    intro k
    rw [List.getElem?_drop, List.getElem?_drop, Array.getElem?_toList, Array.getElem?_toList]
    exact getElem?_setWord_of_outside word (by omega)
  have hwindow : ((setWord buffer i word).extract i (i + 4)).toList = encode 4 word.toNat := by
    have hsize : i + 4 ≤ (setWord buffer i word).size := by
      rw [size_setWord]
      exact h
    apply eq_of_decode_eq
    · rw [length_extract_four hsize, length_encode]
    · rw [← toNat_wordAt hsize, wordAt_setWord_self word h, decode_encode_four,
        Nat.mod_eq_of_lt word.toNat_lt]
  rw [toList_eq_around (setWord buffer i word) i, hbefore, hbehind, hwindow]

/-- Writing a word exchanges its old value for the new one, at the weight of its
position. -/
theorem tail_setWord {buffer : Array UInt8} {start i : Nat} (word : UInt32) (hstart : start ≤ i)
    (h : i + 4 ≤ buffer.size) :
    tail (setWord buffer i word) start + 256 ^ (i - start) * (wordAt buffer i).toNat =
      tail buffer start + 256 ^ (i - start) * word.toNat := by
  have hlength : (buffer.toList.take i).length = i := by
    rw [List.length_take, Array.length_toList]
    omega
  have hdrop (rest : List UInt8) :
      decode ((buffer.toList.take i ++ rest).drop start) =
        decode ((buffer.toList.take i).drop start) + 256 ^ (i - start) * decode rest := by
    rw [List.drop_append_of_le_length (by omega), decode_append, List.length_drop, hlength]
  have hold : tail buffer start = decode ((buffer.toList.take i).drop start) + 256 ^ (i - start) *
      ((wordAt buffer i).toNat + 256 ^ 4 * decode (buffer.toList.drop (i + 4))) := by
    have haround := congrArg (fun bytes => decode (bytes.drop start)) (toList_eq_around buffer i)
    rw [hdrop, decode_append, length_extract_four h, ← toNat_wordAt h] at haround
    exact haround
  have hnew : tail (setWord buffer i word) start =
      decode ((buffer.toList.take i).drop start) + 256 ^ (i - start) *
        (word.toNat + 256 ^ 4 * decode (buffer.toList.drop (i + 4))) := by
    rw [tail, toList_setWord word h, hdrop, decode_append, length_encode, decode_encode_four,
      Nat.mod_eq_of_lt word.toNat_lt]
  rw [hold, hnew]
  ring

theorem tail_setWord_of_le {buffer : Array UInt8} {start i : Nat} (word : UInt32)
    (h : i + 4 ≤ start) : tail (setWord buffer i word) start = tail buffer start := by
  apply congrArg decode
  apply List.ext_getElem?
  intro k
  rw [List.getElem?_drop, List.getElem?_drop, Array.getElem?_toList, Array.getElem?_toList]
  exact getElem?_setWord_of_outside word (by omega)

/-- The byte behind `k` others is a digit of the number. -/
theorem getElem?_eq_of_tail_mod {a b : Array UInt8} {start i : Nat} (hsize : a.size = b.size)
    (hstart : start ≤ i) (h : tail a start ≡ tail b start [MOD 256 ^ (i + 1 - start)]) :
    a[i]? = b[i]? := by
  have htake : (a.toList.drop start).take (i + 1 - start) =
      (b.toList.drop start).take (i + 1 - start) := by
    apply eq_of_decode_eq
    · simp [hsize]
    · rw [decode_take, decode_take]
      exact h
  have hget := congrArg (·[i - start]?) htake
  simp only [List.getElem?_take, List.getElem?_drop, Array.getElem?_toList] at hget
  rw [if_pos (by omega), if_pos (by omega), show start + (i - start) = i by omega] at hget
  exact hget

end FlatAssembler.LittleEndian

namespace FlatAssembler.Session

open LittleEndian

/-! ### What a move drops -/

/-- The slots of a move that `drops` says something of when their turn comes. -/
def droppedBy (drops : UInt32 → Array UInt8 → Bool) (old new : UInt32) :
    List UInt32 → Array UInt8 → List UInt32
  | [], _ => []
  | slot :: rest, bytes =>
      (if drops slot bytes then [slot] else []) ++
        droppedBy drops old new rest (moveSlot old new bytes slot)

/-- The slots at which a move up from `old` to `new` drops a carry. -/
def carries (old new : UInt32) (slots : List UInt32) (bytes : Array UInt8) : List UInt32 :=
  droppedBy
    (fun slot bytes =>
      decide (UInt32.size ≤ (wordAt bytes slot.toNat).toNat + (new - old).toNat))
    old new slots bytes

/-- The slots at which a move down from `old` to `new` drops a borrow. -/
def borrows (old new : UInt32) (slots : List UInt32) (bytes : Array UInt8) : List UInt32 :=
  droppedBy
    (fun slot bytes => decide ((wordAt bytes slot.toNat).toNat < (old - new).toNat))
    old new slots bytes

/-- What slots count in the number that begins at `start`. -/
def weight (start : Nat) (slots : List UInt32) : Nat :=
  ((slots.filter fun slot => start ≤ slot.toNat).map fun slot => 256 ^ (slot.toNat - start)).sum

theorem weight_append (start : Nat) (slots more : List UInt32) :
    weight start (slots ++ more) = weight start slots + weight start more := by
  simp [weight]

theorem weight_cons (start : Nat) (slot : UInt32) (slots : List UInt32) :
    weight start (slot :: slots) = weight start [slot] + weight start slots :=
  weight_append start [slot] slots

theorem weight_singleton {start : Nat} {slot : UInt32} (h : start ≤ slot.toNat) :
    weight start [slot] = 256 ^ (slot.toNat - start) := by
  simp [weight, h]

theorem weight_singleton_of_lt {start : Nat} {slot : UInt32} (h : slot.toNat < start) :
    weight start [slot] = 0 := by
  simp [weight, h]

theorem mem_of_mem_droppedBy {drops : UInt32 → Array UInt8 → Bool} {old new slot : UInt32}
    {slots : List UInt32} {bytes : Array UInt8} (h : slot ∈ droppedBy drops old new slots bytes) :
    slot ∈ slots := by
  induction slots generalizing bytes with
  | nil => cases h
  | cons first rest ih =>
      rw [droppedBy] at h
      rcases List.mem_append.mp h with hfirst | hrest
      · split at hfirst
        · rw [List.mem_singleton.mp hfirst]
          exact List.mem_cons_self
        · cases hfirst
      · exact List.mem_cons_of_mem _ (ih hrest)

/-- Windows that reach beyond a byte drop nothing on this side of it. -/
theorem dvd_size_mul_weight (start i : Nat) {slots : List UInt32}
    (h : ∀ slot ∈ slots, slot.toNat + 4 ≤ start ∨ start ≤ slot.toNat ∧ i < slot.toNat + 4) :
    256 ^ (i + 1 - start) ∣ UInt32.size * weight start slots := by
  induction slots with
  | nil => simp [weight]
  | cons slot rest ih =>
      rw [weight_cons, Nat.mul_add]
      refine Nat.dvd_add ?_ (ih fun other hother => h other (List.mem_cons_of_mem _ hother))
      rcases h slot List.mem_cons_self with hbefore | ⟨hstart, hend⟩
      · rw [weight_singleton_of_lt (by omega), Nat.mul_zero]
        exact Nat.dvd_zero _
      · have hsize : UInt32.size = 256 ^ 4 := by decide
        rw [weight_singleton hstart, hsize, ← pow_add]
        exact pow_dvd_pow _ (by omega)

/-! ### The balance of a move -/

/-- What one slot adds to the number, with what it drops, adds up over a move. -/
theorem tail_foldl_of_step {drops : UInt32 → Array UInt8 → Bool} (old new : UInt32)
    {start : Nat} {gain drop : Int} {size : Nat}
    (hstep : ∀ slot : UInt32, ∀ bytes : Array UInt8, bytes.size = size → start ≤ slot.toNat →
      slot.toNat + 4 ≤ size →
      (tail (moveSlot old new bytes slot) start : Int) =
        tail bytes start + (gain + if drops slot bytes then drop else 0) *
          256 ^ (slot.toNat - start))
    {slots : List UInt32} {bytes : Array UInt8} (hsize : bytes.size = size)
    (hrange : ∀ slot ∈ slots, slot.toNat + 4 ≤ size)
    (hcut : ∀ slot ∈ slots, slot.toNat + 4 ≤ start ∨ start ≤ slot.toNat) :
    (tail (slots.foldl (moveSlot old new) bytes) start : Int) =
      tail bytes start + gain * weight start slots +
        drop * weight start (droppedBy drops old new slots bytes) := by
  induction slots generalizing bytes with
  | nil => simp [weight, droppedBy]
  | cons slot rest ih =>
      obtain ⟨hslot, hrest⟩ := List.forall_mem_cons.mp hrange
      obtain ⟨hslotCut, hrestCut⟩ := List.forall_mem_cons.mp hcut
      rw [List.foldl_cons, ih ((size_moveSlot ..).trans hsize) hrest hrestCut,
        weight_cons, droppedBy, weight_append]
      rcases hslotCut with hbefore | hstart
      · have htail : tail (moveSlot old new bytes slot) start = tail bytes start :=
          tail_setWord_of_le _ hbefore
        have hzero : weight start [slot] = 0 := weight_singleton_of_lt (by omega)
        have hdropped : weight start (if drops slot bytes then [slot] else []) = 0 := by
          split
          · exact hzero
          · rfl
        rw [htail, hzero, hdropped, Nat.zero_add, Nat.zero_add]
      · have hdropped : drop * (weight start (if drops slot bytes then [slot] else []) : Int) =
            (if drops slot bytes then drop else 0) * 256 ^ (slot.toNat - start) := by
          split
          · rw [weight_singleton hstart, Nat.cast_pow]
            rfl
          · simp [weight]
        rw [hstep slot bytes hsize hstart hslot, weight_singleton hstart]
        push_cast
        rw [mul_add drop, hdropped]
        ring

theorem tail_moveSlot {old new slot : UInt32} {start : Nat} {bytes : Array UInt8} {change : Int}
    (hstart : start ≤ slot.toNat) (h : slot.toNat + 4 ≤ bytes.size)
    (hchange : ((new + (wordAt bytes slot.toNat - old)).toNat : Int) =
      (wordAt bytes slot.toNat).toNat + change) :
    (tail (moveSlot old new bytes slot) start : Int) =
      tail bytes start + change * 256 ^ (slot.toNat - start) := by
  have hset := congrArg (Nat.cast : Nat → Int)
    (tail_setWord (new + (wordAt bytes slot.toNat - old)) hstart h)
  push_cast at hset
  rw [hchange] at hset
  rw [moveSlot]
  linear_combination hset

/-- On the way there a word gains the distance, less a carry. -/
theorem toNat_moved (old new word : UInt32) :
    ((new + (word - old)).toNat : Int) =
      word.toNat + ((new - old).toNat +
        if decide (UInt32.size ≤ word.toNat + (new - old).toNat) then -(UInt32.size : Int)
        else 0) := by
  have hcomm : new + (word - old) = word + (new - old) := by grind
  have hword := word.toNat_lt
  have hdistance := (new - old).toNat_lt
  rw [hcomm, UInt32.toNat_add]
  simp only [UInt32.size, decide_eq_true_eq]
  split <;> omega

/-- On the way back a word loses the distance, and gains a borrow. -/
theorem toNat_moved_back (old new word : UInt32) :
    ((new + (word - old)).toNat : Int) =
      word.toNat + (-((old - new).toNat : Int) +
        if decide (word.toNat < (old - new).toNat) then (UInt32.size : Int) else 0) := by
  have hcomm : new + (word - old) = word - (old - new) := by grind
  have hword := word.toNat_lt
  have hdistance := (old - new).toNat_lt
  rw [hcomm, UInt32.toNat_sub]
  simp only [UInt32.size, decide_eq_true_eq]
  split <;> omega

section Moves

variable (old new : UInt32) {slots : List UInt32} {bytes : Array UInt8} {start : Nat}
  (hrange : ∀ slot ∈ slots, slot.toNat + 4 ≤ bytes.size)
  (hcut : ∀ slot ∈ slots, slot.toNat + 4 ≤ start ∨ start ≤ slot.toNat)
include hrange hcut

theorem tail_foldl_moveSlot :
    (tail (slots.foldl (moveSlot old new) bytes) start : Int) =
      tail bytes start + (new - old).toNat * weight start slots -
        UInt32.size * weight start (carries old new slots bytes) := by
  have hmove := tail_foldl_of_step old new
    (fun slot b hsize hstart hend =>
      tail_moveSlot hstart (hsize ▸ hend) (toNat_moved old new (wordAt b slot.toNat)))
    (rfl : bytes.size = bytes.size) hrange hcut
  rw [hmove, carries]
  ring

theorem tail_foldl_moveSlot_back :
    (tail (slots.foldl (moveSlot old new) bytes) start : Int) =
      tail bytes start - (old - new).toNat * weight start slots +
        UInt32.size * weight start (borrows old new slots bytes) := by
  have hmove := tail_foldl_of_step old new
    (fun slot b hsize hstart hend =>
      tail_moveSlot hstart (hsize ▸ hend) (toNat_moved_back old new (wordAt b slot.toNat)))
    (rfl : bytes.size = bytes.size) hrange hcut
  rw [hmove, borrows]
  ring

/-- There and back again, only what was dropped is left. -/
theorem tail_foldl_moveSlot_foldl_moveSlot :
    (tail (slots.foldl (moveSlot new old) (slots.foldl (moveSlot old new) bytes)) start : Int) =
      tail bytes start +
        UInt32.size *
          weight start (borrows new old slots (slots.foldl (moveSlot old new) bytes)) -
        UInt32.size * weight start (carries old new slots bytes) := by
  have hsize : ∀ slot ∈ slots,
      slot.toNat + 4 ≤ (slots.foldl (moveSlot old new) bytes).size := by
    rw [size_foldl_moveSlot]
    exact hrange
  rw [tail_foldl_moveSlot_back new old hsize hcut, tail_foldl_moveSlot old new hrange hcut]
  ring

end Moves

/-! ### There and back -/

theorem rebase_cases {s t : Session} {base : UInt32} (h : s.rebase base = .ok t) :
    base = s.base ∧ t = s ∨
      base ≠ s.base ∧ (∀ slot ∈ s.relocations.toList, slot.toNat + 4 ≤ s.bytes.size) ∧
        t = { s with
          base, bytes := s.relocations.toList.foldl (moveSlot s.base base) s.bytes } := by
  rw [rebase] at h
  split at h
  · rename_i hbase
    cases h
    exact Or.inl ⟨hbase, rfl⟩
  · rename_i hbase
    split at h
    · cases h
    · rename_i hfind
      cases h
      refine Or.inr ⟨hbase, ?_, rfl⟩
      intro slot hslot
      have hnot := List.find?_eq_none.mp hfind slot hslot
      simp only [decide_eq_true_eq] at hnot
      omega

/-- The way back is open, since a move leaves the size and the slots alone. -/
theorem exists_rebase_back {s : Session}
    (hrange : ∀ slot ∈ s.relocations.toList, slot.toNat + 4 ≤ s.bytes.size) (base : UInt32) :
    ∃ u, { s with
        base
        bytes := s.relocations.toList.foldl (moveSlot s.base base) s.bytes }.rebase s.base =
      .ok u := by
  apply exists_rebase_eq_ok
  intro slot hslot
  rw [size_foldl_moveSlot]
  exact hrange slot (Array.mem_toList_iff.mpr hslot)

theorem droppedBy_eq_nil {drops : UInt32 → Array UInt8 → Bool}
    (h : ∀ slot bytes, drops slot bytes = false) (old new : UInt32) (slots : List UInt32)
    (bytes : Array UInt8) : droppedBy drops old new slots bytes = [] := by
  induction slots generalizing bytes with
  | nil => rfl
  | cons slot rest ih => simp [droppedBy, h, ih]

theorem carries_self (base : UInt32) (slots : List UInt32) (bytes : Array UInt8) :
    carries base base slots bytes = [] := by
  apply droppedBy_eq_nil
  intro slot buffer
  have hword := (wordAt buffer slot.toNat).toNat_lt
  simpa using hword

theorem borrows_self (base : UInt32) (slots : List UInt32) (bytes : Array UInt8) :
    borrows base base slots bytes = [] := by
  apply droppedBy_eq_nil
  simp

/-- The byte stands behind a place that no window reaches across, and every window
that begins between the two reaches beyond the byte. -/
def IsSheltered (slots : List UInt32) (i : Nat) : Prop :=
  ∃ start ≤ i, ∀ slot ∈ slots,
    slot.toNat + 4 ≤ start ∨ start ≤ slot.toNat ∧ i < slot.toNat + 4

theorem isSheltered_of_apart {slots : List UInt32}
    (h : ∀ a ∈ slots, ∀ b ∈ slots, a = b ∨ Apart a.toNat b.toNat) (i : Nat) :
    IsSheltered slots i := by
  by_cases hwindow : ∃ slot ∈ slots, slot.toNat ≤ i ∧ i < slot.toNat + 4
  · obtain ⟨slot, hslot, hle, hlt⟩ := hwindow
    refine ⟨slot.toNat, hle, ?_⟩
    intro other hother
    rcases h other hother slot hslot with rfl | hbefore | hafter
    · exact Or.inr ⟨Nat.le_refl _, hlt⟩
    · exact Or.inl hbefore
    · exact Or.inr ⟨by omega, by omega⟩
  · refine ⟨i, Nat.le_refl i, ?_⟩
    intro slot hslot
    have hnot : ¬(slot.toNat ≤ i ∧ i < slot.toNat + 4) := fun hin => hwindow ⟨slot, hslot, hin⟩
    omega

section Back

variable (old new : UInt32) {slots : List UInt32} {bytes : Array UInt8}
  (hrange : ∀ slot ∈ slots, slot.toNat + 4 ≤ bytes.size)
include hrange

theorem getElem?_foldl_moveSlot_foldl_moveSlot {i : Nat} (h : IsSheltered slots i) :
    (slots.foldl (moveSlot new old) (slots.foldl (moveSlot old new) bytes))[i]? = bytes[i]? := by
  obtain ⟨start, hstart, hslots⟩ := h
  have hcut : ∀ slot ∈ slots, slot.toNat + 4 ≤ start ∨ start ≤ slot.toNat :=
    fun slot hslot => (hslots slot hslot).imp_right And.left
  have hbalance := tail_foldl_moveSlot_foldl_moveSlot old new hrange hcut
  have hcarries : 256 ^ (i + 1 - start) ∣
      UInt32.size * weight start (carries old new slots bytes) :=
    dvd_size_mul_weight start i fun slot hslot => hslots slot (mem_of_mem_droppedBy hslot)
  have hborrows : 256 ^ (i + 1 - start) ∣
      UInt32.size *
        weight start (borrows new old slots (slots.foldl (moveSlot old new) bytes)) :=
    dvd_size_mul_weight start i fun slot hslot => hslots slot (mem_of_mem_droppedBy hslot)
  apply getElem?_eq_of_tail_mod (by rw [size_foldl_moveSlot, size_foldl_moveSlot]) hstart
  apply Nat.modEq_iff_dvd.mpr
  have hdiff := Int.dvd_sub (Int.natCast_dvd_natCast.mpr hcarries)
    (Int.natCast_dvd_natCast.mpr hborrows)
  rw [hbalance]
  push_cast at hdiff ⊢
  convert hdiff using 1
  ring

theorem foldl_moveSlot_foldl_moveSlot_eq_iff :
    slots.foldl (moveSlot new old) (slots.foldl (moveSlot old new) bytes) = bytes ↔
      weight 0 (carries old new slots bytes) =
        weight 0 (borrows new old slots (slots.foldl (moveSlot old new) bytes)) := by
  have hbalance := tail_foldl_moveSlot_foldl_moveSlot old new hrange
    fun slot _ => Or.inr (Nat.zero_le slot.toNat)
  have hsize : (slots.foldl (moveSlot new old) (slots.foldl (moveSlot old new) bytes)).size =
      bytes.size := by
    rw [size_foldl_moveSlot, size_foldl_moveSlot]
  simp only [UInt32.size] at hbalance
  constructor
  · intro heq
    rw [heq] at hbalance
    omega
  · intro heq
    rw [heq] at hbalance
    exact eq_of_tail_eq hsize (by omega)

end Back

/-- A move that succeeds can be followed by a move back, and then every byte is as
before that is sheltered, so all of them if no two different slots overlap. In any
case the whole session is as before if and only if the slots that drop a carry on the
way there weigh as much as those that drop a borrow on the way back. -/
theorem rebase_back_eq_iff (s t : Session) (base : UInt32) (h : s.rebase base = .ok t) :
    ∃ u, t.rebase s.base = .ok u ∧
      (∀ i, IsSheltered s.relocations.toList i → u.bytes[i]? = s.bytes[i]?) ∧
      ((∀ a ∈ s.relocations, ∀ b ∈ s.relocations, a = b ∨ Apart a.toNat b.toNat) → u = s) ∧
      (u = s ↔
        weight 0 (carries s.base base s.relocations.toList s.bytes) =
          weight 0 (borrows base s.base s.relocations.toList t.bytes)) := by
  rcases rebase_cases h with ⟨rfl, rfl⟩ | ⟨hbase, hrange, rfl⟩
  · exact ⟨t, h, fun _ _ => rfl, fun _ => rfl, by simp [carries_self, borrows_self]⟩
  · obtain ⟨u, hu⟩ := exists_rebase_back hrange base
    rcases rebase_cases hu with ⟨hsame, -⟩ | ⟨-, -, rfl⟩
    · exact absurd hsame.symm hbase
    have hrestored : ∀ bytes : Array UInt8, { s with bytes } = s ↔ bytes = s.bytes :=
      fun bytes => ⟨congrArg Session.bytes, fun hbytes => by rw [hbytes]⟩
    have hshelter : ∀ i, IsSheltered s.relocations.toList i → _ = s.bytes[i]? :=
      fun i => getElem?_foldl_moveSlot_foldl_moveSlot s.base base hrange
    refine ⟨_, hu, hshelter, ?_, ?_⟩
    · intro hapart
      apply (hrestored _).mpr
      apply Array.ext_getElem?
      intro i
      apply hshelter
      apply isSheltered_of_apart
      intro a ha b hb
      exact hapart a (Array.mem_toList_iff.mp ha) b (Array.mem_toList_iff.mp hb)
    · rw [hrestored]
      exact foldl_moveSlot_foldl_moveSlot_eq_iff s.base base hrange

/-- The windows of two bytes overlap, and the second of them drops a carry at the end
of the address space. It drops a borrow on the way back. -/
theorem rebase_back_eq_iff_bytes :
    let s := ({ base := 0xFFFFFF00 } : Session).operateAll {}
      [.loadSource "m.s" "L: .byte L,L,0xFF,0xFF,0xFF"]
    ∃ t u, s.rebase 0 = .ok t ∧ t.bytes = #[0, 1, 0, 0, 0] ∧ t.rebase s.base = .ok u ∧
      carries s.base 0 s.relocations.toList s.bytes = [1] ∧ u = s := by
  intro s
  have hs : s.rebase 0 = .ok (s.operate {} (.rebase 0)).1 := rebase_of_operate (by decide +kernel)
  obtain ⟨u, hu, -, -, hrestored⟩ := rebase_back_eq_iff s _ 0 hs
  exact ⟨_, u, hs, by decide +kernel, hu, by decide +kernel, hrestored.mpr (by decide +kernel)⟩

/-- It need not be one slot that drops both. Here the first of two overlapping windows
drops the carry and the second the borrow, and the last byte, which was 0, ends as 255. -/
theorem not_forall_rebase_back_eq :
    ¬∀ (fs : FileSystem) (base : UInt32) (constants : Constants) (loads : List Operation),
      (∀ load ∈ loads, load.isLoad = true) →
      Always fs (Succeeds fs) { base, constants } loads →
      let s := ({ base, constants } : Session).operateAll fs loads
      ∀ new t, s.rebase new = .ok t → ∃ u, t.rebase s.base = .ok u ∧ u.bytes = s.bytes := by
  intro h
  let s := ({} : Session).operateAll {} [.loadSource "m.s" "L: .byte L,L+0xF0,0xFF,0xFF,0"]
  have hs : s.rebase 4096 = .ok (s.operate {} (.rebase 4096)).1 :=
    rebase_of_operate (by decide +kernel)
  obtain ⟨u, hu, hbytes⟩ := h {} 0 [] [.loadSource "m.s" "L: .byte L,L+0xF0,0xFF,0xFF,0"]
    (by decide) (by decide +kernel) 4096 _ hs
  have hback : (s.operateAll {} [.rebase 4096, .rebase s.base]).bytes =
      #[0, 240, 255, 255, 255] := by
    decide +kernel
  rw [operateAll_cons, operateAll_cons, operate_rebase_of_ok hs, operate_rebase_of_ok hu] at hback
  rw [show u.bytes = _ from hback] at hbytes
  revert hbytes
  decide +kernel

end FlatAssembler.Session
