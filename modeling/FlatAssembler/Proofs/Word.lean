import FlatAssembler.LittleEndian
import Mathlib.Algebra.Group.Nat.Defs

/-!
# Words in a buffer

The laws of reading and writing a little-endian word at a position of a buffer.
A word is written into a window of four bytes: it is read back from there, words
in other windows and bytes outside are as before. Two buffers that agree on a
window hold the same word there, and a word determines the bytes of its window.
-/

namespace FlatAssembler.LittleEndian

/-- The windows of the words at the two positions have no byte in common. -/
def Apart (i j : Nat) : Prop := i + 4 ≤ j ∨ j + 4 ≤ i

theorem Apart.symm {i j : Nat} (h : Apart i j) : Apart j i := Or.symm h

/-! ### Bytes of a word -/

/-- Bits beyond the bytes are dropped. -/
theorem decode_encode (width n : Nat) : decode (encode width n) = n % 256 ^ width := by
  induction width generalizing n with
  | zero => simp [Nat.mod_one]
  | succ width ih =>
      have hbyte : (UInt8.ofNat n).toNat = n % 256 := UInt8.toNat_ofNat'
      rw [encode_succ, decode_cons, ih, hbyte, Nat.pow_succ', Nat.mod_mul]

theorem decode_encode_four (n : Nat) : decode (encode 4 n) = n % UInt32.size :=
  decode_encode 4 n

theorem ofNat_decode_encode_four (n : Nat) :
    UInt32.ofNat (decode (encode 4 n)) = UInt32.ofNat n := by
  rw [decode_encode_four]
  apply UInt32.toNat_inj.mp
  simp [UInt32.toNat_ofNat', UInt32.size]

/-- The bytes of a number of their own length are these bytes again. -/
theorem encode_decode (bytes : List UInt8) : encode bytes.length (decode bytes) = bytes := by
  induction bytes with
  | nil => rfl
  | cons b bs ih =>
      have hb : b.toNat < 256 := b.toNat_lt
      have hdiv : (b.toNat + 256 * decode bs) / 256 = decode bs := by omega
      have hmod : UInt8.ofNat (b.toNat + 256 * decode bs) = b := by
        apply UInt8.toNat_inj.mp
        rw [UInt8.toNat_ofNat']
        omega
      rw [List.length_cons, decode_cons, encode_succ, hdiv, hmod, ih]

theorem decode_lt {bytes : List UInt8} (h : bytes.length = 4) : decode bytes < UInt32.size := by
  match bytes, h with
  | [a, b, c, d], _ =>
      have ha := a.toNat_lt
      have hb := b.toNat_lt
      have hc := c.toNat_lt
      have hd := d.toNat_lt
      simp only [decode_cons, decode_nil, UInt32.size]
      omega

theorem eq_of_ofNat_decode_eq {bytes bytes' : List UInt8} (h : bytes.length = 4)
    (h' : bytes'.length = 4) (heq : UInt32.ofNat (decode bytes) = UInt32.ofNat (decode bytes')) :
    bytes = bytes' := by
  have hnat := congrArg UInt32.toNat heq
  rw [UInt32.toNat_ofNat_of_lt' (decode_lt h), UInt32.toNat_ofNat_of_lt' (decode_lt h')] at hnat
  rw [← encode_decode bytes, ← encode_decode bytes', h, h', hnat]

/-! ### Windows -/

theorem getElem?_patch (buffer : Array UInt8) (i : Nat) (bytes : List UInt8) (j : Nat) :
    (patch buffer i bytes)[j]? =
      if i ≤ j ∧ j < i + bytes.length ∧ j < buffer.size then bytes[j - i]? else buffer[j]? := by
  induction bytes generalizing buffer i with
  | nil =>
      have hno : ¬(i ≤ j ∧ j < i + ([] : List UInt8).length ∧ j < buffer.size) := by
        simp only [List.length_nil]
        omega
      rw [if_neg hno, patch]
  | cons b bs ih =>
      rw [patch, ih, Array.getElem?_setIfInBounds, Array.size_setIfInBounds, List.length_cons]
      rcases Nat.lt_trichotomy i j with hlt | rfl | hgt
      · have hsub : j - i = (j - (i + 1)) + 1 := by omega
        rw [if_neg (by omega : ¬i = j), hsub, List.getElem?_cons_succ]
        congr 1
        exact propext (by omega)
      · rw [if_neg (by omega : ¬(i + 1 ≤ i ∧ i < i + 1 + bs.length ∧ i < buffer.size)), if_pos rfl]
        by_cases hi : i < buffer.size
        · rw [if_pos hi, if_pos (by omega), Nat.sub_self, List.getElem?_cons_zero]
        · rw [if_neg hi, if_neg (by omega), Array.getElem?_eq_none (by omega)]
      · rw [if_neg (by omega), if_neg (by omega), if_neg (by omega)]

theorem getElem?_setWord_of_outside {buffer : Array UInt8} {i j : Nat} (word : UInt32)
    (h : ¬(i ≤ j ∧ j < i + 4)) : (setWord buffer i word)[j]? = buffer[j]? := by
  rw [setWord, getElem?_patch, length_encode, if_neg (by omega)]

theorem extract_congr {a b : Array UInt8} {i : Nat} (hsize : a.size = b.size)
    (h : ∀ j, i ≤ j → j < i + 4 → a[j]? = b[j]?) :
    a.extract i (i + 4) = b.extract i (i + 4) := by
  apply Array.ext_getElem?
  intro k
  rw [Array.getElem?_extract, Array.getElem?_extract, hsize]
  split
  · exact h _ (by omega) (by omega)
  · rfl

theorem wordAt_congr {a b : Array UInt8} {i : Nat} (hsize : a.size = b.size)
    (h : ∀ j, i ≤ j → j < i + 4 → a[j]? = b[j]?) : wordAt a i = wordAt b i := by
  rw [wordAt, wordAt, extract_congr hsize h]

theorem length_extract_four {a : Array UInt8} {i : Nat} (h : i + 4 ≤ a.size) :
    (a.extract i (i + 4)).toList.length = 4 := by
  rw [Array.length_toList, Array.size_extract]
  omega

/-- A word determines the bytes of its window. -/
theorem wordAt_eq_iff {a b : Array UInt8} {i : Nat} (ha : i + 4 ≤ a.size) (hb : i + 4 ≤ b.size) :
    wordAt a i = wordAt b i ↔ a.extract i (i + 4) = b.extract i (i + 4) := by
  constructor
  · intro h
    apply Array.toList_inj.mp
    exact eq_of_ofNat_decode_eq (length_extract_four ha) (length_extract_four hb) h
  · intro h
    rw [wordAt, wordAt, h]

theorem getElem?_of_wordAt_eq {a b : Array UInt8} {i j : Nat} (ha : i + 4 ≤ a.size)
    (hb : i + 4 ≤ b.size) (h : wordAt a i = wordAt b i) (hij : i ≤ j) (hji : j < i + 4) :
    a[j]? = b[j]? := by
  have hext := congrArg (·[j - i]?) ((wordAt_eq_iff ha hb).mp h)
  simp only [Array.getElem?_extract] at hext
  rw [if_pos (by omega), if_pos (by omega), show i + (j - i) = j by omega] at hext
  exact hext

/-! ### Reading behind writing -/

theorem wordAt_setWord_self {buffer : Array UInt8} {i : Nat} (word : UInt32)
    (h : i + 4 ≤ buffer.size) : wordAt (setWord buffer i word) i = word := by
  have hbytes : ((setWord buffer i word).extract i (i + 4)).toList = encode 4 word.toNat := by
    apply List.ext_getElem?
    intro k
    rw [Array.getElem?_toList, Array.getElem?_extract, size_setWord]
    by_cases hk : k < 4
    · rw [if_pos (by omega), setWord, getElem?_patch, length_encode, if_pos (by omega)]
      rw [show i + k - i = k by omega]
    · rw [if_neg (by omega), List.getElem?_eq_none (by rw [length_encode]; omega)]
  rw [wordAt, hbytes, ofNat_decode_encode_four, UInt32.ofNat_toNat]

theorem wordAt_setWord_of_apart {buffer : Array UInt8} {i j : Nat} (word : UInt32)
    (h : Apart i j) : wordAt (setWord buffer i word) j = wordAt buffer j := by
  apply wordAt_congr (size_setWord ..)
  intro k hjk hkj
  apply getElem?_setWord_of_outside
  rcases h with h | h <;> omega

/-! ### Reading behind appending -/

theorem size_append_list (buffer : Array UInt8) (bytes : List UInt8) :
    (buffer ++ bytes).size = buffer.size + bytes.length := by
  rw [← Array.length_toList, Array.toList_appendList, List.length_append, Array.length_toList]

theorem getElem?_append_of_lt {buffer : Array UInt8} (bytes : List UInt8) {i : Nat}
    (h : i < buffer.size) : (buffer ++ bytes)[i]? = buffer[i]? := by
  rw [← Array.getElem?_toList, Array.toList_appendList,
    List.getElem?_append_left (by rwa [Array.length_toList]), Array.getElem?_toList]

theorem getElem?_append_of_le {buffer : Array UInt8} (bytes : List UInt8) {i : Nat}
    (h : buffer.size ≤ i) : (buffer ++ bytes)[i]? = bytes[i - buffer.size]? := by
  rw [← Array.getElem?_toList, Array.toList_appendList,
    List.getElem?_append_right (by rwa [Array.length_toList]), Array.length_toList]

theorem wordAt_append_of_le {buffer : Array UInt8} {i : Nat} (bytes : List UInt8)
    (h : i + 4 ≤ buffer.size) : wordAt (buffer ++ bytes) i = wordAt buffer i := by
  have hext : ((buffer ++ bytes).extract i (i + 4)).toList =
      (buffer.extract i (i + 4)).toList := by
    rw [Array.toList_extract, Array.toList_extract, Array.toList_appendList,
      List.extract_eq_take_drop, List.extract_eq_take_drop,
      List.drop_append_of_le_length (by rw [Array.length_toList]; omega),
      List.take_append_of_le_length (by rw [List.length_drop, Array.length_toList]; omega)]
  rw [wordAt, wordAt, hext]

theorem wordAt_append_encode (buffer : Array UInt8) (n : Nat) :
    wordAt (buffer ++ encode 4 n) buffer.size = UInt32.ofNat n := by
  have hext : ((buffer ++ encode 4 n).extract buffer.size (buffer.size + 4)).toList =
      encode 4 n := by
    simp
  rw [wordAt, hext, ofNat_decode_encode_four]

end FlatAssembler.LittleEndian
