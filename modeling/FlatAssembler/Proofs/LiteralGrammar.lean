import FlatAssembler.Literal
import FlatAssembler.Text.Numeral
import Mathlib.Data.Bool.AllAny
import Mathlib.Data.List.Induction
import Mathlib.Data.Nat.Digits.Defs

/-!
# The grammar of literals

A literal is read in two steps. `Literal.parse?` looks at the shape of a text and at
nothing else, so a numeral of any length is a literal, and `parse?_eq_some_iff` says that
the literals are the texts that are written for them. `Literal.value` then asks whether
64 bits hold the number.

The shapes and the number of a numeral are described here once more without the reader.
`IsHexadecimal` and `IsDecimal` speak of a row of digits from which those of the numeral
are taken; the number is the positional one, `magnitude`, and the digits count by their
place in the row from `0` to `f`. `literal_grammar` joins the two, and says that a number
that is written in either way is read back as this number.
-/

namespace FlatAssembler

namespace Sign

@[simp] theorem ofChar?_toChar (sign : Sign) : ofChar? sign.toChar = some sign := by
  cases sign <;> rfl

theorem toChar_of_ofChar? {c : Char} {sign : Sign} (h : ofChar? c = some sign) :
    sign.toChar = c := by
  rw [ofChar?] at h
  split at h
  · rename_i hc
    cases h
    exact hc.symm
  · split at h
    · rename_i hc
      cases h
      exact hc.symm
    · cases h

end Sign

namespace Literal

/-! ### Digits -/

/-- The ten decimal digits. -/
def decimalDigits : List Char := "0123456789".toList

/-- The hexadecimal digits, with letters of either case. -/
def hexadecimalDigits : List Char := "0123456789abcdefABCDEF".toList

/-- Where a digit stands in the row from `0` to `f`; the case of a letter does not count. -/
def place (c : Char) : Nat := "0123456789abcdef".toList.idxOf c.toLower

/-- The number that is written with these digits. -/
def magnitude (base : Nat) (digits : List Char) : Nat :=
  Nat.ofDigits base (digits.map place).reverse

theorem isHexDigit_iff (c : Char) : isHexDigit c = true ↔ c ∈ hexadecimalDigits := by
  have hascii : ∀ n < 128, isHexDigit (Char.ofNat n) = true → Char.ofNat n ∈ hexadecimalDigits := by
    decide +kernel
  constructor
  · intro h
    have hlt : c.toNat < 128 := by
      simp only [isHexDigit, isDecimalDigit, Bool.or_eq_true, Bool.and_eq_true, decide_eq_true_eq,
        Char.le_def, UInt32.le_iff_toNat_le] at h
      have ht : c.toNat = c.val.toNat := rfl
      rcases h with (⟨-, h⟩ | ⟨-, h⟩) | ⟨-, h⟩
      all_goals
        refine Nat.lt_of_le_of_lt h ?_
        decide
    rw [← Char.ofNat_toNat c] at h ⊢
    exact hascii c.toNat hlt h
  · intro h
    have hall : ∀ d ∈ hexadecimalDigits, isHexDigit d = true :=
      List.all_iff_forall_prop.mp (by decide)
    exact hall c h

theorem isDecimalDigit_iff (c : Char) : isDecimalDigit c = true ↔ c ∈ decimalDigits := by
  constructor
  · intro h
    have hhex : isHexDigit c = true := by simp [isHexDigit, h]
    have hall : ∀ d ∈ hexadecimalDigits, isDecimalDigit d = true → d ∈ decimalDigits :=
      List.all_iff_forall_prop.mp (by decide)
    exact hall c ((isHexDigit_iff c).mp hhex) h
  · intro h
    have hall : ∀ d ∈ decimalDigits, isDecimalDigit d = true :=
      List.all_iff_forall_prop.mp (by decide)
    exact hall c h

theorem digitValue_eq_place : ∀ c ∈ hexadecimalDigits, digitValue c = place c :=
  List.all_iff_forall_prop.mp (by decide)

theorem ofDigits_append_singleton (base : Nat) (digits : List Char) (c : Char) :
    ofDigits base (digits ++ [c]) = ofDigits base digits * base + digitValue c := by
  simp [ofDigits]

theorem ofDigits_eq_magnitude (base : Nat) {digits : List Char}
    (h : ∀ c ∈ digits, c ∈ hexadecimalDigits) : ofDigits base digits = magnitude base digits := by
  induction digits using List.reverseRecOn with
  | nil => rfl
  | append_singleton digits c ih =>
      obtain ⟨hdigits, hc⟩ : (∀ d ∈ digits, d ∈ hexadecimalDigits) ∧ c ∈ hexadecimalDigits := by
        simpa [or_imp, forall_and] using h
      rw [ofDigits_append_singleton, ih hdigits, digitValue_eq_place c hc, magnitude, magnitude,
        List.map_append, List.map_singleton, List.reverse_append, List.reverse_singleton,
        List.singleton_append, Nat.ofDigits_cons, Nat.add_comm, Nat.mul_comm]

/-! ### Numerals -/

/-- The digits of a numeral are digits, and they are those of the number. -/
theorem toDigits_digits (base : Nat) (hbase : 1 < base) (hle : base ≤ 16) (n : Nat) :
    (∀ c ∈ Nat.toDigits base n, ∃ d < base, c = Nat.digitChar d) ∧
      ofDigits base (Nat.toDigits base n) = n := by
  have hvalue : ∀ d < 16, digitValue (Nat.digitChar d) = d := by decide
  induction n using Nat.strong_induction_on with
  | _ n ih =>
      rw [Nat.toDigits_eq_if hbase]
      split
      · rename_i hlt
        refine ⟨fun c hc => ⟨n, hlt, List.mem_singleton.mp hc⟩, ?_⟩
        simpa [ofDigits] using hvalue n (by omega)
      · rename_i hge
        have hmod : n % base < base := Nat.mod_lt n (by omega)
        obtain ⟨hdigits, heq⟩ := ih (n / base) (Nat.div_lt_self (by omega) hbase)
        refine ⟨fun c hc => ?_, ?_⟩
        · rcases List.mem_append.mp hc with hc | hc
          · exact hdigits c hc
          · exact ⟨n % base, hmod, List.mem_singleton.mp hc⟩
        · rw [ofDigits_append_singleton, heq, hvalue _ (by omega), Nat.mul_comm, Nat.div_add_mod]

theorem toDigits_ne_nil (base n : Nat) : Nat.toDigits base n ≠ [] :=
  List.ne_nil_of_length_pos Nat.length_toDigits_pos

/-! ### Shapes -/

/-- One or more digits of a row. -/
def IsNumeral (row digits : List Char) : Prop := digits ≠ [] ∧ ∀ c ∈ digits, c ∈ row

/-- The text is `0x` and hexadecimal digits, which write the number. -/
def IsHexadecimal (s : List Char) (number : Int) : Prop :=
  ∃ digits, IsNumeral hexadecimalDigits digits ∧ s = '0' :: 'x' :: digits ∧
    number = magnitude 16 digits

/-- The text is a sign or none and decimal digits, which write the number. -/
def IsDecimal (s : List Char) (number : Int) : Prop :=
  ∃ digits, IsNumeral decimalDigits digits ∧
    (s = digits ∧ number = magnitude 10 digits ∨
      s = '+' :: digits ∧ number = magnitude 10 digits ∨
      s = '-' :: digits ∧ number = -(magnitude 10 digits : Int))

theorem areDigits_iff {isDigit : Char → Bool} {row : List Char}
    (h : ∀ c, isDigit c = true ↔ c ∈ row) (digits : List Char) :
    areDigits isDigit digits = true ↔ IsNumeral row digits := by
  simp [areDigits, IsNumeral, h]

theorem mem_hexadecimalDigits_of_mem : ∀ c ∈ decimalDigits, c ∈ hexadecimalDigits :=
  List.all_iff_forall_prop.mp (by decide)

theorem IsNumeral.ofDigits_eq {digits : List Char} (h : IsNumeral decimalDigits digits) :
    ofDigits 10 digits = magnitude 10 digits :=
  ofDigits_eq_magnitude 10 fun c hc => mem_hexadecimalDigits_of_mem c (h.2 c hc)

theorem parse?_sign_cons (sign : Sign) (cs : List Char) :
    parse? (sign.toChar :: cs) = decimal? (some sign) cs := by
  cases sign <;> rfl

theorem parse?_of_areDigits {digits : List Char} (h : areDigits isDecimalDigit digits = true) :
    parse? digits = some (.decimal none digits) := by
  have hnone : ∀ d ∈ decimalDigits, Sign.ofChar? d = none :=
    List.all_iff_forall_prop.mp (by decide)
  obtain ⟨hne, hmem⟩ := (areDigits_iff isDecimalDigit_iff digits).mp h
  obtain ⟨c, rest, rfl⟩ := List.exists_cons_of_ne_nil hne
  have hsign : Sign.ofChar? c = none := hnone c (hmem c List.mem_cons_self)
  rw [parse?]
  · rw [hsign, decimal?, if_pos h]
  · rintro digits' rfl hx
    have hmem' := hmem 'x' (by simp [hx])
    revert hmem'
    decide

/-- The digits of a literal are those of its kind. -/
def HasDigits : Literal → Prop
  | .hex digits => areDigits isHexDigit digits = true
  | .decimal _ digits => areDigits isDecimalDigit digits = true

theorem decimal?_eq_some_iff {sign : Option Sign} {digits : List Char} {l : Literal} :
    decimal? sign digits = some l ↔
      areDigits isDecimalDigit digits = true ∧ l = .decimal sign digits := by
  rw [decimal?, Option.ite_none_right_eq_some, Option.some.injEq, @eq_comm _ l]

/-- The literals are the texts of literals with digits of their kind. -/
theorem parse?_eq_some_iff {s : List Char} {l : Literal} :
    parse? s = some l ↔ l.chars = s ∧ l.HasDigits := by
  constructor
  · intro h
    unfold parse? at h
    split at h
    · split at h
      · rename_i hdigits
        cases h
        exact ⟨rfl, hdigits⟩
      · cases h
    · cases h
    · split at h
      · rename_i sign hsign
        obtain ⟨hdigits, rfl⟩ := decimal?_eq_some_iff.mp h
        exact ⟨by rw [chars, Sign.toChar_of_ofChar? hsign], hdigits⟩
      · obtain ⟨hdigits, rfl⟩ := decimal?_eq_some_iff.mp h
        exact ⟨rfl, hdigits⟩
  · rintro ⟨rfl, h⟩
    cases l with
    | hex digits =>
      have hdigits : areDigits isHexDigit digits = true := h
      simp [chars, parse?, hdigits]
    | decimal sign digits =>
      cases sign with
      | none => exact parse?_of_areDigits h
      | some sign => exact (parse?_sign_cons sign digits).trans (decimal?_eq_some_iff.mpr ⟨h, rfl⟩)

theorem isHexadecimal_iff {s : List Char} {number : Int} :
    IsHexadecimal s number ↔
      ∃ digits, parse? s = some (.hex digits) ∧ (Literal.hex digits).number = number := by
  constructor
  · rintro ⟨digits, hdigits, rfl, rfl⟩
    have hall := (areDigits_iff isHexDigit_iff digits).mpr hdigits
    refine ⟨digits, parse?_eq_some_iff.mpr ⟨rfl, hall⟩, ?_⟩
    rw [Literal.number, ofDigits_eq_magnitude 16 hdigits.2]
  · rintro ⟨digits, h, rfl⟩
    obtain ⟨rfl, hdigits⟩ := parse?_eq_some_iff.mp h
    have hnumeral := (areDigits_iff isHexDigit_iff digits).mp hdigits
    refine ⟨digits, hnumeral, rfl, ?_⟩
    rw [Literal.number, ofDigits_eq_magnitude 16 hnumeral.2]

theorem isDecimal_iff {s : List Char} {number : Int} :
    IsDecimal s number ↔ ∃ sign digits, parse? s = some (.decimal sign digits) ∧
      (Literal.decimal sign digits).number = number := by
  constructor
  · rintro ⟨digits, hdigits, hs⟩
    have hparse (sign : Option Sign) :
        parse? (Literal.decimal sign digits).chars = some (.decimal sign digits) :=
      parse?_eq_some_iff.mpr ⟨rfl, (areDigits_iff isDecimalDigit_iff digits).mpr hdigits⟩
    have hvalue := hdigits.ofDigits_eq
    rcases hs with ⟨rfl, rfl⟩ | ⟨rfl, rfl⟩ | ⟨rfl, rfl⟩
    · exact ⟨none, _, hparse none, by simp [Literal.number, hvalue]⟩
    · exact ⟨some .plus, _, hparse (some .plus), by simp [Literal.number, hvalue]⟩
    · exact ⟨some .minus, _, hparse (some .minus), by simp [Literal.number, hvalue]⟩
  · rintro ⟨sign, digits, h, rfl⟩
    obtain ⟨rfl, hdigits⟩ := parse?_eq_some_iff.mp h
    have hnumeral := (areDigits_iff isDecimalDigit_iff digits).mp hdigits
    have hvalue := hnumeral.ofDigits_eq
    refine ⟨digits, hnumeral, ?_⟩
    rcases sign with _ | _ | _
    · exact Or.inl ⟨rfl, by simp [Literal.number, hvalue]⟩
    · exact Or.inr (Or.inl ⟨rfl, by simp [Literal.number, hvalue]⟩)
    · exact Or.inr (Or.inr ⟨rfl, by simp [Literal.number, hvalue]⟩)

/-! ### Values -/

/-- There is a value, which is this number, if the condition holds, and otherwise a failure
of the class of definition errors. -/
structure ComesTo (outcome : Option (Except Cause Int64)) (fits : Prop) (number : Int) : Prop where
  ok : fits → ∃ v, outcome = some (.ok v) ∧ v.toInt = number
  error : ¬fits → ∃ cause, outcome = some (.error cause) ∧ cause.kind = .definition

/-- Hexadecimal digits name the bits of a number in two's complement. -/
theorem comesTo_hex (digits : List Char) :
    let number := (Literal.hex digits).number
    ComesTo (some (Literal.hex digits).value) (number < 2 ^ 64)
      (if number < 2 ^ 63 then number else number - 2 ^ 64) := by
  intro number
  have hnonneg : 0 ≤ number := Int.natCast_nonneg _
  have hbound : unsignedBound = 2 ^ 64 := by decide
  rw [value, hbound]
  constructor
  · intro hlt
    refine ⟨Int64.ofInt number, congrArg some (if_pos hlt), ?_⟩
    have hsize : (Int64.size : Int) = 2 ^ 64 := rfl
    rw [Int64.toInt_ofInt, Int.bmod_def, hsize]
    split <;> split <;> omega
  · intro hge
    exact ⟨_, congrArg some (if_neg hge), rfl⟩

/-- Decimal digits name a number. -/
theorem comesTo_decimal (sign : Option Sign) (digits : List Char) :
    let number := (Literal.decimal sign digits).number
    ComesTo (some (Literal.decimal sign digits).value) (-2 ^ 63 ≤ number ∧ number < 2 ^ 63)
      number := by
  intro number
  have hbound : signedBound = 2 ^ 63 := by decide
  rw [value, hbound]
  constructor
  · intro hrange
    exact ⟨Int64.ofInt number, congrArg some (if_pos hrange),
      Int64.toInt_ofInt_of_le hrange.1 hrange.2⟩
  · intro hrange
    exact ⟨_, congrArg some (if_neg hrange), rfl⟩

theorem read?_eq_some_iff {text : Text} {v : Int64} :
    read? text = some v ↔ (parse? text.unspaced).map value = some (.ok v) := by
  rw [read?]
  cases parse? text.unspaced with
  | none => simp
  | some l => cases h : l.value <;> simp [h, Except.toOption]

/-! ### Writing and reading back -/

theorem isBlank_of_mem_digits : ∀ c ∈ hexadecimalDigits, isBlank c = false :=
  List.all_iff_forall_prop.mp (by decide)

theorem read?_of_isHexadecimal {s : List Char} {v : Int64}
    (h : IsHexadecimal s (v.toInt % 2 ^ 64)) : read? (Text.ofChars s) = some v := by
  obtain ⟨digits, hparse, hnumber⟩ := isHexadecimal_iff.mp h
  have hblank : ∀ c ∈ s, isBlank c = false := by
    obtain ⟨digits, ⟨-, hdigits⟩, rfl, -⟩ := h
    have hfront : isBlank '0' = false ∧ isBlank 'x' = false := by decide
    simpa [hfront] using fun c hc => isBlank_of_mem_digits c (hdigits c hc)
  rw [read?_eq_some_iff, Text.unspaced_ofChars, withoutBlanks_eq_self hblank, hparse,
    Option.map_some]
  have hle := v.le_toInt
  have hlt := v.toInt_lt
  obtain ⟨w, hw, hbits⟩ := (comesTo_hex digits).ok (by omega)
  have hsame : w = v := by
    apply Int64.toInt_inj.mp
    rw [hbits, hnumber]
    split <;> omega
  rw [hw, hsame]

theorem read?_of_isDecimal {s : List Char} {v : Int64} (h : IsDecimal s v.toInt) :
    read? (Text.ofChars s) = some v := by
  obtain ⟨sign, digits, hparse, hnumber⟩ := isDecimal_iff.mp h
  have hblank : ∀ c ∈ s, isBlank c = false := by
    obtain ⟨digits, ⟨-, hdigits⟩, hs⟩ := h
    have hsigns : isBlank '+' = false ∧ isBlank '-' = false := by decide
    have hsolid : ∀ c ∈ digits, isBlank c = false := fun c hc =>
      isBlank_of_mem_digits c (mem_hexadecimalDigits_of_mem c (hdigits c hc))
    rcases hs with ⟨rfl, -⟩ | ⟨rfl, -⟩ | ⟨rfl, -⟩
    · exact hsolid
    · simpa [hsigns] using hsolid
    · simpa [hsigns] using hsolid
  rw [read?_eq_some_iff, Text.unspaced_ofChars, withoutBlanks_eq_self hblank, hparse,
    Option.map_some]
  have hle := v.le_toInt
  have hlt := v.toInt_lt
  obtain ⟨w, hw, hsame⟩ := (comesTo_decimal sign digits).ok (by omega)
  rw [hw, Int64.toInt_inj.mp (hsame.trans hnumber)]

theorem ofDigits_replicate_zero (base count : Nat) (digits : List Char) :
    ofDigits base (List.replicate count '0' ++ digits) = ofDigits base digits := by
  have hzero : digitValue '0' = 0 := by decide
  induction count with
  | zero => rfl
  | succ count ih =>
      rw [List.replicate_succ, List.cons_append, ← ih]
      simp [ofDigits, hzero]

theorem ofDigits_map_toUpper (base : Nat) {digits : List Char}
    (h : ∀ c ∈ digits, digitValue c.toUpper = digitValue c) :
    ofDigits base (digits.map Char.toUpper) = ofDigits base digits := by
  induction digits using List.reverseRecOn with
  | nil => rfl
  | append_singleton digits c ih =>
      rw [List.map_append, List.map_singleton, ofDigits_append_singleton,
        ofDigits_append_singleton, h c (by simp), ih fun d hd => h d (by simp [hd])]

/-- The hexadecimal digits of a number, of either case and behind any number of zeros. -/
theorem hexDigits_digits (width n : Nat) :
    (∀ c ∈ Text.hexDigits width n, c ∈ hexadecimalDigits ∧ c.toUpper ∈ hexadecimalDigits ∧
        digitValue c.toUpper = digitValue c) ∧
      ofDigits 16 (Text.hexDigits width n) = n := by
  have hchars : ∀ d < 16, Nat.digitChar d ∈ hexadecimalDigits ∧
      (Nat.digitChar d).toUpper ∈ hexadecimalDigits ∧
      digitValue (Nat.digitChar d).toUpper = digitValue (Nat.digitChar d) := by decide
  obtain ⟨hdigits, hvalue⟩ := toDigits_digits 16 (by decide) (by decide) n
  refine ⟨fun c hc => ?_, by rw [Text.hexDigits, Text.padLeft, ofDigits_replicate_zero, hvalue]⟩
  rcases List.mem_append.mp hc with hc | hc
  · rw [List.eq_of_mem_replicate hc]
    exact hchars 0 (by decide)
  · obtain ⟨d, hd, rfl⟩ := hdigits c hc
    exact hchars d hd

/-- The bits of a number in hexadecimal are read as this number. -/
theorem read?_hex {v : Int64} {n : Nat} (hn : (n : Int) = v.toInt % 2 ^ 64) (width : Nat) :
    read? ("0x" ++ Text.hex width n) = some v ∧ read? ("0x" ++ Text.upperHex width n) = some v := by
  obtain ⟨hdigits, hnumber⟩ := hexDigits_digits width n
  have hne : Text.hexDigits width n ≠ [] := by simp [Text.hexDigits, Text.padLeft]
  have hread {digits : List Char} (hne : digits ≠ []) (hmem : ∀ c ∈ digits, c ∈ hexadecimalDigits)
      (hnumber : ofDigits 16 digits = n) : read? ("0x" ++ Text.ofChars digits) = some v := by
    refine read?_of_isHexadecimal (s := '0' :: 'x' :: digits) ⟨digits, ⟨hne, hmem⟩, rfl, ?_⟩
    rw [← hn, ← ofDigits_eq_magnitude 16 hmem, hnumber]
  constructor
  · exact hread hne (fun c hc => (hdigits c hc).1) hnumber
  · refine hread (by simpa using hne) ?_ ?_
    · intro c hc
      obtain ⟨d, hd, rfl⟩ := List.mem_map.mp hc
      exact (hdigits d hd).2.1
    · rw [ofDigits_map_toUpper 16 fun c hc => (hdigits c hc).2.2, hnumber]

/-- A number in decimal is read as this number. -/
theorem read?_signedDecimal (v : Int64) : read? (Text.signedDecimal v.toInt) = some v := by
  have hnumeral (n : Nat) : IsNumeral decimalDigits (Nat.toDigits 10 n) ∧
      magnitude 10 (Nat.toDigits 10 n) = n := by
    have hchars : ∀ d < 10, Nat.digitChar d ∈ decimalDigits := by decide
    obtain ⟨hdigits, hnumber⟩ := toDigits_digits 10 (by decide) (by decide) n
    have hnumeral : IsNumeral decimalDigits (Nat.toDigits 10 n) := by
      refine ⟨toDigits_ne_nil 10 n, fun c hc => ?_⟩
      obtain ⟨d, hd, rfl⟩ := hdigits c hc
      exact hchars d hd
    exact ⟨hnumeral, by rw [← hnumeral.ofDigits_eq, hnumber]⟩
  cases hv : v.toInt with
  | ofNat n =>
      refine read?_of_isDecimal ⟨_, (hnumeral n).1, Or.inl ⟨rfl, ?_⟩⟩
      rw [hv, (hnumeral n).2]
      rfl
  | negSucc n =>
      refine read?_of_isDecimal (s := '-' :: Nat.toDigits 10 (n + 1))
        ⟨_, (hnumeral (n + 1)).1, Or.inr (Or.inr ⟨rfl, ?_⟩)⟩
      rw [hv, (hnumeral (n + 1)).2]
      rfl

/-- A text is a literal if, without its blanks, it is `0x` and hexadecimal digits of either
case, or decimal digits behind at most one sign, of any number of digits. The value is then
the number of which the hexadecimal digits are the bits, or the decimal number itself; if
64 bits do not hold it, the failure is a definition error. `read?` gives the values, and
reads back every number that is written in either way. -/
theorem literal_grammar :
    (∀ text : Text,
      let s := text.unspaced
      let outcome := (parse? s).map value
      (outcome = none ↔ ¬∃ number, IsHexadecimal s number ∨ IsDecimal s number) ∧
        (∀ number, IsHexadecimal s number → ComesTo outcome (number < 2 ^ 64)
          (if number < 2 ^ 63 then number else number - 2 ^ 64)) ∧
        (∀ number, IsDecimal s number →
          ComesTo outcome (-2 ^ 63 ≤ number ∧ number < 2 ^ 63) number) ∧
        ∀ v, read? text = some v ↔ outcome = some (.ok v)) ∧
      ∀ (v : Int64) (width : Nat),
        read? ("0x" ++ Text.hex width (v.toInt % 2 ^ 64).toNat) = some v ∧
          read? ("0x" ++ Text.upperHex width (v.toInt % 2 ^ 64).toNat) = some v ∧
          read? (Text.signedDecimal v.toInt) = some v := by
  constructor
  · intro text s outcome
    refine ⟨?_, ?_, ?_, fun v => read?_eq_some_iff⟩
    · simp only [isHexadecimal_iff, isDecimal_iff, outcome]
      cases hparse : parse? s with
      | none => simp
      | some l => cases l <;> simp
    · intro number h
      obtain ⟨digits, hparse, rfl⟩ := isHexadecimal_iff.mp h
      simpa only [outcome, hparse, Option.map_some] using comesTo_hex digits
    · intro number h
      obtain ⟨sign, digits, hparse, rfl⟩ := isDecimal_iff.mp h
      simpa only [outcome, hparse, Option.map_some] using comesTo_decimal sign digits
  · intro v width
    have hbits : ((v.toInt % 2 ^ 64).toNat : Int) = v.toInt % 2 ^ 64 := by omega
    obtain ⟨hlower, hupper⟩ := read?_hex hbits width
    exact ⟨hlower, hupper, read?_signedDecimal v⟩

/-- Zeros in front do not count, the greatest hexadecimal literals are negative numbers, and
the least decimal one is in range with its sign only. -/
theorem literal_grammar_bounds :
    let zeros := List.replicate 30 '0'
    let bits : Text := Text.ofChars ("0 x ".toList ++ zeros ++ "FFFFffffFFFFfffe".toList)
    let least : Text := Text.ofChars ('-' :: zeros ++ "9223372036854775808".toList)
    let beyond : Text := Text.ofChars ('+' :: zeros ++ "9223372036854775808".toList)
    (IsHexadecimal bits.unspaced (2 ^ 64 - 2) ∧
        ∃ v, (parse? bits.unspaced).map value = some (.ok v) ∧ v.toInt = -2) ∧
      (IsDecimal least.unspaced (-2 ^ 63) ∧
        ∃ v, (parse? least.unspaced).map value = some (.ok v) ∧ v.toInt = -2 ^ 63) ∧
      IsDecimal beyond.unspaced (2 ^ 63) ∧
        ∃ cause, (parse? beyond.unspaced).map value = some (.error cause) ∧
          cause.kind = .definition := by
  intro zeros bits least beyond
  have hbits : IsHexadecimal bits.unspaced (2 ^ 64 - 2) :=
    ⟨zeros ++ "FFFFffffFFFFfffe".toList, ⟨by decide, List.all_iff_forall_prop.mp (by decide)⟩,
      by decide +kernel, by decide +kernel⟩
  have hleast : IsDecimal least.unspaced (-2 ^ 63) :=
    ⟨zeros ++ "9223372036854775808".toList,
      ⟨by decide, List.all_iff_forall_prop.mp (by decide)⟩, by decide +kernel⟩
  have hbeyond : IsDecimal beyond.unspaced (2 ^ 63) :=
    ⟨zeros ++ "9223372036854775808".toList,
      ⟨by decide, List.all_iff_forall_prop.mp (by decide)⟩, by decide +kernel⟩
  exact ⟨⟨hbits, ((literal_grammar.1 bits).2.1 _ hbits).ok (by decide)⟩,
    ⟨hleast, ((literal_grammar.1 least).2.2.1 _ hleast).ok (by decide)⟩,
    hbeyond, ((literal_grammar.1 beyond).2.2.1 _ hbeyond).error (by decide)⟩

end Literal

end FlatAssembler
