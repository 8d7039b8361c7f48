import FlatAssembler.CommandLine.Settings
import FlatAssembler.Proofs.LiteralGrammar

/-!
# The range of addresses

An address is given as a literal, and a literal of the source language is a signed number of
64 bits. Three kinds of numbers meet here: the one that is written, which can be of any size,
the signed one, which is negative for the greatest hexadecimal literals, and the address of
32 bits.

A value that is not negative is the number that is written (`read?_eq_some_iff_writes`), so
the test of the range is made on the written number after all, and what passes it fits into
an address.
-/

namespace FlatAssembler

namespace Literal

/-- The text is a literal of one kind or the other, which writes the number. -/
def Writes (s : List Char) (number : Int) : Prop := IsHexadecimal s number ∨ IsDecimal s number

theorem writes_iff {s : List Char} {number : Int} :
    Writes s number ↔ ∃ l, parse? s = some l ∧ l.number = number := by
  rw [Writes, isHexadecimal_iff, isDecimal_iff]
  constructor
  · rintro (⟨digits, h⟩ | ⟨sign, digits, h⟩)
    · exact ⟨.hex digits, h⟩
    · exact ⟨.decimal sign digits, h⟩
  · rintro ⟨l, h⟩
    cases l with
    | hex digits => exact Or.inl ⟨digits, h⟩
    | decimal sign digits => exact Or.inr ⟨sign, digits, h⟩

/-- A text writes one number at most. -/
theorem Writes.unique {s : List Char} {number other : Int} (h : Writes s number)
    (h' : Writes s other) : number = other := by
  obtain ⟨l, hl, rfl⟩ := writes_iff.mp h
  obtain ⟨l', hl', rfl⟩ := writes_iff.mp h'
  rw [Option.some.inj (hl.symm.trans hl')]

/-- Below half of the unsigned range, a literal of either kind has its own number as value. -/
theorem exists_value_eq_ok {l : Literal} (hnonneg : 0 ≤ l.number) (hlt : l.number < 2 ^ 63) :
    ∃ v, l.value = .ok v ∧ v.toInt = l.number := by
  cases l with
  | hex digits =>
      obtain ⟨v, hv, hnumber⟩ := (comesTo_hex digits).ok (by omega)
      rw [if_pos hlt] at hnumber
      exact ⟨v, Option.some.inj hv, hnumber⟩
  | decimal sign digits =>
      obtain ⟨v, hv, hnumber⟩ := (comesTo_decimal sign digits).ok ⟨by omega, hlt⟩
      exact ⟨v, Option.some.inj hv, hnumber⟩

/-- A value that is not negative is the number itself: what wraps comes out negative. -/
theorem number_eq_of_value {l : Literal} {v : Int64} (h : l.value = .ok v) (hv : 0 ≤ v.toInt) :
    l.number = v.toInt := by
  cases l with
  | hex digits =>
      by_cases hfits : (Literal.hex digits).number < 2 ^ 64
      · obtain ⟨w, hw, hnumber⟩ := (comesTo_hex digits).ok hfits
        obtain rfl := Except.ok.inj (h.symm.trans (Option.some.inj hw))
        split at hnumber <;> omega
      · obtain ⟨cause, hcause, -⟩ := (comesTo_hex digits).error hfits
        cases h.symm.trans (Option.some.inj hcause)
  | decimal sign digits =>
      by_cases hfits : -2 ^ 63 ≤ (Literal.decimal sign digits).number ∧
          (Literal.decimal sign digits).number < 2 ^ 63
      · obtain ⟨w, hw, hnumber⟩ := (comesTo_decimal sign digits).ok hfits
        obtain rfl := Except.ok.inj (h.symm.trans (Option.some.inj hw))
        exact hnumber.symm
      · obtain ⟨cause, hcause, -⟩ := (comesTo_decimal sign digits).error hfits
        cases h.symm.trans (Option.some.inj hcause)

theorem read?_eq_some_iff_writes {text : Text} {v : Int64} (hv : 0 ≤ v.toInt) :
    read? text = some v ↔ Writes text.unspaced v.toInt := by
  rw [read?_eq_some_iff, writes_iff]
  constructor
  · intro h
    obtain ⟨l, hl, hvalue⟩ := Option.map_eq_some_iff.mp h
    exact ⟨l, hl, number_eq_of_value hvalue hv⟩
  · rintro ⟨l, hl, hnumber⟩
    have hlt := v.toInt_lt
    obtain ⟨w, hw, hsame⟩ := exists_value_eq_ok (l := l) (by omega) (by omega)
    rw [hl, Option.map_some, hw, Int64.toInt_inj.mp (hsame.trans hnumber)]

end Literal

namespace CommandLine

open Literal

theorem parseAddress_of_some {text : Text} {v : Int64} (h : read? text = some v) :
    parseAddress text =
      if 0 ≤ v.toInt ∧ v.toInt < 2 ^ 32 then .ok (UInt32.ofNat v.toInt.toNat)
      else .error (.badAddress text) := by
  have hzero : (0 : Int64).toInt = 0 := rfl
  have hlast : (0xFFFFFFFF : Int64).toInt = 2 ^ 32 - 1 := rfl
  have hrange : (0 ≤ v ∧ v ≤ 0xFFFFFFFF) ↔ 0 ≤ v.toInt ∧ v.toInt < 2 ^ 32 := by
    rw [Int64.le_iff_toInt_le, Int64.le_iff_toInt_le, hzero, hlast]
    omega
  rw [parseAddress, h]
  simp only [hrange]

theorem parseAddress_of_none {text : Text} (h : read? text = none) :
    parseAddress text = .error (.badAddress text) := by
  rw [parseAddress, h]

/-- The numbers in the range are those that addresses are. -/
theorem inRange_iff {number : Int} :
    0 ≤ number ∧ number ≤ 2 ^ 32 - 1 ↔ ∃ address : UInt32, (address.toNat : Int) = number := by
  constructor
  · rintro ⟨hnonneg, hle⟩
    refine ⟨UInt32.ofNat number.toNat, ?_⟩
    rw [UInt32.toNat_ofNat_of_lt' (by simp only [UInt32.size]; omega), Int.toNat_of_nonneg hnonneg]
  · rintro ⟨address, rfl⟩
    have hlt : address.toNat < 2 ^ 32 := address.toNat_lt
    omega

theorem parseAddress_of_writes {text : Text} {address : UInt32}
    (h : Writes text.unspaced address.toNat) : parseAddress text = .ok address := by
  have hlt : address.toNat < 2 ^ 32 := address.toNat_lt
  have hvalue : (Int64.ofInt address.toNat).toInt = address.toNat :=
    Int64.toInt_ofInt_of_le (by omega) (by omega)
  have hread : read? text = some (Int64.ofInt address.toNat) :=
    (read?_eq_some_iff_writes (by omega)).mpr (hvalue.symm ▸ h)
  rw [parseAddress_of_some hread, hvalue, if_pos (by omega), Int.toNat_natCast,
    UInt32.ofNat_toNat]

/-- Either the text writes an address or it is refused. -/
theorem writes_or_parseAddress_eq_error (text : Text) :
    (∃ address : UInt32, Writes text.unspaced address.toNat) ∨
      parseAddress text = .error (.badAddress text) := by
  cases hread : read? text with
  | none => exact Or.inr (parseAddress_of_none hread)
  | some v =>
      by_cases hrange : 0 ≤ v.toInt ∧ v.toInt < 2 ^ 32
      · obtain ⟨address, haddress⟩ := inRange_iff.mp ⟨hrange.1, Int.le_sub_one_of_lt hrange.2⟩
        exact Or.inl ⟨address, haddress ▸ (read?_eq_some_iff_writes hrange.1).mp hread⟩
      · exact Or.inr (by rw [parseAddress_of_some hread, if_neg hrange])

/-- A text is an address if, without its blanks, it is a literal of either kind whose number,
however many digits it has, lies in the range of 32 bits, and the address is then this number.
Any other literal and any other text is refused, as it was given. -/
theorem parseAddress_eq_iff_writes (text : Text) :
    (∀ address, parseAddress text = .ok address ↔
      ∃ number, Writes text.unspaced number ∧ (0 ≤ number ∧ number ≤ 2 ^ 32 - 1) ∧
        (address.toNat : Int) = number) ∧
    ∀ error, parseAddress text = .error error ↔
      error = .badAddress text ∧
        ¬∃ number, Writes text.unspaced number ∧ 0 ≤ number ∧ number ≤ 2 ^ 32 - 1 := by
  rcases writes_or_parseAddress_eq_error text with ⟨address, hwrites⟩ | herror
  · have hrange := inRange_iff.mpr ⟨address, rfl⟩
    rw [parseAddress_of_writes hwrites]
    refine ⟨fun other => ⟨?_, ?_⟩, fun error => ⟨nofun, fun h => ?_⟩⟩
    · rintro ⟨⟩
      exact ⟨_, hwrites, hrange, rfl⟩
    · rintro ⟨number, hnumber, -, rfl⟩
      exact congrArg Except.ok (UInt32.toNat_inj.mp (Int.ofNat_inj.mp (hwrites.unique hnumber)))
    · exact absurd ⟨_, hwrites, hrange⟩ h.2
  · have hnone : ¬∃ number, Writes text.unspaced number ∧ 0 ≤ number ∧ number ≤ 2 ^ 32 - 1 := by
      rintro ⟨number, hnumber, hrange⟩
      obtain ⟨address, rfl⟩ := inRange_iff.mp hrange
      cases (parseAddress_of_writes hnumber).symm.trans herror
    rw [herror]
    refine ⟨fun address => ⟨nofun, ?_⟩, fun error => ⟨?_, ?_⟩⟩
    · rintro ⟨number, hnumber, hrange, -⟩
      exact absurd ⟨number, hnumber, hrange⟩ hnone
    · rintro ⟨⟩
      exact ⟨rfl, hnone⟩
    · rintro ⟨rfl, -⟩
      rfl

/-- The last address is admitted behind any number of zeros; the next number, and a literal
whose bits are those of a small negative number, are not. -/
theorem parseAddress_eq_iff_writes_wrapping :
    let last : Text := "0x 0000000000000000000000 ffffFFFF"
    let next : Text := "+4294967296"
    let bits : Text := "0xFFFFFFFF00000001"
    Writes last.unspaced (2 ^ 32 - 1) ∧ parseAddress last = .ok 0xFFFFFFFF ∧
      (Writes next.unspaced (2 ^ 32) ∧ parseAddress next = .error (.badAddress next)) ∧
      Writes bits.unspaced (2 ^ 64 - 2 ^ 32 + 1) ∧
        parseAddress bits = .error (.badAddress bits) := by
  intro last next bits
  have hlast : Writes last.unspaced (2 ^ 32 - 1) :=
    writes_iff.mpr ⟨.hex "0000000000000000000000ffffFFFF".toList, by decide +kernel⟩
  have hnext : Writes next.unspaced (2 ^ 32) :=
    writes_iff.mpr ⟨.decimal (some .plus) "4294967296".toList, by decide +kernel⟩
  have hbits : Writes bits.unspaced (2 ^ 64 - 2 ^ 32 + 1) :=
    writes_iff.mpr ⟨.hex "FFFFFFFF00000001".toList, by decide +kernel⟩
  refine ⟨hlast, ?_, ⟨hnext, ?_⟩, hbits, ?_⟩
  · exact ((parseAddress_eq_iff_writes last).1 _).mpr ⟨_, hlast, by decide, by decide⟩
  · refine ((parseAddress_eq_iff_writes next).2 _).mpr ⟨rfl, ?_⟩
    rintro ⟨number, hnumber, -, hle⟩
    cases hnext.unique hnumber
    exact absurd hle (by decide)
  · refine ((parseAddress_eq_iff_writes bits).2 _).mpr ⟨rfl, ?_⟩
    rintro ⟨number, hnumber, -, hle⟩
    cases hbits.unique hnumber
    exact absurd hle (by decide)

end CommandLine

end FlatAssembler
