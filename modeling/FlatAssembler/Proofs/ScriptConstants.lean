import FlatAssembler.Script.Engine
import Mathlib.Algebra.Order.Field.Rat
import Mathlib.Data.Rat.Cast.Lemmas

/-!
# Constants from a script

A script leaves a table of globals behind, and those of them that have a name and are numbers
become constants. How it comes by the table is up to the engine that runs it, and does not
matter here. A number of a script is a double: a dyadic rational, an infinity or not a
number. Which integer it is, if any, is said here in rational numbers (`Exact.toRat?`), and
`toInt?_eq_some_iff` says that the decision on mantissa and exponent is the same.

The table has no order of its own. So what is made of it is stated for every list of its
entries, by what the table holds (`Holds`) alone: `Refuses` and `Faithful` are the two answers
that a caller expects, the names that are no integers or a constant for each number.

The second answer is not always what the caller gets. An integer can be far beyond 64 bits,
and then its constant is another number (`not_forall_faithful`). `constants_faithful_iff`
says that this is the only way to go wrong.
-/

namespace FlatAssembler.Script

/-! ### Exact numbers -/

namespace Exact

/-- The number, if it is one. -/
def toRat? : Exact → Option ℚ
  | .finite mantissa exponent => some (mantissa * 2 ^ exponent)
  | .infinite | .notANumber => none

theorem twoTo_eq (n : Nat) : twoTo n = 2 ^ n := rfl

theorem mul_zpow_eq_iff_of_nonneg {mantissa exponent n : Int} (h : 0 ≤ exponent) :
    (mantissa * 2 ^ exponent : ℚ) = n ↔ mantissa * twoTo exponent.toNat = n := by
  obtain ⟨k, rfl⟩ := Int.eq_ofNat_of_zero_le h
  rw [zpow_natCast, Int.toNat_natCast, twoTo_eq]
  norm_cast

theorem mul_zpow_eq_iff_of_neg {mantissa exponent n : Int} (h : exponent < 0) :
    (mantissa * 2 ^ exponent : ℚ) = n ↔ mantissa = n * twoTo (-exponent).toNat := by
  obtain ⟨k, hk⟩ := Int.eq_ofNat_of_zero_le (show 0 ≤ -exponent by omega)
  obtain rfl : exponent = -(k : Int) := by omega
  have hpos : (2 : ℚ) ^ k ≠ 0 := pow_ne_zero k two_ne_zero
  rw [zpow_neg, zpow_natCast, neg_neg, Int.toNat_natCast, twoTo_eq, ← div_eq_mul_inv,
    div_eq_iff hpos]
  norm_cast

/-- The integer that a value is taken for is the number that it is. -/
theorem toInt?_eq_some_iff {x : Exact} {n : Int} :
    x.toInt? = some n ↔ x.toRat? = some (n : ℚ) := by
  cases x with
  | infinite => simp [toInt?, toRat?]
  | notANumber => simp [toInt?, toRat?]
  | finite mantissa exponent =>
      rw [toInt?, toRat?, Option.some.injEq]
      by_cases h : 0 ≤ exponent
      · rw [if_pos h, Option.some.injEq, mul_zpow_eq_iff_of_nonneg h]
      · have hpos : (twoTo (-exponent).toNat : Int) ≠ 0 := by
          rw [twoTo_eq]
          exact_mod_cast pow_ne_zero _ two_ne_zero
        rw [if_neg h, mul_zpow_eq_iff_of_neg (not_le.mp h)]
        constructor
        · intro hn
          split at hn
          · rename_i hdvd
            rw [← Option.some.inj hn, Int.ediv_mul_cancel (Int.dvd_of_emod_eq_zero hdvd)]
          · cases hn
        · intro hn
          rw [hn, if_pos (Int.mul_emod_left _ _), Int.mul_ediv_cancel _ hpos]

end Exact

/-- The number is this integer. -/
def IsInteger (x : Float) (n : Int) : Prop := (Exact.ofFloat x).toRat? = some (n : ℚ)

theorem isInteger_iff {x : Float} {n : Int} :
    IsInteger x n ↔ (Exact.ofFloat x).toInt? = some n := Exact.toInt?_eq_some_iff.symm

theorem isNone_toInt?_iff {x : Float} :
    (Exact.ofFloat x).toInt?.isNone = true ↔ ∀ n, ¬IsInteger x n := by
  simp only [isInteger_iff]
  cases (Exact.ofFloat x).toInt? <;> simp

/-! ### Tables of globals -/

/-- The name that an entry is filed under. -/
def nameOf? : Key × Value → Option Text
  | (.name n, _) => some n
  | (.other _, _) => none

namespace Globals

/-- No name is given twice. -/
def Distinct (globals : Globals) : Prop := (globals.filterMap nameOf?).Nodup

/-- The table has this number under this name. -/
def Holds (globals : Globals) (name : Text) (x : Float) : Prop :=
  (Key.name name, Value.number x) ∈ globals

variable {globals order : Globals} {name : Text}

theorem Distinct.of_perm (h : globals.Distinct) (hperm : order.Perm globals) : order.Distinct :=
  (hperm.filterMap nameOf?).nodup_iff.mpr h

theorem holds_eq_of_perm (hperm : order.Perm globals) : order.Holds = globals.Holds := by
  funext name x
  exact propext hperm.mem_iff

end Globals

/-! ### Constants -/

variable {globals : Globals} {name : Text}

theorem constantOf_eq (n : Int) :
    constantOf n = if -2 ^ 63 ≤ n ∧ n < 2 ^ 63 then Int64.ofInt n else Int64.minValue := rfl

theorem toInt_constantOf_of_inRange {n : Int} (h : -2 ^ 63 ≤ n ∧ n < 2 ^ 63) :
    (constantOf n).toInt = n := by
  rw [constantOf_eq, if_pos h]
  exact Int64.toInt_ofInt_of_le h.1 h.2

/-- A constant is its number as far as 64 bits go. -/
theorem toInt_constantOf_eq_iff {n : Int} :
    (constantOf n).toInt = n ↔ -2 ^ 63 ≤ n ∧ n < 2 ^ 63 := by
  constructor
  · intro h
    have hle := (constantOf n).le_toInt
    have hlt := (constantOf n).toInt_lt
    omega
  · exact toInt_constantOf_of_inRange

/-- The names of the numbers that are no integers. -/
def nonIntegers (globals : Globals) : List Text :=
  ((namedNumbers globals).filter fun p => (Exact.ofFloat p.2).toInt?.isNone).map Prod.fst

/-- The integers with their names. -/
def integers (globals : Globals) : Constants :=
  (namedNumbers globals).filterMap fun p =>
    (Exact.ofFloat p.2).toInt?.map fun n => (p.1, constantOf n)

theorem constantsOf_eq (globals : Globals) :
    constantsOf globals =
      if nonIntegers globals = [] then .ok (integers globals)
      else .error ((nonIntegers globals).mergeSort Text.le) := by
  have hbad : ((namedNumbers globals).map fun p => (p.1, (Exact.ofFloat p.2).toInt?)).filterMap
      (fun p => if p.2.isNone then some p.1 else none) = nonIntegers globals := by
    rw [nonIntegers, List.filterMap_map]
    induction namedNumbers globals with
    | nil => rfl
    | cons p rest ih => by_cases h : (Exact.ofFloat p.2).toInt?.isNone <;> simp_all
  have hgood : ((namedNumbers globals).map fun p => (p.1, (Exact.ofFloat p.2).toInt?)).filterMap
      (fun p => p.2.map fun n => (p.1, constantOf n)) = integers globals := by
    rw [integers, List.filterMap_map]
    rfl
  simp only [constantsOf, hbad, hgood]
  split <;> simp_all

theorem mem_namedNumbers {x : Float} :
    (name, x) ∈ namedNumbers globals ↔ globals.Holds name x := by
  rw [namedNumbers, List.mem_filterMap, Globals.Holds]
  constructor
  · rintro ⟨⟨key, value⟩, hmem, heq⟩
    split at heq
    · cases heq
      rename_i hentry
      exact hentry ▸ hmem
    · cases heq
  · intro hmem
    exact ⟨_, hmem, rfl⟩

theorem nodup_namedNumbers (h : globals.Distinct) :
    ((namedNumbers globals).map Prod.fst).Nodup := by
  have hsublist : ((namedNumbers globals).map Prod.fst).Sublist (globals.filterMap nameOf?) := by
    clear h
    induction globals with
    | nil => exact List.Sublist.slnil
    | cons g rest ih =>
        obtain ⟨key, value⟩ := g
        cases key with
        | name n =>
            cases value with
            | number x => exact ih.cons_cons n
            | nil | bool | string | table | globals | library | builtin => exact ih.cons n
        | other k => exact ih
  exact h.sublist hsublist

theorem nodup_nonIntegers (h : globals.Distinct) : (nonIntegers globals).Nodup :=
  (nodup_namedNumbers h).sublist (List.filter_sublist.map Prod.fst)

theorem mem_nonIntegers :
    name ∈ nonIntegers globals ↔ ∃ x, globals.Holds name x ∧ ∀ n, ¬IsInteger x n := by
  rw [nonIntegers, List.mem_map]
  constructor
  · rintro ⟨⟨_, x⟩, hp, rfl⟩
    obtain ⟨hmem, hnone⟩ := List.mem_filter.mp hp
    exact ⟨x, mem_namedNumbers.mp hmem, isNone_toInt?_iff.mp hnone⟩
  · rintro ⟨x, hholds, hnone⟩
    exact ⟨(name, x), List.mem_filter.mpr
      ⟨mem_namedNumbers.mpr hholds, isNone_toInt?_iff.mpr hnone⟩, rfl⟩

theorem mem_integers {v : Int64} :
    (name, v) ∈ integers globals ↔
      ∃ x n, globals.Holds name x ∧ IsInteger x n ∧ v = constantOf n := by
  rw [integers, List.mem_filterMap]
  constructor
  · rintro ⟨⟨other, x⟩, hmem, heq⟩
    obtain ⟨n, hn, hpair⟩ := Option.map_eq_some_iff.mp heq
    cases hpair
    exact ⟨x, n, mem_namedNumbers.mp hmem, isInteger_iff.mpr hn, rfl⟩
  · rintro ⟨x, n, hholds, hn, rfl⟩
    exact ⟨(name, x), mem_namedNumbers.mpr hholds,
      Option.map_eq_some_iff.mpr ⟨n, isInteger_iff.mp hn, rfl⟩⟩

theorem nodup_integers (h : globals.Distinct) : ((integers globals).map Prod.fst).Nodup := by
  have hsublist : ((integers globals).map Prod.fst).Sublist
      ((namedNumbers globals).map Prod.fst) := by
    rw [integers]
    induction namedNumbers globals with
    | nil => exact List.Sublist.slnil
    | cons p rest ih =>
        cases hn : (Exact.ofFloat p.2).toInt? with
        | none => simpa [hn] using ih.cons p.1
        | some n => simpa [hn] using ih.cons_cons p.1
  exact (nodup_namedNumbers h).sublist hsublist

/-! ### The two answers -/

section Answers

variable (holds : Text → Float → Prop)

/-- The names are those of the numbers that are no integers, of which there are some, in the
order of their bytes. -/
structure Refuses (names : List Text) : Prop where
  ne_nil : names ≠ []
  increasing : names.Pairwise (· < ·)
  mem_iff : ∀ name, name ∈ names ↔ ∃ x, holds name x ∧ ∀ n, ¬IsInteger x n

/-- All named numbers are integers. There is one constant for each of them, and no other. -/
structure Covers (constants : Constants) : Prop where
  integers : ∀ name x, holds name x → ∃ n, IsInteger x n
  nodup : (constants.map Prod.fst).Nodup
  mem_iff : ∀ name, name ∈ constants.map Prod.fst ↔ ∃ x, holds name x

/-- There is one constant for each named number, and it is this number. -/
structure Faithful (constants : Constants) : Prop extends Covers holds constants where
  value : ∀ name x, holds name x → ∃ v, constants.get? name = some v ∧ IsInteger x v.toInt

end Answers

theorem IsInteger.unique {x : Float} {m n : Int} (h : IsInteger x m) (h' : IsInteger x n) :
    m = n := by
  rw [isInteger_iff] at h h'
  exact Option.some.inj (h.symm.trans h')

theorem refuses_nonIntegers (h : globals.Distinct) (hne : nonIntegers globals ≠ []) :
    Refuses globals.Holds ((nonIntegers globals).mergeSort Text.le) where
  ne_nil := by
    intro hnil
    have hperm := List.mergeSort_perm (nonIntegers globals) Text.le
    rw [hnil] at hperm
    exact hne (List.nil_perm.mp hperm)
  increasing := Text.pairwise_lt_mergeSort (nodup_nonIntegers h)
  mem_iff := by
    intro name
    rw [List.mem_mergeSort, mem_nonIntegers]

theorem exists_isInteger (h : nonIntegers globals = []) {x : Float}
    (hholds : globals.Holds name x) : ∃ n, IsInteger x n := by
  by_contra hnone
  have hmem : name ∈ nonIntegers globals :=
    mem_nonIntegers.mpr ⟨x, hholds, not_exists.mp hnone⟩
  rw [h] at hmem
  cases hmem

theorem covers_integers (h : globals.Distinct) (hall : nonIntegers globals = []) :
    Covers globals.Holds (integers globals) where
  integers := fun _ _ => exists_isInteger hall
  nodup := nodup_integers h
  mem_iff := by
    intro name
    rw [List.mem_map]
    constructor
    · rintro ⟨⟨_, v⟩, hmem, rfl⟩
      obtain ⟨x, -, hholds, -⟩ := mem_integers.mp hmem
      exact ⟨x, hholds⟩
    · rintro ⟨x, hholds⟩
      obtain ⟨n, hn⟩ := exists_isInteger hall hholds
      exact ⟨(name, constantOf n), mem_integers.mpr ⟨x, n, hholds, hn, rfl⟩, rfl⟩

theorem get?_integers (h : globals.Distinct) {x : Float} {n : Int}
    (hholds : globals.Holds name x) (hn : IsInteger x n) :
    (integers globals).get? name = some (constantOf n) :=
  Constants.get?_of_mem (nodup_integers h) (mem_integers.mpr ⟨x, n, hholds, hn, rfl⟩)

theorem faithful_integers_iff (h : globals.Distinct) (hall : nonIntegers globals = []) :
    Faithful globals.Holds (integers globals) ↔
      ∀ name x n, globals.Holds name x → IsInteger x n → -2 ^ 63 ≤ n ∧ n < 2 ^ 63 := by
  constructor
  · intro hfaithful name x n hholds hn
    obtain ⟨v, hv, hvalue⟩ := hfaithful.value name x hholds
    rw [get?_integers h hholds hn] at hv
    cases hv
    exact toInt_constantOf_eq_iff.mp (hvalue.unique hn)
  · intro hrange
    refine ⟨covers_integers h hall, fun name x hholds => ?_⟩
    obtain ⟨n, hn⟩ := exists_isInteger hall hholds
    refine ⟨constantOf n, get?_integers h hholds hn, ?_⟩
    rw [toInt_constantOf_of_inRange (hrange name x n hholds hn)]
    exact hn

theorem constants_of_result {run : Run} {order : Globals} (h : run.result = .ok order) :
    run.constants = (constantsOf order).mapError .nonInteger := by
  simp only [Run.constants, h]
  cases constantsOf order <;> rfl

/-- Take any table with different names, and a run that leaves its entries in any order. If
some of the named numbers are no integers, just these are refused, in the order of their
bytes. Otherwise there is one constant for each of them and no other. A constant is the
number if and only if 64 bits hold it, so the constants are the numbers if and only if none
of these is beyond 64 bits. -/
theorem constants_faithful_iff (globals : Globals) (hdistinct : globals.Distinct) (run : Run)
    (order : Globals) (hrun : run.result = .ok order) (hperm : order.Perm globals) :
    (∃ names, run.constants = .error (.nonInteger names) ∧ Refuses globals.Holds names) ∨
    ∃ constants, run.constants = .ok constants ∧ Covers globals.Holds constants ∧
      (∀ name x n, globals.Holds name x → IsInteger x n →
        ∃ v, constants.get? name = some v ∧ (v.toInt = n ↔ -2 ^ 63 ≤ n ∧ n < 2 ^ 63)) ∧
      (Faithful globals.Holds constants ↔
        ∀ name x n, globals.Holds name x → IsInteger x n → -2 ^ 63 ≤ n ∧ n < 2 ^ 63) := by
  have horder : order.Distinct := hdistinct.of_perm hperm
  rw [← Globals.holds_eq_of_perm hperm, constants_of_result hrun, constantsOf_eq]
  by_cases hall : nonIntegers order = []
  · rw [if_pos hall]
    refine Or.inr ⟨integers order, rfl, covers_integers horder hall, ?_,
      faithful_integers_iff horder hall⟩
    intro name x n hholds hn
    exact ⟨constantOf n, get?_integers horder hholds hn, toInt_constantOf_eq_iff⟩
  · rw [if_neg hall]
    exact Or.inl ⟨_, rfl, refuses_nonIntegers horder hall⟩

/-- A fraction, an infinity and a number that is none are refused, whichever comes first. -/
theorem constants_faithful_iff_refused :
    let globals : Globals :=
      [(.name "half", .number 0.5), (.other (.number 1), .number 1.5),
        (.name "inf", .number (1 / 0)), (.name "two", .number 2),
        (.name "NaN", .number (0 / 0)), (.name "s", .string "0.5")]
    let run : Run := { files := {}, result := .ok globals.reverse }
    globals.Distinct ∧ ∃ names, run.constants = .error (.nonInteger names) ∧
      names = (["NaN", "half", "inf"] : List Text) ∧ Refuses globals.Holds names := by
  intro globals run
  have hdistinct : globals.Distinct := by
    unfold Globals.Distinct
    decide +kernel
  have hbad : nonIntegers globals.reverse = (["NaN", "inf", "half"] : List Text) := by
    decide +kernel
  have hsorted : List.mergeSort (["NaN", "inf", "half"] : List Text) Text.le =
      (["NaN", "half", "inf"] : List Text) :=
    List.Perm.eq_of_pairwise
      (fun s t _ _ h h' => List.le_antisymm (Text.le_iff.mp h) (Text.le_iff.mp h'))
      (List.pairwise_mergeSort Text.le_of_le_of_le Text.le_or_le _) (by decide)
      ((List.mergeSort_perm _ _).trans (by decide))
  have herror : run.constants = .error (.nonInteger ["NaN", "half", "inf"]) := by
    have hresult : run.result = .ok globals.reverse := rfl
    rw [constants_of_result hresult, constantsOf_eq, hbad, hsorted]
    rfl
  refine ⟨hdistinct, _, herror, rfl, ?_⟩
  rcases constants_faithful_iff globals hdistinct run globals.reverse rfl
    (List.reverse_perm globals) with ⟨names, hnames, hrefuses⟩ | ⟨constants, hconstants, -⟩
  · cases herror.symm.trans hnames
    exact hrefuses
  · cases herror.symm.trans hconstants

/-- The constant of a global can be another number than the global: `2 ^ 63` is an integer, so
it is not refused, and no constant is this number. -/
theorem not_forall_faithful :
    ¬∀ globals : Globals, globals.Distinct → ∀ (run : Run) (order : Globals),
      run.result = .ok order → order.Perm globals →
      (∃ names, run.constants = .error (.nonInteger names) ∧ Refuses globals.Holds names) ∨
      ∃ constants, run.constants = .ok constants ∧ Faithful globals.Holds constants := by
  intro hall
  let globals : Globals := [(.name "BIG", .number (ofDyadic 1 63))]
  have hbig : IsInteger (ofDyadic 1 63) (2 ^ 63) := by
    rw [isInteger_iff]
    decide +kernel
  have hholds : globals.Holds "BIG" (ofDyadic 1 63) := List.mem_singleton_self _
  have hdistinct : globals.Distinct := by simp [Globals.Distinct, globals, nameOf?]
  rcases hall globals hdistinct { files := {}, result := .ok globals } globals rfl
    (List.Perm.refl globals) with ⟨names, -, hrefuses⟩ | ⟨constants, -, hfaithful⟩
  · obtain ⟨name, hname⟩ := List.exists_mem_of_ne_nil names hrefuses.ne_nil
    obtain ⟨x, hx, hnone⟩ := (hrefuses.mem_iff name).mp hname
    cases List.mem_singleton.mp hx
    exact hnone _ hbig
  · obtain ⟨v, -, hv⟩ := hfaithful.value _ _ hholds
    have heq : v.toInt = 2 ^ 63 := hv.unique hbig
    have hlt := v.toInt_lt
    omega

end FlatAssembler.Script
