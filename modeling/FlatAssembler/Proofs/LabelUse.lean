import FlatAssembler.Expression

/-!
# How an expression depends on the base

An expression sees the base only through the labels that it consults. Without a
label its value is the same at every base. With one label that is added, and
behind which only sums and differences follow, its value moves with the base:
`evaluate_atBase_of_addsOneLabel`. Whether an expression is of this kind is
decided by `Scope.addsOneLabel`, term by term, from the names that are known.

The two readings are compared through `Scope.atBase`, the same names seen from
another base.
-/

namespace FlatAssembler

/-- The sign that remains when an operator takes in a signed operand. A product
or a quotient has none. -/
def Operator.netSign? : Operator → Sign → Option Sign
  | .add, sign => some sign
  | .sub, .plus => some .minus
  | .sub, .minus => some .plus
  | .mul, _ | .div, _ => none

/-- Whether an operator is a sum or a difference. -/
def Operator.isAdditive : Operator → Bool
  | .add | .sub => true
  | .mul | .div => false

namespace Scope

/-- The same names, seen from another base. -/
def atBase (scope : Scope) (base : UInt32) : Scope := { scope with base }

/-- How far values move with the base. -/
def distance (scope : Scope) (base : UInt32) : Int64 :=
  Int64.ofNat base.toNat - Int64.ofNat scope.base.toNat

/-- Whether a text is resolved as a label. -/
def isLabel (scope : Scope) (cs : List Char) : Bool :=
  (Literal.parse? cs).isNone && (scope.constants.get? (Text.ofChars cs)).isNone &&
    (scope.symbols.find (Text.ofChars cs)).isSome

/-- The sign in front of an operand that is a label. -/
def labelSign? (scope : Scope) : List Char → Option Sign
  | [] => none
  | c :: rest =>
      match Sign.ofChar? c with
      | none => if scope.isLabel (c :: rest) then some .plus else none
      | some sign =>
          if rest = [] ∨ (Literal.parse? (c :: rest)).isSome then none
          else if scope.isLabel rest then some sign
          else none

/-- Whether exactly one of the terms is a label, which is added, and only sums
and differences follow it. -/
def oneLabelAdded (scope : Scope) : List Term → Bool
  | [] => false
  | term :: rest =>
      match scope.labelSign? term.operand with
      | none => oneLabelAdded scope rest
      | some sign =>
          decide (term.operator.netSign? sign = some .plus) &&
            rest.all fun other =>
              (scope.labelSign? other.operand).isNone && other.operator.isAdditive

/-- Whether an argument is a label, or a chain in which one label is added. -/
def addsOneLabel (scope : Scope) (text : Text) : Bool :=
  scope.isLabel text.unspaced ||
    ((scope.atom? text.unspaced).isNone && scope.oneLabelAdded (Term.split text.unspaced))

/-! ### Labels, constants and literals -/

theorem address_atBase (scope : Scope) (base offset : UInt32) :
    (scope.atBase base).address offset = scope.address offset + scope.distance base := by
  simp only [address, atBase, distance]
  grind

/-- A value that moves with the base does so in its low 32 bits too. -/
theorem ofNat_add_distance (scope : Scope) (base : UInt32) (value : Int64) :
    UInt32.ofNat (value + scope.distance base).toUInt64.toNat =
      UInt32.ofNat value.toUInt64.toNat + (base - scope.base) := by
  have hlow (b : UInt32) : (Int64.ofNat b.toNat).toUInt64.toUInt32 = b := by
    have h : (Int64.ofNat b.toNat).toUInt64 = UInt64.ofNat b.toNat := rfl
    apply UInt32.toNat_inj.mp
    rw [h]
    simp
  have hsum : (value + scope.distance base).toUInt64 = value.toUInt64 +
      ((Int64.ofNat base.toNat).toUInt64 - (Int64.ofNat scope.base.toNat).toUInt64) := rfl
  change (value + scope.distance base).toUInt64.toUInt32 = value.toUInt64.toUInt32 + _
  rw [hsum, UInt64.toUInt32_add, UInt64.toUInt32_sub, hlow, hlow]

theorem atom?_atBase_of_isLabel_eq_false {scope : Scope} {cs : List Char} (base : UInt32)
    (h : scope.isLabel cs = false) : (scope.atBase base).atom? cs = scope.atom? cs := by
  unfold isLabel at h
  unfold atom?
  cases hl : Literal.parse? cs with
  | some l => rfl
  | none =>
      cases hc : scope.constants.get? (Text.ofChars cs) with
      | some v => simp [atBase, hc]
      | none =>
          have hs : scope.symbols.find (Text.ofChars cs) = none := by
            simpa [hl, hc] using h
          simp [atBase, hc, hs]

theorem exists_atom?_of_isLabel {scope : Scope} {cs : List Char} (h : scope.isLabel cs = true) :
    ∃ symbol : Symbol, ∀ base, (scope.atBase base).atom? cs =
      some { labels := [symbol.name]
             value := .ok ((scope.atBase base).address symbol.offset) } := by
  simp only [isLabel, Bool.and_eq_true, Option.isNone_iff_eq_none, Option.isSome_iff_exists] at h
  obtain ⟨⟨hl, hc⟩, symbol, hs⟩ := h
  refine ⟨symbol, fun base => ?_⟩
  simp [atom?, atBase, hl, hc, hs]

theorem labels_of_atom? {scope : Scope} {cs : List Char} {e : Evaluation}
    (h : scope.isLabel cs = false) (he : scope.atom? cs = some e) : e.labels = [] := by
  unfold isLabel at h
  unfold atom? at he
  cases hl : Literal.parse? cs with
  | some l =>
      simp only [hl, Option.some.injEq] at he
      rw [← he]
  | none =>
      cases hc : scope.constants.get? (Text.ofChars cs) with
      | some v =>
          simp only [hl, hc, Option.some.injEq] at he
          rw [← he]
      | none =>
          have hs : scope.symbols.find (Text.ofChars cs) = none := by
            simpa [hl, hc] using h
          simp [hl, hc, hs] at he

theorem atom_atBase_of_isLabel_eq_false {scope : Scope} {cs : List Char} (base : UInt32)
    (h : scope.isLabel cs = false) :
    (scope.atBase base).atom cs = scope.atom cs ∧ (scope.atom cs).labels = [] := by
  rw [atom, atom, atom?_atBase_of_isLabel_eq_false base h]
  refine ⟨rfl, ?_⟩
  cases he : scope.atom? cs with
  | none => rfl
  | some e => exact labels_of_atom? h he

/-! ### Operands -/

theorem operand_atBase_of_labelSign?_eq_none {scope : Scope} {cs : List Char} (base : UInt32)
    (h : scope.labelSign? cs = none) (whole : List Char) :
    (scope.atBase base).operand whole cs = scope.operand whole cs ∧
      (scope.operand whole cs).labels = [] := by
  cases cs with
  | nil => exact ⟨rfl, rfl⟩
  | cons c rest =>
      unfold labelSign? at h
      cases hsign : Sign.ofChar? c with
      | none =>
          have hl : scope.isLabel (c :: rest) = false := by simpa [hsign] using h
          simp only [operand, hsign]
          exact atom_atBase_of_isLabel_eq_false base hl
      | some sign =>
          simp only [operand, hsign]
          by_cases hrest : rest = []
          · simp [hrest, Evaluation.fail]
          cases hlit : Literal.parse? (c :: rest) with
          | some l => simp [hrest]
          | none =>
              have hl : scope.isLabel rest = false := by
                simpa [hsign, hrest, hlit] using h
              obtain ⟨heq, hlabels⟩ := atom_atBase_of_isLabel_eq_false base hl
              simp [hrest, heq, hlabels, Evaluation.map]

theorem exists_operand_of_labelSign? {scope : Scope} {cs : List Char} {sign : Sign}
    (h : scope.labelSign? cs = some sign) (whole : List Char) :
    ∃ symbol : Symbol, ∀ base, (scope.atBase base).operand whole cs =
      { labels := [symbol.name]
        value := .ok (sign.apply ((scope.atBase base).address symbol.offset)) } := by
  cases cs with
  | nil => cases h
  | cons c rest =>
      unfold labelSign? at h
      cases hsign : Sign.ofChar? c with
      | none =>
          simp only [hsign, Option.ite_none_right_eq_some, Option.some.injEq] at h
          obtain ⟨hl, rfl⟩ := h
          obtain ⟨symbol, hsymbol⟩ := exists_atom?_of_isLabel hl
          refine ⟨symbol, fun base => ?_⟩
          simp [operand, hsign, atom, hsymbol, Sign.apply]
      | some sign' =>
          simp only [hsign, Option.ite_none_left_eq_some, Option.ite_none_right_eq_some,
            Option.some.injEq, not_or] at h
          obtain ⟨⟨hrest, hlit⟩, hl, rfl⟩ := h
          have hlit' : Literal.parse? (c :: rest) = none := by simpa using hlit
          obtain ⟨symbol, hsymbol⟩ := exists_atom?_of_isLabel hl
          refine ⟨symbol, fun base => ?_⟩
          simp [operand, hsign, hrest, hlit', atom, hsymbol, Evaluation.map, Except.map]

/-! ### Chains -/

theorem accumulate_cons_of_error {scope : Scope} {whole : List Char} {term : Term} {cause : Cause}
    (h : (scope.operand whole term.operand).value = .error cause) (rest : List Term)
    (acc : Int64) :
    scope.accumulate whole (term :: rest) acc = scope.operand whole term.operand := by
  simp [accumulate, Evaluation.andThen, h]

theorem accumulate_cons_of_none {scope : Scope} {whole : List Char} {term : Term} {v acc : Int64}
    (h : (scope.operand whole term.operand).value = .ok v)
    (happly : term.operator.apply acc v = none) (rest : List Term) :
    scope.accumulate whole (term :: rest) acc =
      { labels := (scope.operand whole term.operand).labels
        value := .error (.divisionByZero (Text.ofChars whole)) } := by
  simp [accumulate, Evaluation.andThen, Evaluation.fail, h, happly]

theorem accumulate_cons_of_some {scope : Scope} {whole : List Char} {term : Term}
    {v acc next : Int64} (h : (scope.operand whole term.operand).value = .ok v)
    (happly : term.operator.apply acc v = some next) (rest : List Term) :
    scope.accumulate whole (term :: rest) acc =
      { labels := (scope.operand whole term.operand).labels ++
          (scope.accumulate whole rest next).labels
        value := (scope.accumulate whole rest next).value } := by
  simp [accumulate, Evaluation.andThen, h, happly]

/-- A chain with a value has one for each operand on the way. -/
theorem exists_of_accumulate_cons {scope : Scope} {whole : List Char} {term : Term}
    {rest : List Term} {acc value : Int64}
    (h : (scope.accumulate whole (term :: rest) acc).value = .ok value) :
    ∃ v next, (scope.operand whole term.operand).value = .ok v ∧
      term.operator.apply acc v = some next ∧
      (scope.accumulate whole rest next).value = .ok value := by
  cases hv : (scope.operand whole term.operand).value with
  | error cause =>
      rw [accumulate_cons_of_error hv, hv] at h
      cases h
  | ok v =>
      cases hnext : term.operator.apply acc v with
      | none =>
          rw [accumulate_cons_of_none hv hnext] at h
          cases h
      | some next =>
          rw [accumulate_cons_of_some hv hnext] at h
          exact ⟨v, next, rfl, hnext, h⟩

theorem labelSign?_of_labels_eq_nil {scope : Scope} {whole cs : List Char}
    (h : (scope.operand whole cs).labels = []) : scope.labelSign? cs = none := by
  cases hsign : scope.labelSign? cs with
  | none => rfl
  | some sign =>
      obtain ⟨symbol, hsymbol⟩ := exists_operand_of_labelSign? hsign whole
      have hhere : (scope.operand whole cs).labels = [symbol.name] :=
        congrArg Evaluation.labels (hsymbol scope.base)
      rw [hhere] at h
      cases h

theorem accumulate_atBase_of_labels_eq_nil {scope : Scope} {whole : List Char} {terms : List Term}
    {acc : Int64} (base : UInt32) (h : (scope.accumulate whole terms acc).labels = []) :
    (scope.atBase base).accumulate whole terms acc = scope.accumulate whole terms acc := by
  induction terms generalizing acc with
  | nil => rfl
  | cons term rest ih =>
      have hfree : (scope.operand whole term.operand).labels = [] := by
        cases hv : (scope.operand whole term.operand).value with
        | error cause => rwa [accumulate_cons_of_error hv] at h
        | ok v =>
            cases hnext : term.operator.apply acc v with
            | none => rwa [accumulate_cons_of_none hv hnext] at h
            | some next =>
                rw [accumulate_cons_of_some hv hnext] at h
                exact (List.append_eq_nil_iff.mp h).1
      obtain ⟨heq, -⟩ :=
        operand_atBase_of_labelSign?_eq_none base (labelSign?_of_labels_eq_nil hfree) whole
      cases hv : (scope.operand whole term.operand).value with
      | error cause =>
          rw [accumulate_cons_of_error hv, accumulate_cons_of_error (heq ▸ hv), heq]
      | ok v =>
          cases hnext : term.operator.apply acc v with
          | none =>
              rw [accumulate_cons_of_none hv hnext, accumulate_cons_of_none (heq ▸ hv) hnext, heq]
          | some next =>
              rw [accumulate_cons_of_some hv hnext] at h
              rw [accumulate_cons_of_some hv hnext, accumulate_cons_of_some (heq ▸ hv) hnext,
                heq, ih (List.append_eq_nil_iff.mp h).2]

/-- Sums and differences without a label carry a distance along. -/
theorem accumulate_atBase_of_additive {scope : Scope} {whole : List Char} {terms : List Term}
    {acc value : Int64} (base : UInt32) (d : Int64)
    (hterms : ∀ term ∈ terms,
      scope.labelSign? term.operand = none ∧ term.operator.isAdditive = true)
    (h : (scope.accumulate whole terms acc).value = .ok value) :
    (scope.accumulate whole terms acc).labels = [] ∧
      (scope.atBase base).accumulate whole terms (acc + d) = { value := .ok (value + d) } := by
  induction terms generalizing acc with
  | nil =>
      cases h
      exact ⟨rfl, rfl⟩
  | cons term rest ih =>
      obtain ⟨hsign, hadd⟩ := hterms term List.mem_cons_self
      obtain ⟨v, next, hv, hnext, hrest⟩ := exists_of_accumulate_cons h
      obtain ⟨heq, hlabels⟩ :=
        operand_atBase_of_labelSign?_eq_none base hsign whole
      obtain ⟨hnil, hmoved⟩ := ih (fun t ht => hterms t (List.mem_cons_of_mem _ ht)) hrest
      have hnext' : term.operator.apply (acc + d) v = some (next + d) := by
        cases hop : term.operator with
        | add =>
            simp only [hop, Operator.apply, Option.some.injEq] at hnext ⊢
            grind
        | sub =>
            simp only [hop, Operator.apply, Option.some.injEq] at hnext ⊢
            grind
        | mul => simp [hop, Operator.isAdditive] at hadd
        | div => simp [hop, Operator.isAdditive] at hadd
      rw [accumulate_cons_of_some hv hnext, accumulate_cons_of_some (heq ▸ hv) hnext', heq,
        hlabels, hnil, hmoved]
      exact ⟨rfl, rfl⟩

theorem accumulate_atBase_of_oneLabelAdded {scope : Scope} {whole : List Char}
    {terms : List Term} {acc value : Int64} (base : UInt32)
    (hterms : scope.oneLabelAdded terms = true)
    (h : (scope.accumulate whole terms acc).value = .ok value) :
    ∃ name, (scope.accumulate whole terms acc).labels = [name] ∧
      (scope.atBase base).accumulate whole terms acc =
        { labels := [name], value := .ok (value + scope.distance base) } := by
  induction terms generalizing acc with
  | nil => cases hterms
  | cons term rest ih =>
      obtain ⟨v, next, hv, hnext, hrest⟩ := exists_of_accumulate_cons h
      rw [oneLabelAdded] at hterms
      split at hterms
      · rename_i hsign
        obtain ⟨heq, hlabels⟩ :=
          operand_atBase_of_labelSign?_eq_none base hsign whole
        obtain ⟨name, hname, hmoved⟩ := ih hterms hrest
        refine ⟨name, ?_, ?_⟩
        · rw [accumulate_cons_of_some hv hnext, hlabels, hname, List.nil_append]
        · rw [accumulate_cons_of_some (heq ▸ hv) hnext, heq, hlabels, hmoved, List.nil_append]
      · rename_i sign hsign
        simp only [Bool.and_eq_true, decide_eq_true_eq, List.all_eq_true,
          Option.isNone_iff_eq_none] at hterms
        obtain ⟨hnet, hfollow⟩ := hterms
        obtain ⟨symbol, hsymbol⟩ := exists_operand_of_labelSign? hsign whole
        have hhere : scope.operand whole term.operand = _ := hsymbol scope.base
        have hthere := hsymbol base
        -- the address enters with a plus, so the accumulated value moves with the base
        have hnext' : term.operator.apply acc
            (sign.apply ((scope.atBase base).address symbol.offset)) =
              some (next + scope.distance base) := by
          have hv' : v = sign.apply (scope.address symbol.offset) := by
            rw [hhere] at hv
            exact (Except.ok.inj hv).symm
          rw [address_atBase]
          cases hop : term.operator <;> cases sign <;>
            simp_all [Operator.netSign?, Operator.apply, Sign.apply] <;> grind
        obtain ⟨hnil, hmoved⟩ :=
          accumulate_atBase_of_additive base (scope.distance base) hfollow hrest
        refine ⟨symbol.name, ?_, ?_⟩
        · rw [accumulate_cons_of_some hv hnext, hhere, hnil, List.append_nil]
        · rw [accumulate_cons_of_some (by rw [hthere]) hnext', hthere, hmoved]
          rfl

/-! ### Arguments -/

/-- An argument that consults no label has one value for all bases. -/
theorem evaluate_atBase_of_labels_eq_nil {scope : Scope} {text : Text} (base : UInt32)
    (h : (scope.evaluate text).labels = []) :
    (scope.atBase base).evaluate text = scope.evaluate text := by
  rw [evaluate, evaluateChars] at h
  rw [evaluate, evaluateChars, evaluate, evaluateChars]
  cases hlabel : scope.isLabel text.unspaced with
  | true =>
      obtain ⟨symbol, hsymbol⟩ := exists_atom?_of_isLabel hlabel
      have hhere : scope.atom? text.unspaced = _ := hsymbol scope.base
      rw [hhere] at h
      cases h
  | false =>
      rw [atom?_atBase_of_isLabel_eq_false base hlabel]
      cases hatom : scope.atom? text.unspaced with
      | some e => rfl
      | none =>
          rw [hatom] at h
          simp only at h ⊢
          split
          · rename_i hany
            rw [if_pos hany] at h
            exact accumulate_atBase_of_labels_eq_nil base h
          · rfl

/-- The value of an argument in which one label is added moves with the base. -/
theorem evaluate_atBase_of_addsOneLabel {scope : Scope} {text : Text} {value : Int64}
    (base : UInt32) (h : scope.addsOneLabel text = true)
    (hvalue : (scope.evaluate text).value = .ok value) :
    ∃ name, (scope.evaluate text).labels = [name] ∧
      (scope.atBase base).evaluate text =
        { labels := [name], value := .ok (value + scope.distance base) } := by
  cases hlabel : scope.isLabel text.unspaced with
  | true =>
      obtain ⟨symbol, hsymbol⟩ := exists_atom?_of_isLabel hlabel
      have hhere : scope.atom? text.unspaced = _ := hsymbol scope.base
      have hevaluate : scope.evaluate text =
          { labels := [symbol.name], value := .ok (scope.address symbol.offset) } := by
        rw [evaluate, evaluateChars, hhere]
        rfl
      rw [hevaluate] at hvalue ⊢
      cases hvalue
      refine ⟨symbol.name, rfl, ?_⟩
      rw [evaluate, evaluateChars, hsymbol base, ← address_atBase]
  | false =>
      rw [addsOneLabel, hlabel, Bool.false_or, Bool.and_eq_true, Option.isNone_iff_eq_none] at h
      obtain ⟨hatom, hterms⟩ := h
      rw [evaluate, evaluateChars, hatom] at hvalue
      rw [evaluate, evaluateChars, evaluate, evaluateChars,
        atom?_atBase_of_isLabel_eq_false base hlabel, hatom]
      simp only at hvalue ⊢
      split at hvalue
      · rename_i hany
        simp only [hany, if_true]
        exact accumulate_atBase_of_oneLabelAdded base hterms hvalue
      · cases hvalue

end Scope

end FlatAssembler
