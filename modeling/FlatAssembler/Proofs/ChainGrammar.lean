import FlatAssembler.Proofs.LabelUse
import FlatAssembler.Proofs.Line
import FlatAssembler.Proofs.LiteralGrammar
import Mathlib.Data.List.Forall2

/-!
# The grammar of chains

An argument that is not itself a literal, a constant or a label can still be a chain of
such things,

    [sign]atom operator [sign]atom operator [sign]atom ...

where no atom holds an operator. A `Chain` is such a text in its parts, and `Chain.chars`
writes it down. The parts can be told from the text, since a sign stands at the start or
right behind an operator, and an operator never does: `split_chars` and
`exists_chain_of_split` say that cutting a text into terms undoes the writing, and that
texts whose terms are complete are the written ones.

What an operand comes to is a `Reading`. `Scope.Reads` gives it by the order literal,
constant, label, where a sign with decimal digits is one literal, and `Scope.Takes` adds
that nothing is divided by zero. The value of a chain is the left fold of its readings,
computed among the integers and reduced to 64 bits at each step, and the labels among the
readings are what is recorded. `evaluate_eq_ok_iff_chain` says that these are the values
of a session.
-/

namespace FlatAssembler

namespace Sign

/-- A sign is also an operator. -/
theorem isOperator_toChar (sign : Sign) : isOperator sign.toChar = true := by
  cases sign <;> rfl

theorem ofChar?_of_not_isOperator {c : Char} (h : isOperator c = false) : ofChar? c = none := by
  cases hsign : ofChar? c with
  | none => rfl
  | some sign =>
      rw [← toChar_of_ofChar? hsign, isOperator_toChar] at h
      cases h

end Sign

namespace Operator

@[simp] theorem ofChar?_toChar (op : Operator) : ofChar? op.toChar = some op := by
  cases op <;> rfl

theorem toChar_of_ofChar? {c : Char} {op : Operator} (h : ofChar? c = some op) :
    op.toChar = c := by
  unfold ofChar? at h
  split at h <;> cases h <;> rfl

/-- The result among the integers; a quotient is cut off toward zero. -/
def unbounded : Operator → Int → Int → Int
  | .add, a, b => a + b
  | .sub, a, b => a - b
  | .mul, a, b => a * b
  | .div, a, b => a.tdiv b

/-- The result, reduced to 64 bits. -/
def combine (op : Operator) (a b : Int64) : Int64 := Int64.ofInt (op.unbounded a.toInt b.toInt)

theorem combine_add (a b : Int64) : combine .add a b = a + b := by
  simp [combine, unbounded, Int64.ofInt_add]

theorem combine_sub (a b : Int64) : combine .sub a b = a - b := by
  simp [combine, unbounded, Int64.ofInt_sub]

theorem combine_mul (a b : Int64) : combine .mul a b = a * b := by
  simp [combine, unbounded, Int64.ofInt_mul]

theorem combine_div (a b : Int64) : combine .div a b = a / b := by
  apply Int64.toInt_inj.mp
  rw [combine, unbounded, Int64.toInt_ofInt, Int64.toInt_div]

theorem apply_eq_some (op : Operator) {a b : Int64} (h : op = .div → b ≠ 0) :
    op.apply a b = some (op.combine a b) := by
  cases op with
  | add => rw [combine_add, apply]
  | sub => rw [combine_sub, apply]
  | mul => rw [combine_mul, apply]
  | div => rw [combine_div, apply, if_neg (h rfl)]

theorem ne_zero_of_apply {op : Operator} {a b c : Int64} (h : op.apply a b = some c)
    (hop : op = .div) : b ≠ 0 := by
  rintro rfl
  rw [hop] at h
  cases h

end Operator

/-- A sign or none, and a text without operators. -/
structure Factor where
  sign : Option Sign
  atom : List Char
  atom_ne_nil : atom ≠ []
  operatorFree : atom.any isOperator = false

/-- An operand, and further ones with the operators that take them in. -/
structure Chain where
  first : Factor
  rest : List (Operator × Factor)

def Factor.chars (f : Factor) : List Char := (f.sign.map Sign.toChar).toList ++ f.atom

/-- The chain as a text. -/
def Chain.chars (chain : Chain) : List Char :=
  chain.first.chars ++ chain.rest.flatMap fun link => link.1.toChar :: link.2.chars

/-- All operands with the operators that take them in, starting from zero. -/
def Chain.links (chain : Chain) : List (Operator × Factor) := (.add, chain.first) :: chain.rest

/-- What an operand comes to, and the label that it is, if it is one. -/
structure Reading where
  label : Option Text := none
  value : Int64

namespace Reading

/-- The evaluation that ends so. -/
def evaluation (r : Reading) : Evaluation := { labels := r.label.toList, value := .ok r.value }

/-- Takes operands in from the left to the right, all operators alike. -/
def fold (steps : List (Operator × Reading)) (acc : Int64) : Int64 :=
  steps.foldl (fun acc step => step.1.combine acc step.2.value) acc

/-- The labels among the operands. -/
def labels (steps : List (Operator × Reading)) : List Text := steps.filterMap (·.2.label)

end Reading

namespace Scope

/-- A text is a literal in range, else a constant, else a label. -/
inductive Resolves (scope : Scope) (atom : List Char) : Reading → Prop
  | literal {l : Literal} {v : Int64} (shape : Literal.parse? atom = some l)
      (inRange : l.value = .ok v) : Resolves scope atom { value := v }
  | constant {v : Int64} (shape : Literal.parse? atom = none)
      (known : scope.constants.get? (Text.ofChars atom) = some v) :
      Resolves scope atom { value := v }
  | label {symbol : Symbol} (shape : Literal.parse? atom = none)
      (unknown : scope.constants.get? (Text.ofChars atom) = none)
      (known : scope.symbols.find (Text.ofChars atom) = some symbol) :
      Resolves scope atom { label := some symbol.name, value := scope.address symbol.offset }

/-- A sign in front of decimal digits makes one literal with them, and is applied to the
value of anything else. -/
inductive Reads (scope : Scope) (f : Factor) : Reading → Prop
  | unsigned {r : Reading} (plain : f.sign = none) (atom : scope.Resolves f.atom r) :
      Reads scope f r
  | digits {sign : Sign} {v : Int64} (signed : f.sign = some sign)
      (shape : Literal.areDigits Literal.isDecimalDigit f.atom = true)
      (inRange : (Literal.decimal (some sign) f.atom).value = .ok v) : Reads scope f { value := v }
  | signed {sign : Sign} {r : Reading} (signed : f.sign = some sign)
      (shape : Literal.areDigits Literal.isDecimalDigit f.atom = false)
      (atom : scope.Resolves f.atom r) :
      Reads scope f { r with value := sign.apply r.value }

/-- An operand is taken in by what it comes to, which is no zero behind a division. -/
structure Takes (scope : Scope) (link : Operator × Factor) (step : Operator × Reading) : Prop where
  operator : step.1 = link.1
  operand : scope.Reads link.2 step.2
  divisor : step.1 = .div → step.2.value ≠ 0

end Scope

/-! ### Terms of a chain -/

theorem Factor.chars_ne_nil (f : Factor) : f.chars ≠ [] := by
  simp [chars, f.atom_ne_nil]

theorem Factor.isOperator_eq_false (f : Factor) : ∀ c ∈ f.atom, isOperator c = false := by
  simpa using f.operatorFree

/-- An operand with the operator that takes it in, as a term. -/
def Term.ofLink (link : Operator × Factor) : Term := ⟨link.1, link.2.chars⟩

namespace Term

theorem splitFrom_operatorFree {cs : List Char} (h : ∀ c ∈ cs, isOperator c = false)
    (op : Operator) (operand rest : List Char) :
    splitFrom op operand (cs ++ rest) = splitFrom op (cs.reverse ++ operand) rest := by
  induction cs generalizing operand with
  | nil => rfl
  | cons c cs ih =>
      obtain ⟨hc, hcs⟩ := List.forall_mem_cons.mp h
      have hnone : Operator.ofChar? c = none := by simpa [isOperator] using hc
      rw [List.cons_append, splitFrom, hnone, List.reverse_cons, List.append_assoc]
      exact ih hcs (c :: operand)

/-- An operand is read to its end, its sign included. -/
theorem splitFrom_factor (op : Operator) (f : Factor) (rest : List Char) :
    splitFrom op [] (f.chars ++ rest) = splitFrom op f.chars.reverse rest := by
  rw [Factor.chars]
  cases f.sign with
  | none =>
      have h := splitFrom_operatorFree f.isOperator_eq_false op [] rest
      rw [List.append_nil] at h
      exact h
  | some sign =>
      have hop : ∃ next, Operator.ofChar? sign.toChar = some next := by
        cases sign <;> exact ⟨_, rfl⟩
      obtain ⟨next, hnext⟩ := hop
      have h := splitFrom_operatorFree f.isOperator_eq_false op [sign.toChar] rest
      simp [splitFrom, hnext, h]

theorem splitFrom_operator (op next : Operator) {operand : List Char} (h : operand ≠ [])
    (rest : List Char) :
    splitFrom op operand (next.toChar :: rest) =
      ⟨op, operand.reverse⟩ :: splitFrom next [] rest := by
  simp [splitFrom, h]

theorem splitFrom_links (op : Operator) (f : Factor) (links : List (Operator × Factor)) :
    splitFrom op [] (f.chars ++ links.flatMap fun link => link.1.toChar :: link.2.chars) =
      ofLink (op, f) :: links.map ofLink := by
  rw [splitFrom_factor]
  induction links generalizing op f with
  | nil => simp [splitFrom, ofLink]
  | cons link links ih =>
      have hne : f.chars.reverse ≠ [] := by simpa using f.chars_ne_nil
      rw [List.flatMap_cons, List.cons_append, splitFrom_operator op link.1 hne, splitFrom_factor,
        ih link.1 link.2]
      simp [ofLink]

/-- The terms of a written chain are its operands, the first of which is added. -/
theorem split_chars (chain : Chain) :
    split chain.chars = chain.links.map ofLink :=
  splitFrom_links .add chain.first chain.rest

/-- A sign or none, and a text without operators that may still be empty. -/
def IsBegun (operand : List Char) : Prop :=
  ∃ (sign : Option Sign) (atom : List Char),
    operand = (sign.map Sign.toChar).toList ++ atom ∧ ∀ c ∈ atom, isOperator c = false

/-- Neither nothing nor a sign alone. -/
def IsComplete (operand : List Char) : Prop := operand ≠ [] ∧ ∀ sign : Sign, operand ≠ [sign.toChar]

theorem exists_factor {operand : List Char} (h : IsBegun operand) (hc : IsComplete operand) :
    ∃ f : Factor, f.chars = operand := by
  obtain ⟨sign, atom, rfl, hfree⟩ := h
  have hne : atom ≠ [] := by
    rintro rfl
    cases sign with
    | none => exact hc.1 rfl
    | some sign => exact hc.2 sign rfl
  exact ⟨⟨sign, atom, hne, by simpa using hfree⟩, rfl⟩

/-- A text that is cut into complete terms is a written chain. -/
theorem exists_chain_of_splitFrom {op : Operator} {operand cs : List Char}
    (hbegun : IsBegun operand.reverse)
    (h : ∀ term ∈ splitFrom op operand cs, IsComplete term.operand) :
    ∃ chain : Chain, chain.chars = operand.reverse ++ cs := by
  induction cs generalizing op operand with
  | nil =>
      obtain ⟨f, hf⟩ := exists_factor hbegun (h ⟨op, operand.reverse⟩ (by simp [splitFrom]))
      exact ⟨⟨f, []⟩, by simp [Chain.chars, hf]⟩
  | cons c cs ih =>
      rw [splitFrom] at h
      cases hop : Operator.ofChar? c with
      | none =>
          rw [hop] at h
          obtain ⟨sign, atom, heq, hfree⟩ := hbegun
          have hc : isOperator c = false := by simp [isOperator, hop]
          have hnext : IsBegun (c :: operand).reverse := by
            refine ⟨sign, atom ++ [c], by simp [heq], ?_⟩
            intro b hb
            rcases List.mem_append.mp hb with hb | hb
            · exact hfree b hb
            · rw [List.mem_singleton.mp hb]
              exact hc
          obtain ⟨chain, hchain⟩ := ih hnext h
          exact ⟨chain, by simp [hchain]⟩
      | some next =>
          simp only [hop] at h
          split at h
          · -- nothing is begun, so this is a sign and not the next operator
            rename_i hsign
            obtain ⟨rfl, hsome⟩ := hsign
            obtain ⟨sign, hsign⟩ := Option.isSome_iff_exists.mp hsome
            have hnext : IsBegun [c].reverse :=
              ⟨some sign, [], by simp [Sign.toChar_of_ofChar? hsign], nofun⟩
            obtain ⟨chain, hchain⟩ := ih hnext h
            exact ⟨chain, by simp [hchain]⟩
          · obtain ⟨hfirst, hrest⟩ := List.forall_mem_cons.mp h
            obtain ⟨f, hf⟩ := exists_factor hbegun hfirst
            have hnext : IsBegun ([] : List Char).reverse := ⟨none, [], rfl, nofun⟩
            obtain ⟨chain, hchain⟩ := ih hnext hrest
            refine ⟨⟨f, (next, chain.first) :: chain.rest⟩, ?_⟩
            rw [List.reverse_nil, List.nil_append, Chain.chars] at hchain
            simp [Chain.chars, hf, ← hchain, Operator.toChar_of_ofChar? hop]

theorem exists_chain_of_split {cs : List Char}
    (h : ∀ term ∈ split cs, IsComplete term.operand) : ∃ chain : Chain, chain.chars = cs :=
  exists_chain_of_splitFrom ⟨none, [], rfl, nofun⟩ h

end Term

/-! ### What operands come to -/

namespace Scope

variable {scope : Scope}

theorem atom_of_resolves {cs : List Char} {r : Reading} (h : scope.Resolves cs r) :
    scope.atom cs = r.evaluation := by
  cases h with
  | literal shape inRange => simp [atom, atom?, shape, inRange, Reading.evaluation]
  | constant shape known => simp [atom, atom?, shape, known, Reading.evaluation]
  | label shape unknown known => simp [atom, atom?, shape, unknown, known, Reading.evaluation]

theorem exists_resolves {cs : List Char} {value : Int64} (h : (scope.atom cs).value = .ok value) :
    ∃ r, scope.Resolves cs r := by
  rw [atom, atom?] at h
  cases hl : Literal.parse? cs with
  | some l =>
      rw [hl] at h
      exact ⟨_, .literal hl h⟩
  | none =>
      rw [hl] at h
      cases hc : scope.constants.get? (Text.ofChars cs) with
      | some v => exact ⟨_, .constant hl hc⟩
      | none =>
          rw [hc] at h
          cases hs : scope.symbols.find (Text.ofChars cs) with
          | some symbol => exact ⟨_, .label hl hc hs⟩
          | none =>
              rw [hs] at h
              cases h

theorem operand_of_unsigned {f : Factor} (h : f.sign = none) (whole : List Char) :
    scope.operand whole f.chars = scope.atom f.atom := by
  have hchars : f.chars = f.atom := by simp [Factor.chars, h]
  obtain ⟨c, rest, hatom⟩ := List.exists_cons_of_ne_nil f.atom_ne_nil
  have hc : Sign.ofChar? c = none :=
    Sign.ofChar?_of_not_isOperator (f.isOperator_eq_false c (by simp [hatom]))
  rw [hchars, hatom, operand, hc]

theorem operand_of_signed {f : Factor} {sign : Sign} (h : f.sign = some sign)
    (whole : List Char) :
    scope.operand whole f.chars =
      if Literal.areDigits Literal.isDecimalDigit f.atom then
        { value := (Literal.decimal (some sign) f.atom).value }
      else (scope.atom f.atom).map sign.apply := by
  have hchars : f.chars = sign.toChar :: f.atom := by simp [Factor.chars, h]
  rw [hchars, operand, Sign.ofChar?_toChar, Literal.parse?_sign_cons, Literal.decimal?]
  simp only [f.atom_ne_nil, if_false]
  cases Literal.areDigits Literal.isDecimalDigit f.atom <;> rfl

theorem operand_of_reads {f : Factor} {r : Reading} (h : scope.Reads f r) (whole : List Char) :
    scope.operand whole f.chars = r.evaluation := by
  cases h with
  | unsigned plain atom => rw [operand_of_unsigned plain, atom_of_resolves atom]
  | digits signed shape inRange =>
      rw [operand_of_signed signed, if_pos shape, inRange]
      rfl
  | signed signed shape atom =>
      rw [operand_of_signed signed, shape, atom_of_resolves atom]
      rfl

theorem exists_reads {f : Factor} {whole : List Char} {value : Int64}
    (h : (scope.operand whole f.chars).value = .ok value) : ∃ r, scope.Reads f r := by
  cases hsign : f.sign with
  | none =>
      rw [operand_of_unsigned hsign] at h
      obtain ⟨r, hr⟩ := exists_resolves h
      exact ⟨r, .unsigned hsign hr⟩
  | some sign =>
      rw [operand_of_signed hsign] at h
      cases hshape : Literal.areDigits Literal.isDecimalDigit f.atom with
      | true =>
          rw [hshape] at h
          exact ⟨_, .digits hsign hshape h⟩
      | false =>
          rw [hshape] at h
          have hatom : ∃ v, (scope.atom f.atom).value = .ok v := by
            cases hv : (scope.atom f.atom).value with
            | ok v => exact ⟨v, rfl⟩
            | error cause => simp [Evaluation.map, hv, Except.map] at h
          obtain ⟨v, hv⟩ := hatom
          obtain ⟨r, hr⟩ := exists_resolves hv
          exact ⟨_, .signed hsign hshape hr⟩

theorem isComplete_of_operand {whole cs : List Char} {value : Int64}
    (h : (scope.operand whole cs).value = .ok value) : Term.IsComplete cs := by
  constructor
  · rintro rfl
    cases h
  · rintro sign rfl
    rw [operand, Sign.ofChar?_toChar] at h
    cases h

/-! ### What chains come to -/

theorem isComplete_of_accumulate {whole : List Char} {terms : List Term} {acc value : Int64}
    (h : (scope.accumulate whole terms acc).value = .ok value) :
    ∀ term ∈ terms, Term.IsComplete term.operand := by
  induction terms generalizing acc with
  | nil => nofun
  | cons term rest ih =>
      obtain ⟨v, next, hv, -, hrest⟩ := exists_of_accumulate_cons h
      exact List.forall_mem_cons.mpr ⟨isComplete_of_operand hv, ih hrest⟩

/-- Operands that are taken in give the value of their fold. -/
theorem accumulate_of_takes {links : List (Operator × Factor)}
    {steps : List (Operator × Reading)} (h : List.Forall₂ scope.Takes links steps)
    (whole : List Char) (acc : Int64) :
    scope.accumulate whole (links.map Term.ofLink) acc =
      { labels := Reading.labels steps, value := .ok (Reading.fold steps acc) } := by
  -- the labels do not depend on the accumulated value, which differs at each step
  induction h generalizing acc with
  | nil => rfl
  | @cons link step links steps htakes _ ih =>
      have hoperand := operand_of_reads htakes.operand whole
      have hvalue : (scope.operand whole (Term.ofLink link).operand).value = .ok step.2.value :=
        congrArg Evaluation.value hoperand
      have happly : (Term.ofLink link).operator.apply acc step.2.value =
          some (step.1.combine acc step.2.value) := by
        rw [Term.ofLink, ← htakes.operator]
        exact step.1.apply_eq_some htakes.divisor
      rw [List.map_cons, accumulate_cons_of_some hvalue happly, ih]
      have hlabels : (scope.operand whole (Term.ofLink link).operand).labels =
          step.2.label.toList := congrArg Evaluation.labels hoperand
      rw [hlabels]
      cases hlabel : step.2.label <;> simp [Reading.labels, Reading.fold, hlabel]

/-- Operands that have a value together are taken in. -/
theorem exists_takes {links : List (Operator × Factor)} {whole : List Char} {acc value : Int64}
    (h : (scope.accumulate whole (links.map Term.ofLink) acc).value = .ok value) :
    ∃ steps, List.Forall₂ scope.Takes links steps := by
  induction links generalizing acc with
  | nil => exact ⟨[], .nil⟩
  | cons link links ih =>
      obtain ⟨v, next, hv, hnext, hrest⟩ := exists_of_accumulate_cons h
      obtain ⟨r, hr⟩ := exists_reads hv
      obtain ⟨steps, hsteps⟩ := ih hrest
      have hvalue : r.value = v := by
        rw [Term.ofLink, operand_of_reads hr] at hv
        exact Except.ok.inj hv
      refine ⟨(link.1, r) :: steps, .cons ⟨rfl, hr, ?_⟩ hsteps⟩
      rw [hvalue]
      exact Operator.ne_zero_of_apply hnext

/-- A text that is no atom has a value if it is a chain whose operands are taken in. -/
theorem evaluateChars_eq_iff {cs : List Char} (h : scope.atom? cs = none) (labels : List Text)
    (value : Int64) :
    scope.evaluateChars cs = { labels, value := .ok value } ↔
      cs.any isOperator = true ∧ ∃ chain steps, Chain.chars chain = cs ∧
        List.Forall₂ scope.Takes chain.links steps ∧ labels = Reading.labels steps ∧
        value = Reading.fold steps 0 := by
  rw [evaluateChars, h]
  simp only
  constructor
  · intro heq
    split at heq
    · rename_i hany
      have hvalue : (scope.accumulate cs (Term.split cs) 0).value = .ok value := by rw [heq]
      obtain ⟨chain, rfl⟩ := Term.exists_chain_of_split (isComplete_of_accumulate hvalue)
      rw [Term.split_chars] at hvalue heq
      obtain ⟨steps, hsteps⟩ := exists_takes hvalue
      rw [accumulate_of_takes hsteps] at heq
      cases heq
      exact ⟨hany, chain, steps, rfl, hsteps, rfl, rfl⟩
    · cases heq
  · rintro ⟨hany, chain, steps, rfl, hsteps, rfl, rfl⟩
    rw [if_pos hany, Term.split_chars, accumulate_of_takes hsteps]

end Scope

/-! ### Evaluation in a session -/

namespace Session

/-- An argument that is itself no literal, constant or label has a value if it is a chain
with an operator whose operands have values, none of them zero behind a division. Its value
is their fold, and the labels among them are recorded at the end of the output. -/
theorem evaluate_eq_ok_iff_chain (s t : Session) (text : Text) (value : Int64)
    (hliteral : Literal.parse? text.unspaced = none)
    (hconstant : s.constants.get? (Text.ofChars text.unspaced) = none)
    (hlabel : s.symbols.find (Text.ofChars text.unspaced) = none) :
    s.evaluate text = (t, .ok value) ↔
      text.unspaced.any isOperator = true ∧ ∃ chain steps,
        Chain.chars chain = text.unspaced ∧ List.Forall₂ s.scope.Takes chain.links steps ∧
        value = Reading.fold steps 0 ∧
        t = { s with
          relocations := s.relocations ++ s.entries (Reading.labels steps)
          warnings := s.warnings ++ s.cautions (Reading.labels steps) } := by
  have hatom : s.scope.atom? text.unspaced = none := by
    simp [Scope.atom?, hliteral, scope, hconstant, hlabel]
  rw [evaluate]
  constructor
  · intro h
    obtain ⟨ht, hvalue⟩ := Prod.mk.inj h
    have heval : s.scope.evaluateChars text.unspaced =
        { labels := (s.scope.evaluate text).labels, value := .ok value } := by
      rw [← hvalue]
      rfl
    obtain ⟨hany, chain, steps, hchars, hsteps, hlabels, hfold⟩ :=
      (Scope.evaluateChars_eq_iff hatom _ _).mp heval
    refine ⟨hany, chain, steps, hchars, hsteps, hfold, ?_⟩
    rw [← ht, hlabels, record_eq]
  · rintro ⟨hany, chain, steps, hchars, hsteps, hfold, rfl⟩
    have heval : s.scope.evaluate text = _ :=
      (Scope.evaluateChars_eq_iff hatom _ _).mpr
        ⟨hany, chain, steps, hchars, hsteps, rfl, hfold⟩
    rw [heval, record_eq]

/-- The least number is in range with its sign, the sum is multiplied as a whole, which wraps
around, and the label goes into a slot that is too narrow for it. -/
theorem evaluate_eq_ok_iff_chain_wrapping :
    let s : Session :=
      { base := 256, constants := [("K", 3)], symbols := [{ name := "L", offset := 4 }]
        bytes := #[0, 0, 0], slot := some .half }
    let text : Text := " - 9223372036854775808 + L * -K / 0x2"
    Literal.parse? text.unspaced = none ∧
      s.constants.get? (Text.ofChars text.unspaced) = none ∧
      s.symbols.find (Text.ofChars text.unspaced) = none ∧
      s.evaluate text =
        ({ s with relocations := #[3], warnings := #[⟨s.site, "L", some .half⟩] },
          .ok 4611686018427387514) := by
  intro s text
  have hliteral : Literal.parse? text.unspaced = none := by decide +kernel
  have hconstant : s.constants.get? (Text.ofChars text.unspaced) = none := by decide +kernel
  have hlabel : s.symbols.find (Text.ofChars text.unspaced) = none := by decide +kernel
  let chain : Chain :=
    { first := ⟨some .minus, "9223372036854775808".toList, by decide, by decide⟩
      rest :=
        [(.add, ⟨none, ['L'], by decide, by decide⟩),
          (.mul, ⟨some .minus, ['K'], by decide, by decide⟩),
          (.div, ⟨none, ['0', 'x', '2'], by decide, by decide⟩)] }
  let steps : List (Operator × Reading) :=
    [(.add, { value := Int64.minValue }), (.add, { label := "L", value := 260 }),
      (.mul, { value := -3 }), (.div, { value := 2 })]
  have hL : s.scope.symbols.find (Text.ofChars ['L']) = some { name := "L", offset := 4 } := by
    decide +kernel
  have hK : s.scope.Resolves ['K'] { value := 3 } := .constant (by decide) (by decide +kernel)
  have hminus : s.scope.Reads ⟨some .minus, ['K'], by decide, by decide⟩ { value := -3 } :=
    @Scope.Reads.signed _ _ .minus { value := 3 } rfl (by decide) hK
  have htwo : Literal.parse? ['0', 'x', '2'] = some (.hex ['2']) := by decide
  have hsteps : List.Forall₂ s.scope.Takes chain.links steps :=
    .cons ⟨rfl, .digits rfl (by decide) (by decide +kernel), nofun⟩ <|
    .cons ⟨rfl, .unsigned rfl (.label (by decide) (by decide +kernel) hL), nofun⟩ <|
    .cons ⟨rfl, hminus, nofun⟩ <|
    .cons ⟨rfl, .unsigned rfl (.literal htwo (by decide +kernel)), by decide⟩ .nil
  exact ⟨hliteral, hconstant, hlabel,
    (evaluate_eq_ok_iff_chain s _ text _ hliteral hconstant hlabel).mpr
      ⟨by decide +kernel, chain, steps, by decide +kernel, hsteps, by decide +kernel,
        by decide +kernel⟩⟩

end Session

end FlatAssembler
