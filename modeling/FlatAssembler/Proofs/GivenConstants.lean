import FlatAssembler.CommandLine.Settings
import FlatAssembler.Proofs.Constancy
import FlatAssembler.Proofs.DataLine
import Mathlib.Data.Bool.AllAny

/-!
# Constants from the command line

A pair gives a name its value, and the source finds the name again by evaluating it. The
two do not agree on what a name is. A pair keeps the bytes in front of its equals sign, less
the blanks at both ends; an expression has no blanks at all, is made of characters, and is a
literal before it is a name.

`account_definePairs` says what a table holds after any pairs: of each name the value of the
last pair that has it. So a name that both sides spell alike stands for this value
(`evaluate_given`), and `not_allStand_given` shows three kinds of names that do not.
-/

namespace FlatAssembler

namespace Scope

/-- What has the shape of a literal is one, whatever is defined. -/
theorem evaluate_of_literal (scope : Scope) {text : Text} {l : Literal}
    (h : Literal.parse? text.unspaced = some l) : scope.evaluate text = { value := l.value } := by
  rw [evaluate, evaluateChars, atom?, h]

/-- Without symbols there are no labels. -/
theorem labels_evaluate_of_symbols_eq_nil {scope : Scope} (h : scope.symbols = [])
    (text : Text) : (scope.evaluate text).labels = [] := by
  have hlabel (cs : List Char) : scope.isLabel cs = false := by
    simp [isLabel, h, SymbolTable.find]
  have hsign (cs : List Char) : scope.labelSign? cs = none := by
    cases cs with
    | nil => rfl
    | cons c rest => cases hc : Sign.ofChar? c <;> simp [labelSign?, hc, hlabel]
  have hcount : scope.labelOperands text = 0 := by
    cases hatom : scope.atom? text.unspaced <;> simp [labelOperands, hatom, hlabel, hsign]
  have hle : (scope.evaluate text).labels.length ≤ scope.labelOperands text :=
    (length_labels_evaluate text).1
  rw [hcount] at hle
  exact List.eq_nil_of_length_eq_zero (Nat.le_zero.mp hle)

end Scope

namespace CommandLine

/-! ### Pairs -/

/-- The pair has this name in front of its first equals sign and a literal of this value
behind it. -/
def Spells (pair name : Text) (value : Int64) : Prop :=
  ∃ front back, pair = front ++ '='.toUInt8 :: back ∧ '='.toUInt8 ∉ front ∧
    Text.trim front = name ∧ Literal.read? back = some value

/-- The last pair with this name has this value. -/
def LastSpells (pairs : List Text) (name : Text) (value : Int64) : Prop :=
  ∃ before last after, pairs = before ++ last :: after ∧ Spells last name value ∧
    ∀ pair ∈ after, ∀ other, ¬Spells pair name other

variable {start constants : Constants} {pair name other : Text} {pairs : List Text}
  {value value' : Int64}

theorem spells_of_parsePair (h : parsePair pair = .ok (name, value)) : Spells pair name value := by
  rw [parsePair] at h
  split at h
  · cases h
  · rename_i front back hcut
    split at h
    · cases h
    · split at h
      · rename_i v hread
        cases h
        obtain ⟨hpair, hfront⟩ := eq_append_separator_of_cutAt hcut
        exact ⟨front, back, hpair, hfront, rfl, hread⟩
      · cases h

/-- A pair spells one name with one value. -/
theorem Spells.unique (h : Spells pair name value) (h' : Spells pair other value') :
    name = other ∧ value = value' := by
  obtain ⟨front, back, rfl, hfront, rfl, hread⟩ := h
  obtain ⟨front', back', hpair, hfront', rfl, hread'⟩ := h'
  have hcut := cutAt_append_separator hfront back
  rw [hpair, cutAt_append_separator hfront' back'] at hcut
  obtain ⟨rfl, hback⟩ := Prod.mk.inj hcut
  obtain rfl := Option.some.inj hback
  exact ⟨rfl, Option.some.inj (hread.symm.trans hread')⟩

theorem LastSpells.cons (h : LastSpells pairs name value) (pair : Text) :
    LastSpells (pair :: pairs) name value := by
  obtain ⟨before, last, after, rfl, hlast, hafter⟩ := h
  exact ⟨pair :: before, last, after, rfl, hlast, hafter⟩

theorem definePairs_cons_eq_none {rest : List Text}
    (h : definePairs start (pair :: rest) = (constants, none)) :
    ∃ name value, parsePair pair = .ok (name, value) ∧
      definePairs (Constants.assign name value start) rest = (constants, none) := by
  rw [definePairs] at h
  split at h
  · cases h
  · exact ⟨_, _, ‹_›, h⟩

/-- All pairs that are accepted spell something. -/
theorem exists_spells_of_mem (h : definePairs start pairs = (constants, none))
    (hpair : pair ∈ pairs) : ∃ name value, Spells pair name value := by
  induction pairs generalizing start with
  | nil => cases hpair
  | cons first rest ih =>
      obtain ⟨name, value, hparse, hrest⟩ := definePairs_cons_eq_none h
      rcases List.mem_cons.mp hpair with rfl | hmem
      · exact ⟨name, value, spells_of_parsePair hparse⟩
      · exact ih hrest hmem

/-- After the pairs, a name has the value of the last pair with this name, or else the value
that it had before them. -/
theorem account_definePairs (h : definePairs start pairs = (constants, none)) (name : Text) :
    (∃ value, LastSpells pairs name value ∧ constants.get? name = some value) ∨
      (∀ pair ∈ pairs, ∀ value, ¬Spells pair name value) ∧
        constants.get? name = start.get? name := by
  induction pairs generalizing start with
  | nil =>
      cases h
      exact Or.inr ⟨nofun, rfl⟩
  | cons pair rest ih =>
      obtain ⟨given, value, hparse, hrest⟩ := definePairs_cons_eq_none h
      have hpair := spells_of_parsePair hparse
      rcases ih hrest with ⟨later, hlast, hget⟩ | ⟨hnone, hget⟩
      · exact Or.inl ⟨later, hlast.cons pair, hget⟩
      · rw [Constants.get?_assign] at hget
        by_cases hname : name = given
        · subst hname
          refine Or.inl ⟨value, ⟨[], pair, rest, rfl, hpair, hnone⟩, ?_⟩
          rw [hget, if_pos rfl]
        · refine Or.inr ⟨?_, by rw [hget, if_neg hname]⟩
          rw [List.forall_mem_cons]
          exact ⟨fun other hother => hname (hother.unique hpair).1, hnone⟩

/-! ### Names -/

/-- In this session the name stands for the value of the last pair with this name, and
nothing is recorded when it is used. -/
def StandsFor (s : Session) (pairs : List Text) (name : Text) : Prop :=
  ∃ value, LastSpells pairs name value ∧ s.evaluate name = (s, .ok value)

/-- A name of which an expression sees every byte. -/
structure IsPlain (name : Text) : Prop where
  wellFormed : Text.ofChars name.chars = name
  solid : ∀ c ∈ name.chars, isBlank c = false

theorem IsPlain.unspaced (h : IsPlain name) : name.unspaced = name.chars :=
  withoutBlanks_eq_self h.solid

theorem IsPlain.evaluate_of_constant {s : Session} (h : IsPlain name)
    (hliteral : Literal.parse? name.chars = none) (hget : s.constants.get? name = some value) :
    s.evaluate name = (s, .ok value) := by
  have hvalue := Session.evaluate_of_constant h.solid hliteral (h.wellFormed.symm ▸ hget)
  rwa [h.wellFormed] at hvalue

/-- Take a session with the constants of any pairs that are accepted, and the name of one of
them. If no byte of the name is lost on the way into an expression, it stands for the value of
the last pair with this name, unless it has the shape of a literal and is that literal. In no
case is anything recorded. -/
theorem evaluate_given (pairs : List Text) (constants : Constants)
    (h : definePairs [] pairs = (constants, none)) (base : UInt32) (strict listed : Bool) :
    let s : Session := { base, constants, strict, listed }
    ∀ pair ∈ pairs, ∃ name value, Spells pair name value ∧ (s.evaluate name).1 = s ∧
      (IsPlain name →
        (Literal.parse? name.chars = none → StandsFor s pairs name) ∧
        ∀ l, Literal.parse? name.chars = some l → (s.evaluate name).2 = l.value) := by
  intro s pair hpair
  obtain ⟨name, value, hspells⟩ := exists_spells_of_mem h hpair
  refine ⟨name, value, hspells, ?_, fun hplain => ⟨fun hliteral => ?_, fun l hliteral => ?_⟩⟩
  · have hlabels : (s.scope.evaluate name).labels = [] :=
      Scope.labels_evaluate_of_symbols_eq_nil rfl name
    rw [Session.evaluate, hlabels]
    rfl
  · rcases account_definePairs h name with ⟨last, hlast, hget⟩ | ⟨hnone, -⟩
    · exact ⟨last, hlast, hplain.evaluate_of_constant hliteral hget⟩
    · exact absurd hspells (hnone pair hpair value)
  · rw [← hplain.unspaced] at hliteral
    rw [Session.evaluate, s.scope.evaluate_of_literal hliteral]

/-- Blanks around a name do not count, its last pair does, and a number keeps its value. -/
theorem evaluate_given_again :
    let pairs : List Text := [" A =1", "5=7", "B=0x10", "A= - 3"]
    let constants : Constants := [("A", -3), ("5", 7), ("B", 16)]
    let s : Session := { base := 4096, constants, strict := true }
    definePairs [] pairs = (constants, none) ∧ LastSpells pairs "A" (-3) ∧
      StandsFor s pairs "A" ∧ (s.evaluate "5").2 = .ok 5 := by
  intro pairs constants s
  have haccepted : definePairs [] pairs = (constants, none) := by decide +kernel
  have hfirst : parsePair " A =1" = .ok (Text.ofString "A", 1) := by decide +kernel
  have hnumber : parsePair "5=7" = .ok (Text.ofString "5", 7) := by decide +kernel
  have hlast : parsePair "A= - 3" = .ok (Text.ofString "A", -3) := by decide +kernel
  have hletter : IsPlain "A" :=
    ⟨by decide +kernel, List.all_iff_forall_prop.mp (by decide +kernel)⟩
  have hdigit : IsPlain "5" :=
    ⟨by decide +kernel, List.all_iff_forall_prop.mp (by decide +kernel)⟩
  refine ⟨haccepted, ⟨[" A =1", "5=7", "B=0x10"], _, [], rfl, spells_of_parsePair hlast, nofun⟩,
    ?_, ?_⟩
  · obtain ⟨name, value, hspells, -, hplain⟩ :=
      evaluate_given pairs constants haccepted 4096 true false " A =1" List.mem_cons_self
    obtain ⟨rfl, -⟩ := (spells_of_parsePair hfirst).unique hspells
    exact (hplain hletter).1 (by decide +kernel)
  · obtain ⟨name, value, hspells, -, hplain⟩ :=
      evaluate_given pairs constants haccepted 4096 true false "5=7" (by decide)
    obtain ⟨rfl, -⟩ := (spells_of_parsePair hnumber).unique hspells
    have hliteral := (hplain hdigit).2 (.decimal none ['5']) (by decide +kernel)
    exact hliteral.trans (by decide +kernel)

/-- The names of the pairs all stand for what they were given. -/
def AllStand (s : Session) (pairs : List Text) : Prop :=
  ∀ pair ∈ pairs, ∃ name value, Spells pair name value ∧ StandsFor s pairs name

theorem not_allStand_singleton {s : Session} (name : Text) (value : Int64)
    (hpair : parsePair pair = .ok (name, value)) (h : (s.evaluate name).2 ≠ .ok value) :
    ¬AllStand s [pair] := by
  intro hall
  obtain ⟨other, value', hspells, last, ⟨before, lastPair, after, heq, hlast, -⟩, heval⟩ :=
    hall pair List.mem_cons_self
  obtain rfl : lastPair = pair := by
    have hmem : lastPair ∈ [pair] := heq ▸ by simp
    exact List.mem_singleton.mp hmem
  obtain ⟨rfl, rfl⟩ := (spells_of_parsePair hpair).unique hlast
  exact h (congrArg Prod.snd heval)

/-- A number, a name with a blank in it and a name with a stray byte are accepted, but an
expression does not find them. -/
theorem not_allStand_given :
    let number : Constants := [("5", 7)]
    let spaced : Constants := [("A B", 5)]
    let stray : Constants := [([0xff], 1)]
    (definePairs [] ["5=7"] = (number, none) ∧ ¬AllStand { constants := number } ["5=7"]) ∧
      (definePairs [] ["A B=5"] = (spaced, none) ∧
        ¬AllStand { constants := spaced } ["A B=5"]) ∧
      definePairs [] [[0xff, 0x3d, 0x31]] = (stray, none) ∧
        ¬AllStand { constants := stray } [[0xff, 0x3d, 0x31]] := by
  intro number spaced stray
  refine ⟨⟨?_, ?_⟩, ⟨?_, ?_⟩, ?_, ?_⟩
  · decide +kernel
  · exact not_allStand_singleton "5" 7 (by decide +kernel) (by decide +kernel)
  · decide +kernel
  · exact not_allStand_singleton "A B" 5 (by decide +kernel) (by decide +kernel)
  · decide +kernel
  · exact not_allStand_singleton [0xff] 1 (by decide +kernel) (by decide +kernel)

end CommandLine

end FlatAssembler
