import FlatAssembler.Statement

/-!
# The grammar of a line

`Statement.parse` walks over a line once and carries the last label and the token
in progress. Here the statement is described by places in the line alone. A place
is idle when a blank stands there, or a dot with a blank right behind it. The
directive starts at the first dot that something other than a blank follows and
that only idle places separate from the colon before it; the label is what stands
in front of the last colon before this dot, less the idle places with which it
begins. `Reads` says this, and `parse_eq_iff_reads` that the walk finds this
statement and no other.

The walk keeps nothing of what it has passed but a label, so `Reads` speaks of the
rest of a line and of the label that is given by what came before. What the walk
passes in one go, an idle place or a piece with its colon, is a front that `Leads`
to the rest, and one lemma carries a reading of the rest back over any such front.
-/

namespace FlatAssembler

/-- The pieces of a list between its separators, one more than there are separators. -/
structure Cuts {α : Type} [DecidableEq α] (separator : α) (xs : List α)
    (pieces : List (List α)) : Prop where
  length : pieces.length = xs.count separator + 1
  notMem : ∀ piece ∈ pieces, separator ∉ piece
  join : [separator].intercalate pieces = xs

theorem cuts_iff {α : Type} [DecidableEq α] {separator : α} {xs : List α}
    {pieces : List (List α)} : Cuts separator xs pieces ↔ splitAt separator xs = pieces := by
  constructor
  · intro h
    have hne : pieces ≠ [] := by
      intro hnil
      simpa [hnil] using h.length
    rw [← h.join]
    exact splitAt_intercalate hne h.notMem
  · rintro rfl
    exact ⟨length_splitAt xs, fun _ => notMem_of_mem_splitAt, intercalate_splitAt xs⟩

theorem Cuts.mem {α : Type} [DecidableEq α] {separator : α} {xs piece last : List α}
    {pieces : List (List α)} (h : Cuts separator xs (pieces ++ [piece, last])) :
    separator ∈ xs := by
  have hlength := h.length
  rw [List.length_append, List.length_cons, List.length_singleton] at hlength
  exact List.count_pos_iff.1 (by omega)

namespace Statement

/-! ### Places -/

def BlankAt (t : List Char) (i : Nat) : Prop :=
  ∃ c, t[i]? = some c ∧ isBlank c = true

/-- A blank, or a dot that stands alone. -/
def IdleAt (t : List Char) (i : Nat) : Prop :=
  BlankAt t i ∨ t[i]? = some '.' ∧ BlankAt t (i + 1)

/-- A dot that something other than a blank follows, with nothing but idle places between the
last colon in front of it, or the start, and the dot. -/
structure DirectiveAt (t : List Char) (d : Nat) : Prop where
  dot : t[d]? = some '.'
  name : ∃ c, t[d + 1]? = some c ∧ isBlank c = false
  idle : ∀ i < d, (∀ j, i ≤ j → j < d → t[j]? ≠ some ':') → IdleAt t i

/-- The name that a piece gives to a label: from its first place that is not idle, without
blanks. -/
def NameIn (piece name : List Char) : Prop :=
  ∃ n, ¬IdleAt piece n ∧ (∀ i < n, IdleAt piece i) ∧ name = withoutBlanks (piece.drop n)

/-- The label of the text in front of a directive. Without a colon it is the one that is given,
otherwise it is named by the last piece but one. -/
def LabelIn (given before label : List Char) : Prop :=
  ':' ∉ before ∧ label = given ∨
    ∃ pieces piece last, Cuts ':' before (pieces ++ [piece, last]) ∧ NameIn piece label

/-- The text is a longest run without blanks and what follows it. -/
structure LeadingRun (t name rest : List Char) : Prop where
  append : name ++ rest = t
  solid : ∀ c ∈ name, isBlank c = false
  ends : ∀ c ∈ rest.head?, isBlank c = true

def ArgumentsIn (rest : List Char) (arguments : List Text) : Prop :=
  (∀ c ∈ rest, isBlank c = true) ∧ arguments = [] ∨
    (∃ c ∈ rest, isBlank c = false) ∧ ∃ pieces, Cuts ',' rest pieces ∧
      arguments = pieces.map fun piece => Text.ofChars (withoutBlanks piece)

/-- The statement of a text without comment, where `given` is the label if no colon comes. -/
inductive Reads (given t : List Char) : Statement → Prop
  | directive {d : Nat} {label name rest : List Char} {arguments : List Text}
      (start : DirectiveAt t d) (least : ∀ e < d, ¬DirectiveAt t e)
      (run : LeadingRun (t.drop (d + 1)) name rest) (args : ArgumentsIn rest arguments)
      (labelled : LabelIn given (t.take d) label) :
      Reads given t
        { label := Text.ofChars label, directive := Text.ofChars name, arguments := arguments }
  | bare {label : List Char} (absent : ∀ d, ¬DirectiveAt t d) (labelled : LabelIn given t label) :
      Reads given t { label := Text.ofChars label }

/-! ### Idle places -/

variable {given label token piece front next t : List Char} {c : Char} {d i : Nat}

theorem isBlank_dot : isBlank '.' = false := by decide

theorem isBlank_colon : isBlank ':' = false := by decide

theorem idleAt_append : IdleAt (front ++ t) (front.length + i) ↔ IdleAt t i := by
  simp [IdleAt, BlankAt, List.getElem?_append_right, Nat.add_assoc]

theorem idleAt_cons_succ : IdleAt (c :: t) (i + 1) ↔ IdleAt t i := by
  simp [IdleAt, BlankAt]

theorem blankAt_append_colon (hi : i ≤ piece.length) :
    BlankAt (piece ++ ':' :: t) i ↔ BlankAt piece i := by
  rcases Nat.lt_or_eq_of_le hi with hlt | rfl
  · rw [BlankAt, BlankAt, List.getElem?_append_left hlt]
  · simp [BlankAt, isBlank_colon]

/-- A dot right in front of a colon is not idle, so a piece shows by itself which of its places
are. -/
theorem idleAt_append_colon (hi : i ≤ piece.length) :
    IdleAt (piece ++ ':' :: t) i ↔ IdleAt piece i := by
  rw [IdleAt, IdleAt, blankAt_append_colon hi]
  rcases Nat.lt_or_eq_of_le hi with hlt | rfl
  · rw [blankAt_append_colon hlt, List.getElem?_append_left hlt]
  · simp

theorem IdleAt.ne_colon (h : IdleAt (c :: t) 0) : ':' ≠ c := by
  rintro rfl
  simp [IdleAt, BlankAt, isBlank_colon] at h

theorem DirectiveAt.not_idleAt (h : DirectiveAt t d) : ¬IdleAt t d := by
  obtain ⟨c, hc, hsolid⟩ := h.name
  simp [IdleAt, BlankAt, h.dot, hc, hsolid, isBlank_dot]

/-- The text starts with a token that is no directive. -/
structure Begins (t : List Char) : Prop where
  not_idleAt : ¬IdleAt t 0
  not_dot : t[0]? ≠ some '.'

/-- No directive starts behind such a token before the next colon. -/
theorem Begins.not_directiveAt (h : Begins t) (hcolon : ∀ j < d, t[j]? ≠ some ':') :
    ¬DirectiveAt t d := by
  intro hd
  cases d with
  | zero => exact h.not_dot hd.dot
  | succ d => exact h.not_idleAt (hd.idle 0 (Nat.zero_lt_succ d) fun j _ hj => hcolon j hj)

/-! ### Fronts -/

/-- The walk passes the front and goes on behind it with the label `next`. No directive starts in
the front, and none behind it is held off by it. -/
structure Leads (given front next t : List Char) : Prop where
  passed : ∀ d < front.length, ¬DirectiveAt (front ++ t) d
  clear : ∀ i < front.length,
    IdleAt (front ++ t) i ∨ ∃ j < front.length, i ≤ j ∧ front[j]? = some ':'
  label : ∀ n label, LabelIn next (t.take n) label → LabelIn given (front ++ t.take n) label

theorem Leads.directiveAt_iff (h : Leads given front next t) :
    DirectiveAt (front ++ t) (front.length + d) ↔ DirectiveAt t d := by
  have hplace (j : Nat) : (front ++ t)[front.length + j]? = t[j]? := by
    simp [List.getElem?_append_right]
  constructor
  · intro hd
    refine ⟨hplace d ▸ hd.dot, hplace (d + 1) ▸ hd.name, fun i hi hcolon => ?_⟩
    refine idleAt_append.1 (hd.idle (front.length + i) (by omega) fun j hij hjd => ?_)
    obtain ⟨k, rfl⟩ := Nat.exists_eq_add_of_le (show front.length ≤ j by omega)
    rw [hplace k]
    exact hcolon k (by omega) (by omega)
  · intro hd
    refine ⟨(hplace d).trans hd.dot, hplace (d + 1) ▸ hd.name, fun i hi hcolon => ?_⟩
    by_cases hlt : i < front.length
    · rcases h.clear i hlt with hidle | ⟨j, hj, hij, hcol⟩
      · exact hidle
      · exact absurd ((List.getElem?_append_left hj).trans hcol) (hcolon j hij (by omega))
    · obtain ⟨k, rfl⟩ := Nat.exists_eq_add_of_le (Nat.le_of_not_lt hlt)
      refine idleAt_append.2 (hd.idle k (by omega) fun j hkj hjd => ?_)
      rw [← hplace j]
      exact hcolon (front.length + j) (by omega) (by omega)

theorem Leads.not_directiveAt_of_lt (h : Leads given front next t)
    (ht : ∀ e < d, ¬DirectiveAt t e) : ∀ e < front.length + d, ¬DirectiveAt (front ++ t) e := by
  intro e he
  by_cases hlt : e < front.length
  · exact h.passed e hlt
  · obtain ⟨k, rfl⟩ := Nat.exists_eq_add_of_le (Nat.le_of_not_lt hlt)
    rw [h.directiveAt_iff]
    exact ht k (by omega)

theorem Leads.reads {st : Statement} (h : Leads given front next t) (hr : Reads next t st) :
    Reads given (front ++ t) st := by
  cases hr with
  | @directive d label name rest arguments start least run args labelled =>
      refine .directive (h.directiveAt_iff.2 start) (h.not_directiveAt_of_lt least) ?_
        args ?_
      · rwa [Nat.add_assoc, List.drop_length_add_append]
      · rw [List.take_length_add_append]
        exact h.label d label labelled
  | bare absent labelled =>
      refine .bare (fun d => ?_) ?_
      · exact h.not_directiveAt_of_lt (d := d + 1) (fun e _ => absent e) d (by omega)
      · rw [← List.take_length (l := t)] at labelled ⊢
        exact h.label _ _ labelled

theorem nameIn_of_not_idleAt (h : ¬IdleAt piece 0) : NameIn piece (withoutBlanks piece) :=
  ⟨0, h, fun _ hi => absurd hi (Nat.not_lt_zero _), rfl⟩

theorem NameIn.cons {name : List Char} (h : NameIn piece name) (hidle : IdleAt (c :: piece) 0) :
    NameIn (c :: piece) name := by
  obtain ⟨n, hn, hbefore, rfl⟩ := h
  refine ⟨n + 1, mt idleAt_cons_succ.1 hn, fun i hi => ?_, rfl⟩
  cases i with
  | zero => exact hidle
  | succ i => exact idleAt_cons_succ.2 (hbefore i (by omega))

theorem LabelIn.cons {before after : List Char} (h : LabelIn given before label)
    (hidle : IdleAt (c :: (before ++ after)) 0) : LabelIn given (c :: before) label := by
  rcases h with ⟨hcolon, rfl⟩ | ⟨pieces, piece, last, hcuts, hname⟩
  · exact Or.inl ⟨by simp [hidle.ne_colon, hcolon], rfl⟩
  · refine Or.inr ?_
    have hbefore := hcuts.join
    rw [cuts_iff] at hcuts
    -- The first piece gets longer, which is the one that names the label if only one follows.
    cases pieces with
    | nil =>
        refine ⟨[], c :: piece, last, ?_, hname.cons ?_⟩
        · exact cuts_iff.2 (splitAt_cons_of_ne hidle.ne_colon.symm hcuts)
        · rw [List.nil_append, List.intercalate_cons_cons, List.intercalate_singleton] at hbefore
          rw [← hbefore, List.append_assoc, List.append_assoc, List.singleton_append,
            ← List.cons_append, ← List.cons_append] at hidle
          exact (idleAt_append_colon (Nat.zero_le _)).1 hidle
    | cons first pieces =>
        exact ⟨(c :: first) :: pieces, piece, last,
          cuts_iff.2 (splitAt_cons_of_ne hidle.ne_colon.symm hcuts), hname⟩

theorem LabelIn.append_colon {before name : List Char} (h : LabelIn name before label)
    (hpiece : ':' ∉ piece) (hname : NameIn piece name) :
    LabelIn given (piece ++ ':' :: before) label := by
  have hsplit := splitAt_append_separator hpiece before
  rcases h with ⟨hcolon, rfl⟩ | ⟨pieces, inner, last, hcuts, hinner⟩
  · refine Or.inr ⟨[], piece, before, cuts_iff.2 ?_, hname⟩
    rw [hsplit, splitAt_of_notMem hcolon, List.nil_append]
  · refine Or.inr ⟨piece :: pieces, inner, last, cuts_iff.2 ?_, hinner⟩
    rw [hsplit, cuts_iff.1 hcuts, List.cons_append]

theorem leads_of_idleAt (h : IdleAt (c :: t) 0) : Leads given [c] given t where
  passed := by
    intro d hd hstart
    obtain rfl : d = 0 := by simpa using hd
    exact hstart.not_idleAt h
  clear := by
    intro i hi
    obtain rfl : i = 0 := by simpa using hi
    exact Or.inl h
  label := by
    intro n label hlabel
    rw [← List.take_append_drop n t] at h
    exact hlabel.cons h

theorem leads_of_colon (h : Begins (piece ++ ':' :: t)) (hpiece : ':' ∉ piece) :
    Leads given (piece ++ [':']) (withoutBlanks piece) t where
  passed := by
    intro d hd
    rw [List.append_assoc, List.singleton_append]
    refine h.not_directiveAt fun j hj hcolon => hpiece ?_
    rw [List.length_append, List.length_singleton] at hd
    rw [List.getElem?_append_left (by omega)] at hcolon
    exact List.mem_of_getElem? hcolon
  clear := by
    intro i hi
    rw [List.length_append, List.length_singleton] at hi
    exact Or.inr ⟨piece.length, by simp, by omega, by simp⟩
  label := by
    intro n label hlabel
    rw [List.append_assoc, List.singleton_append]
    exact hlabel.append_colon hpiece
      (nameIn_of_not_idleAt (mt (idleAt_append_colon (Nat.zero_le _)).2 h.not_idleAt))

/-! ### The walk -/

theorem scan_of_idleAt (h : IdleAt (c :: t) 0) : scan given [] (c :: t) = scan given [] t := by
  rcases h with ⟨b, hb, hblank⟩ | ⟨hdot, b, hb, hblank⟩
  · obtain rfl : c = b := by simpa using hb
    have hdot : c ≠ '.' := by
      rintro rfl
      simp [isBlank_dot] at hblank
    have hcolon : c ≠ ':' := by
      rintro rfl
      simp [isBlank_colon] at hblank
    simp [scan, hdot, hcolon, hblank]
  · obtain rfl : c = '.' := by simpa using hdot
    obtain ⟨rest, rfl⟩ : ∃ rest, t = b :: rest := by
      cases t with
      | nil => simp at hb
      | cons a rest => exact ⟨rest, by simpa using hb⟩
    simp [scan, startsDirective, hblank]

theorem Begins.isBlank_eq_false (h : Begins (c :: t)) : isBlank c = false :=
  eq_false_of_ne_true fun hblank => h.not_idleAt (Or.inl ⟨c, rfl, hblank⟩)

theorem scan_cons (h : token = [] → Begins (c :: t)) (hcolon : c ≠ ':') :
    (withoutBlanks [c]).reverse ++ token ≠ [] ∧
      scan label token (c :: t) = scan label ((withoutBlanks [c]).reverse ++ token) t := by
  have hstart : ¬(c = '.' ∧ token = []) := by
    rintro ⟨rfl, htoken⟩
    exact (h htoken).not_dot rfl
  cases hblank : isBlank c with
  | true =>
      have htoken : token ≠ [] := by
        intro htoken
        simp [(h htoken).isBlank_eq_false] at hblank
      simp [scan, hcolon, hblank, withoutBlanks, htoken]
  | false => simp [scan, hstart, hcolon, hblank, withoutBlanks]

theorem scan_of_notMem (h : token = [] → Begins t) (ht : ':' ∉ t) :
    scan label token t = { label := Text.ofChars label } := by
  induction t generalizing token with
  | nil => rfl
  | cons c t ih =>
      rw [List.mem_cons, not_or] at ht
      obtain ⟨hnext, hscan⟩ := scan_cons h (Ne.symm ht.1)
      rw [hscan, ih (fun hnil => absurd hnil hnext) ht.2]

theorem scan_append_colon (h : token = [] → Begins (piece ++ ':' :: t)) (hpiece : ':' ∉ piece) :
    scan label token (piece ++ ':' :: t) =
      scan (token.reverse ++ withoutBlanks piece) [] t := by
  induction piece generalizing token with
  | nil => simp [scan]
  | cons c piece ih =>
      rw [List.mem_cons, not_or] at hpiece
      rw [List.cons_append] at h ⊢
      obtain ⟨hnext, hscan⟩ := scan_cons h (Ne.symm hpiece.1)
      rw [hscan, ih (fun hnil => absurd hnil hnext) hpiece.2,
        List.reverse_append, List.reverse_reverse, List.append_assoc, ← withoutBlanks_append,
        List.singleton_append]

theorem leadingRun_iff {name rest : List Char} : LeadingRun t name rest ↔
    t.takeWhile (fun c => !isBlank c) = name ∧ t.dropWhile (fun c => !isBlank c) = rest := by
  constructor
  · rintro ⟨rfl, hsolid, hends⟩
    have hname : ∀ c ∈ name, (!isBlank c) = true := by simpa using hsolid
    rw [List.takeWhile_append_of_pos hname, List.dropWhile_append_of_pos hname]
    cases rest with
    | nil => simp
    | cons c rest => simp [hends c rfl]
  · rintro ⟨rfl, rfl⟩
    refine ⟨List.takeWhile_append_dropWhile, fun c hc => ?_, fun c hc => ?_⟩
    · simpa using List.all_eq_true.1 List.all_takeWhile c hc
    · have h := List.head?_dropWhile_not (fun c => !isBlank c) t
      rw [Option.mem_def.1 hc] at h
      simpa using h

theorem argumentsIn_iff {rest : List Char} {arguments : List Text} :
    ArgumentsIn rest arguments ↔ argumentsOf rest = arguments := by
  constructor
  · rintro (⟨hblank, rfl⟩ | ⟨⟨c, hc, hsolid⟩, pieces, hcuts, rfl⟩)
    · rw [argumentsOf, if_pos (List.all_eq_true.2 hblank)]
    · have hnot : ¬rest.all isBlank = true := by
        intro hall
        simp [List.all_eq_true.1 hall c hc] at hsolid
      rw [argumentsOf, if_neg hnot, cuts_iff.1 hcuts]
  · rintro rfl
    rw [argumentsOf]
    split
    next hall => exact Or.inl ⟨List.all_eq_true.1 hall, rfl⟩
    next hnot => exact Or.inr ⟨by simpa using hnot, _, cuts_iff.2 rfl, rfl⟩

theorem labelIn_of_notMem (h : ':' ∉ t) : LabelIn given t given := Or.inl ⟨h, rfl⟩

theorem reads_withDirective (hc : isBlank c = false) :
    Reads given ('.' :: c :: t) (withDirective given (c :: t)) :=
  .directive (d := 0)
    ⟨rfl, ⟨c, rfl, hc⟩, fun _ hi => absurd hi (Nat.not_lt_zero _)⟩
    (fun _ he => absurd he (Nat.not_lt_zero _))
    (leadingRun_iff.2 ⟨rfl, rfl⟩) (argumentsIn_iff.2 rfl)
    (labelIn_of_notMem List.not_mem_nil)

/-- The walk from between two tokens, by what it passes next: an idle place, a dot, or a token
up to its colon or the end of the line. -/
theorem reads_scan (given t : List Char) : Reads given t (scan given [] t) := by
  match t with
  | [] =>
      exact .bare (fun d hd => by simpa using hd.dot) (labelIn_of_notMem List.not_mem_nil)
  | c :: rest =>
      by_cases hidle : IdleAt (c :: rest) 0
      · rw [scan_of_idleAt hidle]
        exact (leads_of_idleAt hidle).reads (reads_scan given rest)
      by_cases hdot : c = '.'
      · subst hdot
        cases rest with
        | nil =>
            refine .bare (fun d hd => ?_) (labelIn_of_notMem (by decide))
            obtain ⟨b, hb, -⟩ := hd.name
            simp at hb
        | cons b rest =>
            have hb : isBlank b = false :=
              eq_false_of_ne_true fun hblank => hidle (Or.inr ⟨rfl, b, rfl, hblank⟩)
            simpa [scan, startsDirective, hb] using reads_withDirective hb
      have hbegins : Begins (c :: rest) := ⟨hidle, by simpa using hdot⟩
      by_cases hcolon : ':' ∈ c :: rest
      · obtain ⟨piece, after, ht, hpiece⟩ := List.eq_append_cons_of_mem hcolon
        have hafter : after.length < (c :: rest).length := by
          rw [ht, List.length_append, List.length_cons]
          omega
        rw [ht] at hbegins ⊢
        rw [scan_append_colon (fun _ => hbegins) hpiece]
        simpa using (leads_of_colon hbegins hpiece).reads (reads_scan (withoutBlanks piece) after)
      · rw [scan_of_notMem (fun _ => hbegins) hcolon]
        refine .bare (fun d => ?_) (labelIn_of_notMem hcolon)
        exact hbegins.not_directiveAt fun j _ hj => hcolon (List.mem_of_getElem? hj)
termination_by t.length
decreasing_by
  · exact Nat.lt_succ_self rest.length
  · exact hafter

/-! ### One reading only -/

theorem eq_of_least {P : Nat → Prop} {m n : Nat} (hm : P m) (hm' : ∀ i < m, ¬P i) (hn : P n)
    (hn' : ∀ i < n, ¬P i) : m = n := by
  rcases Nat.lt_trichotomy m n with hlt | heq | hlt
  · exact absurd hm (hn' m hlt)
  · exact heq
  · exact absurd hn (hm' n hlt)

theorem NameIn.unique {name other : List Char} (h : NameIn piece name)
    (h' : NameIn piece other) : name = other := by
  obtain ⟨n, hn, hbefore, rfl⟩ := h
  obtain ⟨m, hm, hbefore', rfl⟩ := h'
  rw [eq_of_least hn (fun i hi => not_not_intro (hbefore i hi)) hm
    fun i hi => not_not_intro (hbefore' i hi)]

theorem LabelIn.unique {before other : List Char} (h : LabelIn given before label)
    (h' : LabelIn given before other) : label = other := by
  rcases h with ⟨hcolon, rfl⟩ | ⟨pieces, piece, last, hcuts, hname⟩
  · rcases h' with ⟨-, rfl⟩ | ⟨pieces, piece, last, hcuts, -⟩
    · rfl
    · exact absurd hcuts.mem hcolon
  · rcases h' with ⟨hcolon, -⟩ | ⟨pieces', piece', last', hcuts', hname'⟩
    · exact absurd hcuts.mem hcolon
    · have hsplit : pieces ++ [piece, last] = pieces' ++ [piece', last'] :=
        (cuts_iff.1 hcuts).symm.trans (cuts_iff.1 hcuts')
      obtain ⟨rfl, -⟩ : piece = piece' ∧ last = last' := by
        simpa using List.append_inj_right' hsplit rfl
      exact hname.unique hname'

theorem Reads.unique {st other : Statement} (h : Reads given t st) (h' : Reads given t other) :
    st = other := by
  cases h with
  | directive start least run args labelled =>
      cases h' with
      | directive start' least' run' args' labelled' =>
          obtain rfl := eq_of_least start least start' least'
          obtain ⟨rfl, rfl⟩ := leadingRun_iff.1 run
          obtain ⟨rfl, rfl⟩ := leadingRun_iff.1 run'
          rw [labelled.unique labelled', ← argumentsIn_iff.1 args,
            ← argumentsIn_iff.1 args']
      | bare absent => exact absurd start (absent _)
  | bare absent labelled =>
      cases h' with
      | directive start' => exact absurd start' (absent _)
      | bare absent' labelled' => rw [labelled.unique labelled']

/-- The statement of a line is the one that the grammar gives to what stands in front of the
comment. -/
theorem parse_eq_iff_reads (line : Text) (st : Statement) :
    parse line = st ↔ Reads [] (line.chars.takeWhile (· != '@')) st := by
  have hreads : Reads [] (line.chars.takeWhile (· != '@')) (parse line) := reads_scan [] _
  constructor
  · rintro rfl
    exact hreads
  · exact hreads.unique

-- The second label replaces the first, lone dots are dropped, and an empty argument is kept.
example : parse " A b : . c.d : . .word 1 ,, x y @ z" =
    { label := "c.d", directive := "word", arguments := ["1", "", "xy"] } := by
  decide +kernel

end Statement

end FlatAssembler
