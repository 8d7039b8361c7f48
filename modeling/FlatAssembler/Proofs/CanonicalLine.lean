import FlatAssembler.Proofs.LineGrammar
import Mathlib.Data.List.TakeWhile

/-!
# Statements written back as lines

Many lines say the same: blanks, comments, lone dots and superseded labels leave nothing in
the statement. `Statement.render` picks one line for each statement, and the line that it
picks is read as this statement again, whatever line the statement came from.

This is so because statements are made of words. A word is well-formed, has no blank in it
and none of the characters that end it in a line. `IsCanonical` says which words a statement
consists of: the walk over a line finds no other statements (`isCanonical_parse`), and a
statement of this kind can be told from its line (`parse_render`).
-/

namespace FlatAssembler

namespace Statement

/-- The characters of a word: no blanks, no comment, and nothing that ends the word. -/
def AreWord (ends : List Char) (cs : List Char) : Prop :=
  ∀ c ∈ cs, isBlank c = false ∧ c ≠ '@' ∧ c ∉ ends

/-- The characters of a label: they go up to a colon and are no directive. -/
structure AreLabel (cs : List Char) : Prop where
  word : AreWord [':'] cs
  start : cs.head? ≠ some '.'

/-- A well-formed text whose characters are those of a word. -/
structure IsWord (ends : List Char) (t : Text) : Prop where
  wellFormed : Text.ofChars t.chars = t
  word : AreWord ends t.chars

/-- A statement that consists of words. -/
structure IsCanonical (st : Statement) : Prop where
  label : IsWord [':'] st.label
  label_start : st.label.chars.head? ≠ some '.'
  directive : IsWord [] st.directive
  arguments : ∀ argument ∈ st.arguments, IsWord [','] argument
  arguments_eq_nil : st.directive = [] → st.arguments = []
  arguments_ne : st.arguments ≠ [[]]

/-! ### Words -/

variable {ends label token cs t : List Char} {st : Statement}

theorem areWord_nil : AreWord ends [] := nofun

theorem AreWord.solid (h : AreWord ends cs) : ∀ c ∈ cs, isBlank c = false :=
  fun c hc => (h c hc).1

theorem AreWord.notMem_comment (h : AreWord ends cs) : '@' ∉ cs :=
  fun hc => (h '@' hc).2.1 rfl

theorem AreWord.notMem {c : Char} (h : AreWord ends cs) (hc : c ∈ ends) : c ∉ cs :=
  fun hmem => (h c hmem).2.2 hc

theorem AreWord.isWord (h : AreWord ends cs) : IsWord ends (Text.ofChars cs) where
  wellFormed := by rw [Text.chars_ofChars]
  word := by rwa [Text.chars_ofChars]

theorem areLabel_nil : AreLabel [] := ⟨areWord_nil, nofun⟩

/-- A token in progress grows at its end, and so its start stays unless it is empty. -/
theorem AreLabel.append_singleton {c : Char} (h : AreLabel cs)
    (hc : isBlank c = false ∧ c ≠ '@' ∧ c ≠ ':') (hstart : c = '.' → cs ≠ []) :
    AreLabel (cs ++ [c]) where
  word := by
    intro d hd
    rcases List.mem_append.mp hd with hold | hnew
    · exact h.word d hold
    · rw [List.mem_singleton.mp hnew]
      simpa using hc
  start := by
    cases cs with
    | nil =>
        rintro ⟨⟩
        exact hstart rfl rfl
    | cons first rest => simpa using h.start

/-! ### What the walk finds -/

theorem areWord_of_mem_splitAt {part : List Char} (ht : '@' ∉ t)
    (hpart : part ∈ splitAt ',' t) : AreWord [','] (withoutBlanks part) := by
  intro c hc
  have hmem : c ∈ part := (List.mem_filter.mp hc).1
  refine ⟨isBlank_of_mem_withoutBlanks hc, ?_, ?_⟩
  · rintro rfl
    exact ht (mem_of_mem_splitAt hpart hmem)
  · intro hends
    rw [List.mem_singleton.mp hends] at hmem
    exact notMem_of_mem_splitAt hpart hmem

theorem argumentsOf_isWord (ht : '@' ∉ t) :
    ∀ argument ∈ argumentsOf t, IsWord [','] argument := by
  intro argument hargument
  rw [argumentsOf] at hargument
  split at hargument
  · cases hargument
  · obtain ⟨part, hpart, rfl⟩ := List.mem_map.mp hargument
    exact (areWord_of_mem_splitAt ht hpart).isWord

/-- One argument alone is all that is not blank. -/
theorem argumentsOf_ne (t : List Char) : argumentsOf t ≠ [[]] := by
  rw [argumentsOf]
  split
  · exact (List.cons_ne_nil [] []).symm
  · rename_i hsolid
    intro hempty
    obtain ⟨part, hpart, hnil⟩ := List.map_eq_singleton_iff.mp hempty
    have hjoin : [','].intercalate (splitAt ',' t) = t := intercalate_splitAt t
    rw [hpart, List.intercalate_singleton] at hjoin
    subst hjoin
    have hblank : withoutBlanks part = [] := Text.ofChars_injective hnil
    exact hsolid (by simpa [withoutBlanks] using hblank)

theorem isCanonical_bare (h : AreLabel label) :
    IsCanonical { label := Text.ofChars label } where
  label := h.word.isWord
  label_start := by
    rw [Text.chars_ofChars]
    exact h.start
  directive := areWord_nil.isWord
  arguments := nofun
  arguments_eq_nil := fun _ => rfl
  arguments_ne := nofun

theorem isCanonical_withDirective (h : AreLabel label) (ht : '@' ∉ t)
    (hstart : startsDirective t = true) : (withDirective label t).IsCanonical where
  label := h.word.isWord
  label_start := by
    rw [withDirective, Text.chars_ofChars]
    exact h.start
  directive := by
    refine AreWord.isWord fun c hc => ⟨?_, ?_, List.not_mem_nil⟩
    · simpa using List.mem_takeWhile_imp hc
    · rintro rfl
      exact ht ((List.takeWhile_sublist _).subset hc)
  arguments := argumentsOf_isWord fun hmem => ht ((List.dropWhile_sublist _).subset hmem)
  arguments_eq_nil := by
    intro hnil
    cases t with
    | nil => cases hstart
    | cons c rest =>
        have hname : (c :: rest).takeWhile (fun c => !isBlank c) = [] :=
          Text.ofChars_injective hnil
        rw [startsDirective] at hstart
        simp [hstart] at hname
  arguments_ne := argumentsOf_ne _

/-- The walk keeps a label and a token that is on its way to being one. -/
theorem isCanonical_scan (hlabel : AreLabel label) (htoken : AreLabel token.reverse)
    (ht : '@' ∉ t) : (scan label token t).IsCanonical := by
  induction t generalizing label token with
  | nil => exact isCanonical_bare hlabel
  | cons c rest ih =>
      obtain ⟨hc, hrest⟩ := not_or.mp (mt List.mem_cons.mpr ht)
      rw [scan]
      split
      · split
        next hstarts => exact isCanonical_withDirective hlabel hrest hstarts
        next => exact ih hlabel areLabel_nil hrest
      next hdot =>
        split
        next => exact ih htoken areLabel_nil hrest
        next hcolon =>
          split
          next => exact ih hlabel htoken hrest
          next hblank =>
            refine ih hlabel ?_ hrest
            rw [List.reverse_cons]
            refine htoken.append_singleton ⟨by simpa using hblank, Ne.symm hc, hcolon⟩ ?_
            intro hstart hnil
            exact hdot ⟨hstart, List.reverse_eq_nil_iff.mp hnil⟩

theorem notMem_uncommented (cs : List Char) : '@' ∉ uncommented cs := by
  intro hmem
  simpa using List.mem_takeWhile_imp hmem

theorem isCanonical_parse (line : Text) : (parse line).IsCanonical :=
  isCanonical_scan areLabel_nil areLabel_nil (notMem_uncommented line.chars)

/-! ### The line of a statement -/

theorem uncommented_of_notMem (h : '@' ∉ cs) : uncommented cs = cs := by
  rw [uncommented, List.takeWhile_eq_self_iff]
  intro c hc
  simpa using fun heq : c = '@' => h (heq ▸ hc)

theorem scan_label_colon (h : AreLabel label) (given rest : List Char) :
    scan given [] (label ++ ':' :: rest) = scan label [] rest := by
  have hbegins : Begins (label ++ ':' :: rest) := by
    cases label with
    | nil => exact ⟨by simp [IdleAt, BlankAt, isBlank_colon], by simp⟩
    | cons c label =>
        have hsolid : isBlank c = false := h.word.solid c List.mem_cons_self
        have hdot : c ≠ '.' := by simpa using h.start
        exact ⟨by simp [IdleAt, BlankAt, hsolid, hdot], by simpa using hdot⟩
  rw [scan_append_colon (fun _ => hbegins) (h.word.notMem List.mem_cons_self),
    withoutBlanks_eq_self h.word.solid]
  rfl

theorem scan_dot_directive {name : List Char} (h : AreWord [] name) (hname : name ≠ [])
    (rest : List Char) : scan label [] ('.' :: name ++ ' ' :: rest) =
      { label := Text.ofChars label, directive := Text.ofChars name,
        arguments := argumentsOf (' ' :: rest) } := by
  have hrun : LeadingRun (name ++ ' ' :: rest) name (' ' :: rest) :=
    ⟨rfl, h.solid, by simp [show isBlank ' ' = true by decide]⟩
  have hstarts : startsDirective (name ++ ' ' :: rest) = true := by
    cases name with
    | nil => exact absurd rfl hname
    | cons c name => simp [startsDirective, h.solid c List.mem_cons_self]
  obtain ⟨hdirective, harguments⟩ := leadingRun_iff.mp hrun
  rw [List.cons_append, scan, if_pos ⟨rfl, rfl⟩, if_pos hstarts, withDirective, hdirective,
    harguments]

/-- Only a single empty argument would be lost among the blanks. -/
theorem argumentsOf_intercalate {arguments : List (List Char)}
    (h : ∀ argument ∈ arguments, AreWord [','] argument) (hne : arguments ≠ [[]]) :
    argumentsOf (' ' :: [','].intercalate arguments) = arguments.map Text.ofChars := by
  cases arguments with
  | nil => rfl
  | cons first rest =>
      have hfirst : AreWord [','] first := h first List.mem_cons_self
      have hsolid : ∃ c ∈ ' ' :: [','].intercalate (first :: rest), isBlank c = false := by
        cases rest with
        | nil =>
            obtain ⟨c, more, rfl⟩ : ∃ c more, first = c :: more :=
              List.exists_cons_of_ne_nil (by simpa using hne)
            exact ⟨c, by simp, hfirst.solid c List.mem_cons_self⟩
        | cons next rest => exact ⟨',', by simp [List.intercalate_cons_cons], by decide⟩
      have hsplit : splitAt ',' (' ' :: [','].intercalate (first :: rest)) =
          (' ' :: first) :: rest :=
        splitAt_cons_of_ne (by decide) (splitAt_intercalate (List.cons_ne_nil first rest)
          fun argument hargument => (h argument hargument).notMem List.mem_cons_self)
      have hnames : ∀ argument ∈ first :: rest, withoutBlanks argument = argument :=
        fun argument hargument => withoutBlanks_eq_self (h argument hargument).solid
      refine argumentsIn_iff.mp (Or.inr ⟨hsolid, _, cuts_iff.mpr hsplit, ?_⟩)
      have hblank : withoutBlanks (' ' :: first) = withoutBlanks first := rfl
      rw [List.map_cons, List.map_cons, hblank, hnames first List.mem_cons_self]
      exact congrArg _ (List.map_congr_left fun argument hargument =>
        (congrArg Text.ofChars (hnames argument (List.mem_cons_of_mem first hargument))).symm)

/-- The characters in the line of a statement. -/
def lineOf (st : Statement) : List Char :=
  (if st.label = [] then [] else st.label.chars ++ [':']) ++
    if st.directive = [] then []
    else '.' :: st.directive.chars ++ ' ' :: [','].intercalate (st.arguments.map Text.chars)

namespace IsCanonical

theorem areLabel (h : st.IsCanonical) : AreLabel st.label.chars := ⟨h.label.word, h.label_start⟩

theorem areWord_of_mem_arguments (h : st.IsCanonical) :
    ∀ cs ∈ st.arguments.map Text.chars, AreWord [','] cs := by
  intro cs hcs
  obtain ⟨argument, hargument, rfl⟩ := List.mem_map.mp hcs
  exact (h.arguments argument hargument).word

theorem map_ofChars_arguments (h : st.IsCanonical) :
    (st.arguments.map Text.chars).map Text.ofChars = st.arguments := by
  rw [List.map_map]
  exact (List.map_congr_left fun argument hargument =>
    (h.arguments argument hargument).wellFormed).trans (List.map_id st.arguments)

theorem render_eq (h : st.IsCanonical) : render st = Text.ofChars (lineOf st) := by
  have hjoin := Text.joinWith_ofChars [','] (st.arguments.map Text.chars)
  rw [h.map_ofChars_arguments] at hjoin
  have hlabel : Text.ofChars (st.label.chars ++ [':']) = Text.concat [st.label, ":"] := by
    rw [Text.ofChars_append, h.label.wellFormed]
    rfl
  have hdirective : Text.ofChars ('.' :: st.directive.chars ++
        ' ' :: [','].intercalate (st.arguments.map Text.chars)) =
      Text.concat [".", st.directive, " ", Text.joinWith "," st.arguments] := by
    rw [Text.ofChars_append, Text.ofChars_cons, Text.ofChars_cons, h.directive.wellFormed, ← hjoin]
    simp [Text.concat, Text.ofString]
  rw [render, lineOf, Text.ofChars_append, apply_ite Text.ofChars, apply_ite Text.ofChars,
    hlabel, hdirective]
  simp [Text.concat]

theorem notMem_lineOf (h : st.IsCanonical) : '@' ∉ lineOf st := by
  have hlabel := h.label.word.notMem_comment
  have hdirective := h.directive.word.notMem_comment
  have harguments : '@' ∉ [','].intercalate (st.arguments.map Text.chars) := by
    intro hmem
    rcases eq_separator_or_exists_of_mem_intercalate hmem with heq | ⟨cs, hcs, hc⟩
    · exact absurd heq (by decide)
    · exact (h.areWord_of_mem_arguments cs hcs).notMem_comment hc
  rw [lineOf]
  split <;> split <;> simp [hlabel, hdirective, harguments]

theorem scan_lineOf (h : st.IsCanonical) : scan [] [] (lineOf st) = st := by
  have hfront (rest : List Char) :
      scan [] [] ((if st.label = [] then [] else st.label.chars ++ [':']) ++ rest) =
        scan st.label.chars [] rest := by
    split
    next hempty => rw [hempty]; rfl
    next => rw [List.append_assoc, List.singleton_append, scan_label_colon h.areLabel]
  rw [lineOf, hfront]
  split
  next hempty => rw [scan, h.label.wellFormed, ← hempty, ← h.arguments_eq_nil hempty]
  next hsome =>
    have hname : st.directive.chars ≠ [] := by
      intro hnil
      exact hsome (h.directive.wellFormed ▸ congrArg Text.ofChars hnil)
    have hne : st.arguments.map Text.chars ≠ [[]] := by
      intro hnil
      refine h.arguments_ne ?_
      rw [← h.map_ofChars_arguments, hnil]
      rfl
    rw [scan_dot_directive h.directive.word hname,
      argumentsOf_intercalate h.areWord_of_mem_arguments hne, h.label.wellFormed,
      h.directive.wellFormed, h.map_ofChars_arguments]

theorem parse_render (h : st.IsCanonical) : parse (render st) = st := by
  rw [parse, h.render_eq, Text.chars_ofChars, uncommented_of_notMem h.notMem_lineOf,
    h.scan_lineOf]

end IsCanonical

/-- The statement of any line is made of words, and the line that it is written as says the
same. -/
theorem parse_render_parse (line : Text) :
    parse (render (parse line)) = parse line ∧ (parse line).IsCanonical :=
  ⟨(isCanonical_parse line).parse_render, isCanonical_parse line⟩

end Statement

end FlatAssembler
