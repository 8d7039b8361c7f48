import FlatAssembler.Path

/-!
# Cleaned paths

Cleaning leaves a stack of parts that a second cleaning does not touch: no part is
empty or a single dot, and two dots stand only where there is nothing that they
could take away. `Settled` says this by the fold itself, as the stack that is
reached again from its own parts.

What follows is that a plain name can be added to a cleaned directory and taken
off again: the file `join d name` lies in the directory `d`
(`directory_join_directory`).
-/

namespace FlatAssembler

/-! ### Joining and cutting -/

section Cut

variable {α : Type} [DecidableEq α] {separator : α}

theorem splitAt_append_separator_append (xs ys : List α) :
    splitAt separator (xs ++ separator :: ys) =
      splitAt separator xs ++ splitAt separator ys := by
  induction xs with
  | nil => rw [List.nil_append, splitAt_separator_cons, splitAt_nil, List.singleton_append]
  | cons x xs ih =>
      by_cases hx : x = separator
      · rw [hx, List.cons_append, splitAt_separator_cons, splitAt_separator_cons, ih,
          List.cons_append]
      · obtain ⟨part, parts, hparts⟩ := exists_splitAt_eq_cons separator xs
        rw [hparts, List.cons_append] at ih
        rw [List.cons_append, splitAt_cons_of_ne hx ih, splitAt_cons_of_ne hx hparts,
          List.cons_append]

end Cut

theorem Text.joinWith_cons {separator part : Text} {parts : List Text} (h : parts ≠ []) :
    joinWith separator (part :: parts) = part ++ (separator ++ joinWith separator parts) := by
  obtain ⟨next, rest, rfl⟩ := List.exists_cons_of_ne_nil h
  rfl

theorem splitAt_joinWith {separator : UInt8} {parts : List Text} (hne : parts ≠ [])
    (h : ∀ part ∈ parts, separator ∉ part) :
    splitAt separator (Text.joinWith [separator] parts) = parts :=
  splitAt_intercalate hne h

namespace Path

/-! ### Stacks of parts -/

/-- A stack that a cleaned path can leave. -/
structure Settled (rooted : Bool) (stack : List Text) : Prop where
  part : ∀ part ∈ stack, part ≠ [] ∧ part ≠ dot ∧ slash ∉ part
  again : stack.reverse.foldl (push rooted) [] = stack

theorem push_of_name {part : Text} (hempty : part ≠ []) (hdot : part ≠ dot)
    (hdotDot : part ≠ dotDot) (rooted : Bool) (stack : List Text) :
    push rooted stack part = part :: stack := by
  rw [push.eq_def, if_neg, if_neg hdotDot]
  rintro (h | h)
  · exact hempty h
  · exact hdot h

theorem Settled.nil (rooted : Bool) : Settled rooted [] where
  part := fun _ h => nomatch h
  again := rfl

theorem Settled.cons {rooted : Bool} {stack : List Text} {top : Text}
    (h : Settled rooted stack) (hempty : top ≠ []) (hdot : top ≠ dot) (hslash : slash ∉ top)
    (hpush : push rooted stack top = top :: stack) : Settled rooted (top :: stack) where
  part := by
    intro part hpart
    rcases List.mem_cons.mp hpart with rfl | hmem
    · exact ⟨hempty, hdot, hslash⟩
    · exact h.part part hmem
  again := by rw [List.reverse_cons, List.foldl_append, h.again, List.foldl_cons, hpush,
    List.foldl_nil]

theorem Settled.tail {rooted : Bool} {stack : List Text} {top : Text}
    (h : Settled rooted (top :: stack)) (htop : top ≠ dotDot) : Settled rooted stack where
  part := fun part hpart => h.part part (List.mem_cons_of_mem _ hpart)
  again := by
    obtain ⟨hempty, hdot, -⟩ := h.part top List.mem_cons_self
    have hagain := h.again
    rw [List.reverse_cons, List.foldl_append, List.foldl_cons, List.foldl_nil,
      push_of_name hempty hdot htop] at hagain
    exact (List.cons.inj hagain).2

theorem Settled.push {rooted : Bool} {stack : List Text} (h : Settled rooted stack)
    {part : Text} (hslash : slash ∉ part) : Settled rooted (push rooted stack part) := by
  by_cases hskip : part = [] ∨ part = dot
  · rw [push.eq_def, if_pos hskip]
    exact h
  have hempty : part ≠ [] := fun heq => hskip (Or.inl heq)
  have hdot : part ≠ dot := fun heq => hskip (Or.inr heq)
  by_cases hdotDot : part = dotDot
  · subst hdotDot
    rw [push.eq_def, if_neg hskip, if_pos rfl]
    cases stack with
    | nil =>
        cases rooted with
        | true => exact Settled.nil true
        | false => exact (Settled.nil false).cons hempty hdot hslash rfl
    | cons top below =>
        by_cases htop : top = dotDot
        · subst htop
          simp only [if_pos]
          exact h.cons hempty hdot hslash rfl
        · simp only [if_neg htop]
          exact h.tail htop
  · rw [push_of_name hempty hdot hdotDot]
    exact h.cons hempty hdot hslash (push_of_name hempty hdot hdotDot rooted stack)

theorem settled_foldl {rooted : Bool} {stack ps : List Text} (h : Settled rooted stack)
    (hps : ∀ part ∈ ps, slash ∉ part) : Settled rooted (ps.foldl (push rooted) stack) := by
  induction ps generalizing stack with
  | nil => exact h
  | cons part rest ih =>
      exact ih (h.push (hps part List.mem_cons_self))
        fun other hother => hps other (List.mem_cons_of_mem _ hother)

theorem settled_cleanParts (path : Text) :
    Settled (isAbsolute path) (cleanParts path).reverse := by
  rw [cleanParts, List.reverse_reverse]
  exact settled_foldl (Settled.nil _) fun part hpart => notMem_of_mem_splitAt hpart

theorem mem_cleanParts {path part : Text} (h : part ∈ cleanParts path) :
    part ≠ [] ∧ slash ∉ part := by
  obtain ⟨hempty, -, hslash⟩ := (settled_cleanParts path).part part (List.mem_reverse.mpr h)
  exact ⟨hempty, hslash⟩

theorem foldl_push_cleanParts (path : Text) :
    (cleanParts path).foldl (push (isAbsolute path)) [] = (cleanParts path).reverse := by
  have hagain := (settled_cleanParts path).again
  rw [List.reverse_reverse] at hagain
  exact hagain

/-! ### Cleaned paths as texts -/

/-- The parts with a slash behind each of them. -/
def trail (ps : List Text) : Text := ps.flatMap (· ++ [slash])

theorem trail_cons (part : Text) (ps : List Text) :
    trail (part :: ps) = part ++ slash :: trail ps := by
  rw [trail, List.flatMap_cons, List.append_assoc, List.singleton_append]
  rfl

theorem ofParts_append_singleton (ps : List Text) (name : Text) :
    ofParts (ps ++ [name]) = trail ps ++ name := by
  induction ps with
  | nil => exact List.append_nil name
  | cons part rest ih =>
      have hne : rest ++ [name] ≠ [] := List.append_ne_nil_of_right_ne_nil rest (by simp)
      rw [List.cons_append, ofParts, Text.joinWith_cons hne, List.singleton_append]
      rw [ofParts] at ih
      rw [ih, trail_cons, List.append_assoc, List.cons_append]

theorem parts_trail_append {ps : List Text} (h : ∀ part ∈ ps, slash ∉ part) (name : Text) :
    parts (trail ps ++ name) = ps ++ parts name := by
  induction ps with
  | nil => rfl
  | cons part rest ih =>
      have hrest := ih fun other hother => h other (List.mem_cons_of_mem _ hother)
      rw [parts] at hrest
      rw [trail_cons, List.append_assoc, List.cons_append, parts,
        splitAt_append_separator (h part List.mem_cons_self), hrest, List.cons_append]

/-- What stands in front of the parts of a path. -/
def root (rooted : Bool) : Text := if rooted then [slash] else []

theorem isAbsolute_root_append {rooted : Bool} {text : Text}
    (h : rooted = false → text.head? ≠ some slash) : isAbsolute (root rooted ++ text) = rooted := by
  cases rooted with
  | true => rfl
  | false =>
      rw [root, if_neg Bool.false_ne_true, List.nil_append, isAbsolute, beq_eq_false_iff_ne]
      exact h rfl

theorem foldl_push_parts_root_append (rooted : Bool) (stack : List Text) (text : Text) :
    (parts (root rooted ++ text)).foldl (push rooted) stack =
      (parts text).foldl (push rooted) stack := by
  cases rooted with
  | false => rfl
  | true =>
      have hparts : parts (root true ++ text) = [] :: parts text := splitAt_separator_cons text
      rw [hparts, List.foldl_cons]
      rfl

theorem head?_ne_slash {part : Text} (hempty : part ≠ []) (hslash : slash ∉ part) (rest : Text) :
    (part ++ rest).head? ≠ some slash := by
  obtain ⟨byte, bytes, rfl⟩ := List.exists_cons_of_ne_nil hempty
  intro h
  have hbyte : byte = slash := Option.some.inj h
  exact hslash (hbyte ▸ List.mem_cons_self)

theorem head?_relative_ne_slash (path rest : Text) :
    (relative (cleanParts path) ++ rest).head? ≠ some slash := by
  rw [relative]
  cases hps : cleanParts path with
  | nil =>
      rw [if_pos rfl]
      exact head?_ne_slash (by decide) (by decide) rest
  | cons part more =>
      obtain ⟨hempty, hslash⟩ := mem_cleanParts (hps ▸ List.mem_cons_self)
      rw [if_neg (List.cons_ne_nil part more)]
      by_cases hmore : more = []
      · rw [hmore, show ofParts [part] = part from List.append_nil part]
        exact head?_ne_slash hempty hslash rest
      · rw [ofParts, Text.joinWith_cons hmore, List.append_assoc]
        exact head?_ne_slash hempty hslash _

theorem isAbsolute_clean_append (path rest : Text) :
    isAbsolute (clean path ++ rest) = isAbsolute path := by
  rw [clean]
  cases isAbsolute path with
  | true => rfl
  | false =>
      rw [if_neg Bool.false_ne_true, isAbsolute, beq_eq_false_iff_ne]
      exact head?_relative_ne_slash path rest

theorem foldl_push_parts_ofParts (path : Text) :
    (parts (ofParts (cleanParts path))).foldl (push (isAbsolute path)) [] =
      (cleanParts path).reverse := by
  by_cases hps : cleanParts path = []
  · rw [hps]
    rfl
  · have hparts : parts (ofParts (cleanParts path)) = cleanParts path :=
      splitAt_joinWith hps fun part hpart => (mem_cleanParts hpart).2
    rw [hparts, foldl_push_cleanParts]

/-- Cleaning a second time goes through the same parts. -/
theorem foldl_push_parts_clean (path : Text) :
    (parts (clean path)).foldl (push (isAbsolute path)) [] = (cleanParts path).reverse := by
  have hfold := foldl_push_parts_ofParts path
  rw [clean]
  cases habs : isAbsolute path with
  | true =>
      rw [habs] at hfold
      rw [← hfold]
      exact foldl_push_parts_root_append true [] (ofParts (cleanParts path))
  | false =>
      rw [habs] at hfold
      rw [if_neg Bool.false_ne_true, relative]
      by_cases hps : cleanParts path = []
      · rw [if_pos hps, hps]
        rfl
      · rw [if_neg hps]
        exact hfold

/-- A name that is a part of a path by itself. -/
structure IsName (name : Text) : Prop where
  ne_nil : name ≠ []
  ne_dot : name ≠ dot
  ne_dotDot : name ≠ dotDot
  slash_notMem : slash ∉ name

theorem cleanParts_clean_append {name : Text} (h : IsName name) (path : Text) :
    cleanParts (clean path ++ slash :: name) = cleanParts path ++ [name] := by
  have hparts : parts (clean path ++ slash :: name) = parts (clean path) ++ [name] := by
    rw [parts, splitAt_append_separator_append, splitAt_of_notMem h.slash_notMem]
    rfl
  rw [cleanParts, isAbsolute_clean_append, hparts, List.foldl_append, foldl_push_parts_clean,
    List.foldl_cons, List.foldl_nil, push_of_name h.ne_nil h.ne_dot h.ne_dotDot,
    List.reverse_cons, List.reverse_reverse]

theorem join_clean {name : Text} (h : IsName name) (path : Text) :
    join (clean path) name = root (isAbsolute path) ++ trail (cleanParts path) ++ name := by
  rw [join, clean, isAbsolute_clean_append, cleanParts_clean_append h, relative,
    if_neg (List.append_ne_nil_of_right_ne_nil _ (by simp)), ofParts_append_singleton, root]
  cases isAbsolute path with
  | true => rfl
  | false => rfl

theorem lastPart_append {front name : Text} (hfront : front = [] ∨ front.getLast? = some slash)
    (hname : slash ∉ name) : lastPart (front ++ name) = name := by
  have hall : ∀ byte ∈ name.reverse, (byte != slash) = true := by
    intro byte hbyte
    rw [bne_iff_ne]
    rintro rfl
    exact hname (List.mem_reverse.mp hbyte)
  have hstop : front.reverse.takeWhile (· != slash) = [] := by
    rcases hfront with rfl | hlast
    · rfl
    · rw [← List.head?_reverse] at hlast
      obtain ⟨rest, hrest⟩ := List.head?_eq_some_iff.mp hlast
      rw [hrest, List.takeWhile_cons_of_neg (by simp)]
  rw [lastPart, List.reverse_append, List.takeWhile_append_of_pos hall, hstop, List.append_nil,
    List.reverse_reverse]

theorem directory_append {front name : Text} (hfront : front = [] ∨ front.getLast? = some slash)
    (hname : slash ∉ name) : directory (front ++ name) = clean front := by
  rw [directory, lastPart_append hfront hname, List.length_append, Nat.add_sub_cancel,
    List.take_left]

theorem getLast?_root_append_trail (rooted : Bool) (ps : List Text) :
    root rooted ++ trail ps = [] ∨ (root rooted ++ trail ps).getLast? = some slash := by
  rcases List.eq_nil_or_concat ps with rfl | ⟨front, last, rfl⟩
  · cases rooted with
    | true => exact Or.inr rfl
    | false => exact Or.inl rfl
  · right
    rw [trail, List.concat_eq_append, List.flatMap_append, List.flatMap_singleton,
      ← List.append_assoc, ← List.append_assoc, List.getLast?_concat]

theorem clean_root_append_trail (path : Text) :
    clean (root (isAbsolute path) ++ trail (cleanParts path)) = clean path := by
  have habs : isAbsolute (root (isAbsolute path) ++ trail (cleanParts path)) = isAbsolute path := by
    apply isAbsolute_root_append
    intro _
    cases hps : cleanParts path with
    | nil => exact nofun
    | cons part rest =>
        obtain ⟨hempty, hslash⟩ := mem_cleanParts (hps ▸ List.mem_cons_self)
        rw [trail_cons]
        exact head?_ne_slash hempty hslash _
  have hparts : cleanParts (root (isAbsolute path) ++ trail (cleanParts path)) =
      cleanParts path := by
    have hslash : ∀ part ∈ cleanParts path, slash ∉ part := fun part hpart =>
      (mem_cleanParts hpart).2
    have htrail := parts_trail_append hslash []
    rw [List.append_nil] at htrail
    rw [cleanParts, habs, foldl_push_parts_root_append, htrail, List.foldl_append,
      foldl_push_cleanParts]
    exact List.reverse_reverse _
  rw [clean, habs, hparts, clean]

/-- A name in the directory of a file stands for a file in the same directory. -/
theorem directory_join_directory {name : Text} (h : IsName name) (file : Text) :
    directory (join (directory file) name) = directory file := by
  have hclean (path : Text) : directory (join (clean path) name) = clean path := by
    rw [join_clean h, directory_append (getLast?_root_append_trail _ _) h.slash_notMem,
      clean_root_append_trail]
  exact hclean _

end Path

end FlatAssembler
