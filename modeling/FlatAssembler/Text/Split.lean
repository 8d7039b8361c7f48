/-!
# Cutting a list at a separator

Lines end at newlines, path parts at slashes, arguments at commas. `splitAt` is the one cut that
serves them all: `n` separators give `n + 1` parts, empty parts are kept, and no part holds the
separator. Joining the parts with the separator gives the list back, and no other parts do.
-/

namespace FlatAssembler

/-- The parts between the separators; without a separator the whole list is the one part. -/
def splitAt {α : Type} [DecidableEq α] (separator : α) : List α → List (List α)
  | [] => [[]]
  | x :: xs =>
    if x = separator then [] :: splitAt separator xs
    else match splitAt separator xs with
      | [] => [[x]]
      | part :: parts => (x :: part) :: parts

/-- What stands before the first separator and, if there is one, what follows it. -/
def cutAt {α : Type} [DecidableEq α] (separator : α) : List α → List α × Option (List α)
  | [] => ([], none)
  | x :: xs =>
    if x = separator then ([], some xs)
    else
      let (before, after) := cutAt separator xs
      (x :: before, after)

variable {α : Type} [DecidableEq α] {separator : α}

@[simp] theorem splitAt_nil : splitAt separator ([] : List α) = [[]] := rfl

@[simp] theorem splitAt_separator_cons (xs : List α) :
    splitAt separator (separator :: xs) = [] :: splitAt separator xs := by
  simp [splitAt]

theorem splitAt_ne_nil (xs : List α) : splitAt separator xs ≠ [] := by
  cases xs with
  | nil => simp
  | cons x xs =>
    simp only [splitAt]
    split
    · simp
    · split <;> simp

theorem exists_splitAt_eq_cons (separator : α) (xs : List α) :
    ∃ part parts, splitAt separator xs = part :: parts :=
  List.exists_cons_of_ne_nil (splitAt_ne_nil xs)

theorem splitAt_cons_of_ne {x : α} (h : x ≠ separator) {xs part : List α} {parts : List (List α)}
    (hxs : splitAt separator xs = part :: parts) :
    splitAt separator (x :: xs) = (x :: part) :: parts := by
  simp [splitAt, h, hxs]

/-- A list without the separator is its own one part. -/
theorem splitAt_of_notMem {xs : List α} (h : separator ∉ xs) : splitAt separator xs = [xs] := by
  induction xs with
  | nil => rfl
  | cons x xs ih =>
    simp only [List.mem_cons, not_or] at h
    exact splitAt_cons_of_ne (Ne.symm h.1) (ih h.2)

theorem splitAt_append_separator {part : List α} (h : separator ∉ part) (xs : List α) :
    splitAt separator (part ++ separator :: xs) = part :: splitAt separator xs := by
  induction part with
  | nil => simp
  | cons x part ih =>
    simp only [List.mem_cons, not_or] at h
    exact splitAt_cons_of_ne (Ne.symm h.1) (ih h.2)

theorem notMem_of_mem_splitAt {xs part : List α} (h : part ∈ splitAt separator xs) :
    separator ∉ part := by
  induction xs generalizing part with
  | nil => simp_all
  | cons x xs ih =>
    by_cases hx : x = separator
    · subst hx
      simp only [splitAt_separator_cons, List.mem_cons] at h
      rcases h with rfl | h
      · simp
      · exact ih h
    · obtain ⟨p, ps, hp⟩ := exists_splitAt_eq_cons separator xs
      rw [splitAt_cons_of_ne hx hp] at h
      simp only [List.mem_cons] at h
      rcases h with rfl | h
      · simpa [Ne.symm hx] using ih (by simp [hp])
      · exact ih (by simp [hp, h])

theorem length_splitAt (xs : List α) :
    (splitAt separator xs).length = xs.count separator + 1 := by
  induction xs with
  | nil => rfl
  | cons x xs ih =>
    by_cases hx : x = separator
    · subst hx
      simp [ih]
    · obtain ⟨p, ps, hp⟩ := exists_splitAt_eq_cons separator xs
      rw [splitAt_cons_of_ne hx hp, List.count_cons_of_ne hx, ← ih, hp]
      rfl

theorem intercalate_splitAt (xs : List α) :
    [separator].intercalate (splitAt separator xs) = xs := by
  induction xs with
  | nil => simp
  | cons x xs ih =>
    obtain ⟨part, parts, hparts⟩ := exists_splitAt_eq_cons separator xs
    rw [hparts] at ih
    by_cases hx : x = separator
    · subst hx
      simp [hparts, List.intercalate_cons_cons, ih]
    · rw [splitAt_cons_of_ne hx hparts, ← ih]
      cases parts <;> simp [List.intercalate_cons_cons]

theorem splitAt_intercalate {parts : List (List α)} (hne : parts ≠ [])
    (h : ∀ part ∈ parts, separator ∉ part) :
    splitAt separator ([separator].intercalate parts) = parts := by
  induction parts with
  | nil => exact absurd rfl hne
  | cons part rest ih =>
    have hpart := h part List.mem_cons_self
    cases rest with
    | nil => rw [List.intercalate_singleton, splitAt_of_notMem hpart]
    | cons next rest =>
      rw [List.intercalate_cons_cons, List.append_assoc, List.singleton_append,
        splitAt_append_separator hpart,
        ih (List.cons_ne_nil next rest) fun other hother => h other (List.mem_cons_of_mem _ hother)]

omit [DecidableEq α] in
theorem mem_intercalate_of_mem {x : α} {part : List α} {parts : List (List α)}
    (hpart : part ∈ parts) (hx : x ∈ part) : x ∈ [separator].intercalate parts := by
  induction parts with
  | nil => cases hpart
  | cons first rest ih =>
    cases rest with
    | nil => simp_all
    | cons next rest =>
      rw [List.intercalate_cons_cons]
      rcases List.mem_cons.mp hpart with rfl | hrest
      · simp [hx]
      · simp [ih hrest]

omit [DecidableEq α] in
theorem eq_separator_or_exists_of_mem_intercalate {x : α} {parts : List (List α)}
    (h : x ∈ [separator].intercalate parts) : x = separator ∨ ∃ part ∈ parts, x ∈ part := by
  induction parts with
  | nil => cases h
  | cons first rest ih =>
    cases rest with
    | nil => simp_all
    | cons next rest =>
      rw [List.intercalate_cons_cons, List.mem_append, List.mem_append,
        List.mem_singleton] at h
      rcases h with (hfirst | hseparator) | hrest
      · exact Or.inr ⟨first, List.mem_cons_self, hfirst⟩
      · exact Or.inl hseparator
      · exact (ih hrest).imp_right fun ⟨part, hpart, hx⟩ =>
          ⟨part, List.mem_cons_of_mem first hpart, hx⟩

theorem mem_of_mem_splitAt {x : α} {xs part : List α} (hpart : part ∈ splitAt separator xs)
    (hx : x ∈ part) : x ∈ xs := by
  have hjoin : [separator].intercalate (splitAt separator xs) = xs := intercalate_splitAt xs
  exact hjoin ▸ mem_intercalate_of_mem hpart hx

theorem cutAt_append_separator {before : List α} (h : separator ∉ before) (after : List α) :
    cutAt separator (before ++ separator :: after) = (before, some after) := by
  induction before with
  | nil => simp [cutAt]
  | cons x before ih =>
    simp only [List.mem_cons, not_or] at h
    simp [cutAt, Ne.symm h.1, ih h.2]

theorem eq_append_separator_of_cutAt {xs before after : List α}
    (h : cutAt separator xs = (before, some after)) :
    xs = before ++ separator :: after ∧ separator ∉ before := by
  induction xs generalizing before with
  | nil => simp [cutAt] at h
  | cons x xs ih =>
    by_cases hx : x = separator
    · obtain ⟨rfl, rfl⟩ : [] = before ∧ xs = after := by simpa [cutAt, hx] using h
      simp [hx]
    · rcases hcut : cutAt separator xs with ⟨front, back⟩
      obtain ⟨rfl, rfl⟩ : x :: front = before ∧ back = some after := by
        simpa [cutAt, hx, hcut] using h
      obtain ⟨rfl, hfront⟩ := ih hcut
      exact ⟨rfl, by simp [Ne.symm hx, hfront]⟩

end FlatAssembler
