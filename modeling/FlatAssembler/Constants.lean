import FlatAssembler.Text.Basic

/-!
# Constants

Named 64-bit numbers. A table of constants is a list of pairs in which the first pair of a name
counts. Source can only add a name that is not there; the command line may also replace one.
-/

namespace FlatAssembler

/-- Names with their values; the first pair of a name counts. -/
abbrev Constants := List (Text × Int64)

namespace Constants

/-- The value of a name. -/
def get? : Constants → Text → Option Int64
  | [], _ => none
  | c :: constants, name => if name = c.1 then some c.2 else get? constants name

/-- Adds a constant behind those that are there. -/
def add (constants : Constants) (name : Text) (value : Int64) : Constants :=
  constants ++ [(name, value)]

/-- Gives the name this value, whether or not it had one. -/
def assign (name : Text) (value : Int64) : Constants → Constants
  | [] => [(name, value)]
  | c :: constants =>
    if c.1 = name then (name, value) :: constants else c :: assign name value constants

@[simp] theorem get?_nil (name : Text) : get? [] name = none := rfl

theorem get?_cons (c : Text × Int64) (constants : Constants) (name : Text) :
    get? (c :: constants) name = if name = c.1 then some c.2 else get? constants name := rfl

/-- A name that is there keeps its value. -/
theorem get?_add (constants : Constants) (name other : Text) (value : Int64) :
    (constants.add name value).get? other =
      (constants.get? other).or (if other = name then some value else none) := by
  induction constants with
  | nil => simp [add, get?_cons]
  | cons c constants ih =>
    by_cases h : other = c.1
    · simp [add, get?_cons, h]
    · simpa [add, get?_cons, h] using ih

theorem get?_assign (constants : Constants) (name other : Text) (value : Int64) :
    get? (assign name value constants) other =
      if other = name then some value else constants.get? other := by
  induction constants with
  | nil => simp [assign, get?_cons]
  | cons c constants ih =>
    by_cases hc : c.1 = name
    · by_cases h : other = name <;> simp [assign, get?_cons, hc, h]
    · by_cases h : other = c.1
      · simp [assign, get?_cons, hc, h]
      · simpa [assign, get?_cons, hc, h] using ih

/-- Where names are given once, each pair is the one that counts. -/
theorem get?_of_mem {constants : Constants} {name : Text} {value : Int64}
    (h : (constants.map Prod.fst).Nodup) (hmem : (name, value) ∈ constants) :
    constants.get? name = some value := by
  induction constants with
  | nil => cases hmem
  | cons c constants ih =>
    obtain ⟨hc, hrest⟩ := List.nodup_cons.mp h
    rw [get?_cons]
    rcases List.mem_cons.mp hmem with rfl | hmem
    · rw [if_pos rfl]
    · have hne : name ≠ c.1 := fun heq => hc (heq ▸ List.mem_map_of_mem hmem)
      rw [if_neg hne, ih hrest hmem]

end Constants

end FlatAssembler
