import FlatAssembler.FileSystem
import FlatAssembler.Proofs.CleanPath

/-!
# Writing files

A path that ends in a name leads to this name in a directory (`LeadsTo`). What can be
written there and what is then read there is said by two laws, `LeadsTo.write_eq_ok_iff`
and `LeadsTo.read_of_lookup`, in terms of the location that the path has once it is cleaned.

A file is only put where there is a file or nothing at all, never in the place of a
folder. So the directories that a walk has gone through are still there after a file
was written, and every path leads where it led before (`LeadsTo.put`). After several
writes a path is read as the last write to its location left it (`read_of_writeAll`).
-/

namespace FlatAssembler

namespace FileSystem

/-! ### What is there after a file was put -/

/-- There is a file at the location, or nothing. -/
def IsFree (fs : FileSystem) (loc : Location) : Prop :=
  fs.isFile loc = true ∨ fs.isFolder loc = false

theorem isFile_iff {fs : FileSystem} {loc : Location} :
    fs.isFile loc = true ↔ loc ∈ fs.files.map Prod.fst := by
  simp [isFile]

theorem isFolder_iff {fs : FileSystem} {loc : Location} :
    fs.isFolder loc = true ↔
      loc = [] ∨ (∃ folder ∈ fs.folders, loc <+: folder) ∨
        ∃ file ∈ fs.files.map Prod.fst, loc <+: file := by
  simp [isFolder, or_assoc]

theorem mem_fst_put {fs : FileSystem} {loc other : Location} {content : Text} :
    other ∈ (fs.put loc content).files.map Prod.fst ↔
      other ∈ fs.files.map Prod.fst ∨ other = loc := by
  rw [put]
  split
  · rename_i hfile
    have hsame : (fs.files.map fun f => if f.1 = loc then (loc, content) else f).map Prod.fst =
        fs.files.map Prod.fst := by
      rw [List.map_map]
      apply List.map_congr_left
      intro f _
      simp only [Function.comp_apply]
      split
      · rename_i heq
        exact heq.symm
      · rfl
    rw [hsame]
    constructor
    · exact Or.inl
    · rintro (hmem | rfl)
      · exact hmem
      · exact isFile_iff.mp hfile
  · simp

theorem folders_put (fs : FileSystem) (loc : Location) (content : Text) :
    (fs.put loc content).folders = fs.folders := by
  rw [put]
  split <;> rfl

theorem limits_put (fs : FileSystem) (loc : Location) (content : Text) :
    (fs.put loc content).limits = fs.limits := by
  rw [put]
  split <;> rfl

theorem isFile_put {fs : FileSystem} {loc other : Location} {content : Text} :
    (fs.put loc content).isFile other = true ↔ fs.isFile other = true ∨ other = loc := by
  rw [isFile_iff, mem_fst_put, isFile_iff]

theorem isFolder_put {fs : FileSystem} {other : Location} (h : fs.isFolder other = true)
    (loc : Location) (content : Text) : (fs.put loc content).isFolder other = true := by
  rw [isFolder_iff] at h ⊢
  rw [folders_put]
  rcases h with hroot | hfolder | ⟨file, hfile, hprefix⟩
  · exact Or.inl hroot
  · exact Or.inr (Or.inl hfolder)
  · exact Or.inr (Or.inr ⟨file, mem_fst_put.mpr (Or.inl hfile), hprefix⟩)

theorem lookup_replace (files : List (Location × Text)) (loc other : Location) (content : Text) :
    (files.map fun f => if f.1 = loc then (loc, content) else f).lookup other =
      if other = loc then (files.lookup loc).map fun _ => content else files.lookup other := by
  induction files with
  | nil => simp
  | cons f files ih =>
      obtain ⟨key, old⟩ := f
      rw [List.map_cons]
      by_cases hkey : key = loc <;> by_cases hother : other = loc
      · simp [hkey, hother]
      · simpa [hkey, hother, List.lookup_cons, beq_eq_false_iff_ne.mpr hother] using ih
      · simpa [hkey, hother, List.lookup_cons, beq_eq_false_iff_ne.mpr (Ne.symm hkey)] using ih
      · simp only [hother, if_false] at ih
        simp [hkey, hother, List.lookup_cons, ih]

theorem lookup_put (fs : FileSystem) (loc other : Location) (content : Text) :
    (fs.put loc content).files.lookup other =
      if other = loc then some content else fs.files.lookup other := by
  rw [put]
  split
  · rename_i hfile
    have hsome : (fs.files.lookup loc).isSome = true := by
      rw [Option.isSome_iff_ne_none, ne_eq, List.lookup_eq_none_iff]
      intro hnone
      obtain ⟨f, hf, hloc⟩ := List.mem_map.mp (isFile_iff.mp hfile)
      have hne := hnone f hf
      rw [hloc, bne_self_eq_false] at hne
      cases hne
    obtain ⟨old, hold⟩ := Option.isSome_iff_exists.mp hsome
    rw [lookup_replace, hold]
    rfl
  · rename_i hfile
    rw [List.lookup_append]
    by_cases hother : other = loc
    · subst hother
      have hnone : fs.files.lookup other = none := by
        rw [List.lookup_eq_none_iff]
        intro f hf
        rw [bne_iff_ne]
        rintro rfl
        exact hfile (isFile_iff.mpr (List.mem_map_of_mem hf))
      simp [hnone]
    · simp [hother, List.lookup_cons, beq_eq_false_iff_ne.mpr hother]

/-- A location that is free after a file was put was so before. -/
theorem IsFree.of_put {fs : FileSystem} {loc other : Location} {content : Text}
    (hfree : fs.IsFree loc) (h : (fs.put loc content).IsFree other) : fs.IsFree other := by
  rcases h with hfile | hnone
  · rcases isFile_put.mp hfile with hfile | rfl
    · exact Or.inl hfile
    · exact hfree
  · cases hfolder : fs.isFolder other with
    | false => exact Or.inr hfolder
    | true =>
        rw [isFolder_put hfolder] at hnone
        cases hnone

/-! ### Walks -/

/-- The place is in a directory above the working directory, or something is there. -/
def Exists (fs : FileSystem) : Spot → Prop
  | .inside names => fs.isFolder names.reverse = true
  | .outside => True

theorem isFolder_of_append {fs : FileSystem} {loc more : Location}
    (h : fs.isFolder (loc ++ more) = true) : fs.isFolder loc = true := by
  rw [isFolder_iff] at h ⊢
  rcases h with hroot | ⟨folder, hfolder, hprefix⟩ | ⟨file, hfile, hprefix⟩
  · exact Or.inl (List.append_eq_nil_iff.mp hroot).1
  · exact Or.inr (Or.inl ⟨folder, hfolder, (List.prefix_append loc more).trans hprefix⟩)
  · exact Or.inr (Or.inr ⟨file, hfile, (List.prefix_append loc more).trans hprefix⟩)

theorem isFolder_of_isFile {fs : FileSystem} {loc : Location} (h : fs.isFile loc = true) :
    fs.isFolder loc = true :=
  isFolder_iff.mpr (Or.inr (Or.inr ⟨loc, isFile_iff.mp h, List.prefix_refl loc⟩))

theorem exists_start (fs : FileSystem) (path : Text) : fs.Exists (start path) := by
  rw [start]
  split
  · trivial
  · rfl

section Put

variable {fs : FileSystem} {loc : Location} (hfree : fs.IsFree loc) (content : Text)
include hfree

/-- A directory is neither where a file is nor where nothing is. -/
theorem isDirectory_put {spot : Spot} (hspot : fs.Exists spot)
    (h : fs.isDirectory spot = true) : (fs.put loc content).isDirectory spot = true := by
  cases spot with
  | outside => rfl
  | inside names =>
      simp only [isDirectory, Bool.not_eq_true', Bool.eq_false_iff, ne_eq] at h ⊢
      rw [isFile_put]
      rintro (hfile | rfl)
      · exact h hfile
      · rcases hfree with hfile | hnone
        · exact h hfile
        · rw [show fs.isFolder names.reverse = true from hspot] at hnone
          cases hnone

/-- A part leads to the same place as before, and there is something. -/
theorem enter_put {spot next : Spot} {part : Text} (hspot : fs.Exists spot)
    (h : fs.enter spot part = .ok next) :
    (fs.put loc content).enter spot part = .ok next ∧ fs.Exists next := by
  unfold enter at h ⊢
  split at h
  · cases h
  rename_i hdirectory
  rw [Bool.not_eq_true', Bool.not_eq_false] at hdirectory
  rw [isDirectory_put hfree content hspot hdirectory]
  simp only [Bool.not_true, Bool.false_eq_true, if_false]
  split at h
  · rename_i hstay
    cases h
    exact ⟨by rw [if_pos hstay], hspot⟩
  rename_i hstay
  rw [if_neg hstay]
  split at h
  · rename_i hup
    rw [if_pos hup]
    refine ⟨h, ?_⟩
    split at h
    · cases h
      rename_i name above
      rw [Exists, List.reverse_cons] at hspot
      exact isFolder_of_append hspot
    · cases h
      trivial
  rename_i hup
  rw [if_neg hup]
  split at h
  · cases h
  rename_i hlength
  rw [if_neg hlength]
  cases spot with
  | outside => cases h
  | inside names =>
      simp only at h ⊢
      split at h
      · rename_i hthere
        cases h
        have hfolder : fs.isFolder (part :: names).reverse = true := by
          rw [Bool.or_eq_true] at hthere
          exact hthere.elim isFolder_of_isFile id
        have hput := isFolder_put hfolder loc content
        rw [hput, Bool.or_true]
        exact ⟨rfl, hfolder⟩
      · cases h

theorem walk_put {spot last : Spot} {ps : List Text} (hspot : fs.Exists spot)
    (h : fs.walk spot ps = .ok last) :
    (fs.put loc content).walk spot ps = .ok last ∧ fs.Exists last := by
  induction ps generalizing spot with
  | nil =>
      cases h
      exact ⟨rfl, hspot⟩
  | cons part ps ih =>
      rw [walk] at h ⊢
      cases henter : fs.enter spot part with
      | error reason =>
          rw [henter] at h
          cases h
      | ok next =>
          rw [henter] at h
          obtain ⟨hput, hnext⟩ := enter_put hfree content hspot henter
          rw [hput]
          exact ih hnext h

end Put

/-! ### Names in a directory -/

/-- The path ends in a name and leads through directories to the one, with the names on
the way to it last name first, in which this is the name of an entry or may become one. -/
structure LeadsTo (fs : FileSystem) (path : Text) (names : List Text) (name : Text) : Prop where
  isName : Path.IsName name
  reaches : ∃ above, Path.parts path = above ++ [name] ∧
    fs.walk (start path) above = .ok (.inside names)
  directory : fs.isDirectory (.inside names) = true

theorem walk_append (fs : FileSystem) (spot : Spot) (ps qs : List Text) :
    fs.walk spot (ps ++ qs) =
      match fs.walk spot ps with
      | .ok next => fs.walk next qs
      | .error reason => .error reason := by
  induction ps generalizing spot with
  | nil => rfl
  | cons part ps ih =>
      rw [List.cons_append, walk, walk]
      cases fs.enter spot part with
      | ok next => exact ih next
      | error reason => rfl

/-! ### Complete and broken writes -/

theorem accepted_prefix (fs : FileSystem) (path content : Text) :
    fs.accepted path content <+: content := by
  rw [accepted]
  split
  · exact List.prefix_refl content
  · exact List.take_prefix _ content

theorem accepted_put (fs : FileSystem) (loc : Location) (old path content : Text) :
    (fs.put loc old).accepted path content = fs.accepted path content := by
  rw [accepted, accepted, limits_put]

theorem write_eq_ok_iff {fs files : FileSystem} {path content : Text} :
    fs.write path content = .ok files ↔
      fs.accepted path content = content ∧ fs.fill path content = .ok files := by
  by_cases hall : fs.accepted path content = content
  · cases hfill : fs.fill path content <;> simp [write, hall, hfill]
  · cases hfill : fs.fill path (fs.accepted path content) <;> simp [write, hall, hfill]

theorem action_of_fill {fs : FileSystem} {path content : Text} {failure : Failure}
    (h : fs.fill path content = .error failure) : failure.action = .opening := by
  rw [fill] at h
  split at h
  · cases h
  · cases h
    rfl

/-- A write that fails has not opened its file, or has left a beginning there. -/
theorem files_of_write_eq_error {fs : FileSystem} {path content : Text} {failed : FailedWrite}
    (h : fs.write path content = .error failed) :
    (failed.action = .opening ∧ failed.files = fs) ∨
      ∃ part, part <+: content ∧ part ≠ content ∧ fs.fill path part = .ok failed.files := by
  rw [write] at h
  cases hfill : fs.fill path (fs.accepted path content) with
  | error failure =>
      rw [hfill] at h
      cases h
      exact Or.inl ⟨action_of_fill hfill, rfl⟩
  | ok files =>
      simp only [hfill] at h
      split at h
      · cases h
      · rename_i hpart
        cases h
        exact Or.inr ⟨_, fs.accepted_prefix path content, hpart, hfill⟩

namespace LeadsTo

variable {fs : FileSystem} {path : Text} {names : List Text} {name : Text}
  (h : LeadsTo fs path names name)
include h

/-- A file that is written does not change where other paths lead. -/
theorem put {loc : Location} (hfree : fs.IsFree loc) (content : Text) :
    LeadsTo (fs.put loc content) path names name := by
  obtain ⟨above, hparts, hwalk⟩ := h.reaches
  obtain ⟨hput, hnames⟩ := walk_put hfree content (fs.exists_start path) hwalk
  exact ⟨h.isName, ⟨above, hparts, hput⟩, isDirectory_put hfree content hnames h.directory⟩

theorem cleanParts_eq : Path.cleanParts path = (name :: names).reverse := by
  obtain ⟨above, hparts, hwalk⟩ := h.reaches
  have habsolute : Path.isAbsolute path = false := by
    cases habs : Path.isAbsolute path with
    | false => rfl
    | true =>
        rw [start, habs, if_pos rfl] at hwalk
        cases walk_outside hwalk
  rw [start, habsolute, if_neg Bool.false_ne_true] at hwalk
  have hfold := foldl_push_of_walk List.not_mem_nil hwalk
  rw [Path.cleanParts, habsolute, hparts, List.foldl_append, hfold, List.foldl_cons,
    List.foldl_nil, Path.push_of_name h.isName.ne_nil h.isName.ne_dot h.isName.ne_dotDot]

/-- A file can be opened and filled where the path leads if the path and the name are not
too long and no folder is in the way. -/
theorem fill_eq_ok_iff {content : Text} {fs' : FileSystem} :
    fs.fill path content = .ok fs' ↔
      flaw? path = none ∧ name.length ≤ maxName ∧ fs.IsFree (Path.cleanParts path) ∧
        fs' = fs.put (Path.cleanParts path) content := by
  obtain ⟨above, hparts, hwalk⟩ := h.reaches
  have hdrop : (name :: above.reverse).dropWhile List.isEmpty = name :: above.reverse :=
    List.dropWhile_cons_of_neg (by simpa using h.isName.ne_nil)
  have hname : ¬(name = Path.dot ∨ name = Path.dotDot ∨
      (name :: above.reverse).head? = some []) := by
    rintro (hdot | hdotDot | hempty)
    · exact h.isName.ne_dot hdot
    · exact h.isName.ne_dotDot hdotDot
    · exact h.isName.ne_nil (Option.some.inj hempty)
  have hfree : fs.IsFree (name :: names).reverse ↔
      (!fs.isFile (name :: names).reverse && fs.isFolder (name :: names).reverse) = false := by
    rw [IsFree, Bool.and_eq_false_iff, Bool.not_eq_false']
  rw [h.cleanParts_eq, hfree, fill]
  cases hflaw : flaw? path with
  | some reason => simp
  | none =>
      simp only [hparts, List.reverse_append, List.reverse_singleton, List.singleton_append,
        hdrop, List.reverse_reverse, hwalk, h.directory, if_neg hname, Bool.not_true,
        Bool.false_eq_true, if_false, putInto]
      by_cases hlength : maxName < name.length
      · simp [hlength, Nat.not_le.mpr hlength]
      · cases hblocked : !fs.isFile (name :: names).reverse && fs.isFolder (name :: names).reverse
        · simp [hlength, Nat.le_of_not_lt hlength, eq_comm]
        · simp [hlength]

/-- For all of it to be written, the content must be accepted as well. -/
theorem write_eq_ok_iff {content : Text} {fs' : FileSystem} :
    fs.write path content = .ok fs' ↔
      fs.accepted path content = content ∧ flaw? path = none ∧ name.length ≤ maxName ∧
        fs.IsFree (Path.cleanParts path) ∧ fs' = fs.put (Path.cleanParts path) content := by
  rw [FileSystem.write_eq_ok_iff, h.fill_eq_ok_iff]

theorem read_of_lookup {content : Text} (hflaw : flaw? path = none)
    (hlength : name.length ≤ maxName)
    (hlookup : fs.files.lookup (Path.cleanParts path) = some content) :
    fs.read path = .ok content := by
  obtain ⟨above, hparts, hwalk⟩ := h.reaches
  rw [h.cleanParts_eq] at hlookup
  have hfile : fs.isFile (name :: names).reverse = true := by
    obtain ⟨front, back, hfiles, -⟩ := List.lookup_eq_some_iff.mp hlookup
    rw [isFile_iff, hfiles]
    simp
  have henter : fs.enter (.inside names) name = .ok (.inside (name :: names)) := by
    have hstay : ¬(name = [] ∨ name = Path.dot) := by
      rintro (hempty | hdot)
      · exact h.isName.ne_nil hempty
      · exact h.isName.ne_dot hdot
    unfold enter
    rw [h.directory]
    simp only [Bool.not_true, Bool.false_eq_true, if_false, if_neg hstay,
      if_neg h.isName.ne_dotDot, if_neg (Nat.not_lt.mpr hlength), hfile, Bool.true_or, if_true]
  have hresolve : fs.resolve path = .ok (.inside (name :: names)) := by
    rw [resolve, hflaw]
    simp only [hparts, walk_append, hwalk, walk, henter]
  rw [read, hresolve]
  simp only [hlookup]

/-- Files that were written in between are not what lets a file be written. -/
theorem write_of_put {loc : Location} {old content : Text} {fs' : FileSystem}
    (hfree : fs.IsFree loc) (hwrite : (fs.put loc old).write path content = .ok fs') :
    fs.write path content = .ok (fs.put (Path.cleanParts path) content) := by
  obtain ⟨hall, hflaw, hlength, hput, -⟩ := (h.put hfree old).write_eq_ok_iff.mp hwrite
  rw [accepted_put] at hall
  exact h.write_eq_ok_iff.mpr ⟨hall, hflaw, hlength, hfree.of_put hput, rfl⟩

end LeadsTo

/-! ### One write after the other -/

/-- The path leads to some name in some directory. -/
def LeadsToName (fs : FileSystem) (path : Text) : Prop := ∃ names name, LeadsTo fs path names name

/-- Writes files in order, each given by its path and its content. -/
def writeAll (fs : FileSystem) (writes : List (Text × Text)) : Except FailedWrite FileSystem :=
  writes.foldlM (fun fs w => fs.write w.1 w.2) fs

section WriteAll

variable {fs fs' : FileSystem} {w : Text × Text} {writes : List (Text × Text)}

theorem exists_put_of_writeAll_cons (hleads : ∀ v ∈ w :: writes, LeadsToName fs v.1)
    (h : fs.writeAll (w :: writes) = .ok fs') :
    fs.IsFree (Path.cleanParts w.1) ∧
      fs.write w.1 w.2 = .ok (fs.put (Path.cleanParts w.1) w.2) ∧
      (∀ v ∈ writes, LeadsToName (fs.put (Path.cleanParts w.1) w.2) v.1) ∧
      (fs.put (Path.cleanParts w.1) w.2).writeAll writes = .ok fs' := by
  obtain ⟨⟨names, name, hlead⟩, hrest⟩ := List.forall_mem_cons.mp hleads
  rw [writeAll, List.foldlM_cons] at h
  cases hwrite : fs.write w.1 w.2 with
  | error failure =>
      rw [hwrite] at h
      cases h
  | ok next =>
      rw [hwrite] at h
      obtain ⟨-, -, -, hfree, rfl⟩ := hlead.write_eq_ok_iff.mp hwrite
      refine ⟨hfree, rfl, fun v hv => ?_, h⟩
      obtain ⟨names, name, hv⟩ := hrest v hv
      exact ⟨names, name, hv.put hfree w.2⟩

/-- All paths lead where they led before. -/
theorem LeadsTo.writeAll {path name : Text} {names : List Text} (hpath : LeadsTo fs path names name)
    (hleads : ∀ v ∈ writes, LeadsToName fs v.1) (h : fs.writeAll writes = .ok fs') :
    LeadsTo fs' path names name := by
  induction writes generalizing fs with
  | nil =>
      cases h
      exact hpath
  | cons w writes ih =>
      obtain ⟨hfree, -, hrest, h⟩ := exists_put_of_writeAll_cons hleads h
      exact ih (hpath.put hfree w.2) hrest h

/-- Every location holds what was last written there. -/
theorem lookup_of_writeAll (hleads : ∀ v ∈ writes, LeadsToName fs v.1)
    (h : fs.writeAll writes = .ok fs') (loc : Location) :
    fs'.files.lookup loc =
      ((writes.filter (Path.cleanParts ·.1 = loc)).getLast?.map Prod.snd).or
        (fs.files.lookup loc) := by
  induction writes generalizing fs with
  | nil =>
      cases h
      rfl
  | cons w writes ih =>
      obtain ⟨-, -, hrest, h⟩ := exists_put_of_writeAll_cons hleads h
      rw [ih hrest h, lookup_put, List.filter_cons]
      -- The first write is seen only if no later one has its location.
      by_cases hloc : Path.cleanParts w.1 = loc
      · cases hlast : (writes.filter (Path.cleanParts ·.1 = loc)).getLast? <;>
          simp [hloc, hlast, List.getLast?_cons]
      · simp [hloc, Ne.symm hloc]

/-- Each file could have been written without the others. -/
theorem write_of_writeAll (hleads : ∀ v ∈ writes, LeadsToName fs v.1)
    (h : fs.writeAll writes = .ok fs') (hw : w ∈ writes) :
    fs.write w.1 w.2 = .ok (fs.put (Path.cleanParts w.1) w.2) := by
  induction writes generalizing fs with
  | nil => cases hw
  | cons v writes ih =>
      obtain ⟨names, name, hlead⟩ := hleads w hw
      obtain ⟨hfree, hwrite, hrest, h⟩ := exists_put_of_writeAll_cons hleads h
      rcases List.mem_cons.mp hw with rfl | hw
      · exact hwrite
      · exact hlead.write_of_put hfree (ih hrest h hw)

/-- A path is read as the last write to its location left it. -/
theorem read_of_writeAll (hleads : ∀ v ∈ writes, LeadsToName fs v.1)
    (h : fs.writeAll writes = .ok fs') (hw : w ∈ writes) :
    ∃ last, (writes.filter (Path.cleanParts ·.1 = Path.cleanParts w.1)).getLast? = some last ∧
      fs'.read w.1 = .ok last.2 := by
  obtain ⟨names, name, hlead⟩ := hleads w hw
  obtain ⟨-, hflaw, hlength, -, -⟩ :=
    hlead.write_eq_ok_iff.mp (write_of_writeAll hleads h hw)
  have hne : writes.filter (Path.cleanParts ·.1 = Path.cleanParts w.1) ≠ [] := by
    apply List.ne_nil_of_mem (a := w)
    simpa using hw
  have hlast := List.getLast?_eq_some_getLast hne
  refine ⟨_, hlast, (hlead.writeAll hleads h).read_of_lookup hflaw hlength ?_⟩
  rw [lookup_of_writeAll hleads h, hlast]
  rfl

end WriteAll

end FileSystem

namespace Path

/-! ### Paths with another last part -/

/-- Up to its last slash a path is the same whatever name follows. -/
theorem exists_parts_append {front : Text} (h : front = [] ∨ front.getLast? = some slash) :
    ∃ above spot, ∀ name, slash ∉ name →
      parts (front ++ name) = above ++ [name] ∧ FileSystem.start (front ++ name) = spot := by
  rcases h with rfl | hlast
  · refine ⟨[], .inside [], fun name hname => ⟨splitAt_of_notMem hname, ?_⟩⟩
    have habsolute : isAbsolute name = false := by
      rw [isAbsolute, beq_eq_false_iff_ne]
      intro hhead
      exact hname (List.mem_of_mem_head? hhead)
    rw [List.nil_append, FileSystem.start, habsolute, if_neg Bool.false_ne_true]
  · obtain ⟨init, rfl⟩ := List.getLast?_eq_some_iff.mp hlast
    refine ⟨splitAt slash init, FileSystem.start (init ++ [slash]), fun name hname => ⟨?_, ?_⟩⟩
    · rw [List.append_assoc, parts, List.singleton_append, splitAt_append_separator_append,
        splitAt_of_notMem hname]
    · have hhead : (init ++ [slash] ++ name).head? = (init ++ [slash]).head? := by
        cases init <;> rfl
      rw [FileSystem.start, FileSystem.start, isAbsolute, isAbsolute, hhead]

theorem exists_front (path : Text) :
    ∃ front, (front = [] ∨ front.getLast? = some slash) ∧ path = front ++ lastPart path := by
  refine ⟨(path.reverse.dropWhile (· != slash)).reverse, ?_, ?_⟩
  · rw [List.reverse_eq_nil_iff, List.getLast?_reverse]
    have hhead := List.head?_dropWhile_not (· != slash) path.reverse
    cases hdrop : path.reverse.dropWhile (· != slash) with
    | nil => exact Or.inl rfl
    | cons byte rest =>
        rw [hdrop] at hhead
        simp only [List.head?_cons, bne_eq_false_iff_eq] at hhead
        exact Or.inr (congrArg some hhead)
  · rw [lastPart, ← List.reverse_append, List.takeWhile_append_dropWhile, List.reverse_reverse]

theorem slash_notMem_lastPart (path : Text) : slash ∉ lastPart path := by
  intro hmem
  have hall := List.all_eq_true.mp (List.all_takeWhile (p := (· != slash)) (l := path.reverse))
    slash (List.mem_reverse.mp hmem)
  simp at hall

theorem length_suffix_le (path : Text) : (suffix path).length ≤ (lastPart path).length := by
  rw [suffix]
  split
  · rename_i hdot
    have hsplit := congrArg List.length (List.takeWhile_append_dropWhile
      (p := (· != '.'.toUInt8)) (l := (lastPart path).reverse))
    have hne : (lastPart path).reverse.dropWhile (· != '.'.toUInt8) ≠ [] := by
      intro hnil
      have hall := List.all_takeWhile (p := (· != '.'.toUInt8)) (l := (lastPart path).reverse)
      have hwhole := List.takeWhile_append_dropWhile
        (p := (· != '.'.toUInt8)) (l := (lastPart path).reverse)
      rw [hnil, List.append_nil] at hwhole
      rw [hwhole] at hall
      have hbyte := List.all_eq_true.mp hall _ (List.contains_iff_mem.mp hdot)
      simp at hbyte
    have hpos := List.length_pos_iff.mpr hne
    rw [List.length_append, List.length_reverse] at hsplit
    rw [List.length_cons, List.length_reverse]
    omega
  · exact Nat.zero_le _

/-- Only the last part of a path is shortened by its suffix. -/
theorem withoutSuffix_append {front name : Text} (hfront : front = [] ∨ front.getLast? = some slash)
    (hname : slash ∉ name) :
    ∃ stem, slash ∉ stem ∧ withoutSuffix (front ++ name) = front ++ stem := by
  have hlength := length_suffix_le (front ++ name)
  rw [lastPart_append hfront hname] at hlength
  refine ⟨name.take (name.length - (suffix (front ++ name)).length),
    fun hmem => hname (List.mem_of_mem_take hmem), ?_⟩
  have hcut : (front ++ name).length - (suffix (front ++ name)).length =
      front.length + (name.length - (suffix (front ++ name)).length) := by
    rw [List.length_append]
    omega
  rw [withoutSuffix, hcut, List.take_length_add_append]

theorem isName_append {stem ending : Text} (hstem : slash ∉ stem) (hending : slash ∉ ending)
    (hlength : 2 < ending.length) : IsName (stem ++ ending) := by
  have hlong : 2 < (stem ++ ending).length := by
    rw [List.length_append]
    omega
  refine ⟨?_, ?_, ?_, ?_⟩
  · intro heq
    rw [heq] at hlong
    exact absurd hlong (by decide)
  · intro heq
    rw [heq] at hlong
    exact absurd hlong (by decide)
  · intro heq
    rw [heq] at hlong
    exact absurd hlong (by decide)
  · intro hmem
    exact (List.mem_append.mp hmem).elim hstem hending

end Path

theorem FileSystem.exists_directory_of_read {fs : FileSystem} {path content last : Text}
    {above : List Text} (hread : fs.read path = .ok content)
    (hparts : Path.parts path = above ++ [last]) :
    ∃ names, fs.walk (start path) above = .ok (.inside names) ∧
      fs.isDirectory (.inside names) = true := by
  have hresolve : ∃ names, fs.walk (start path) (above ++ [last]) = .ok (.inside names) := by
    rw [read] at hread
    cases hspot : fs.resolve path with
    | error reason =>
        rw [hspot] at hread
        cases hread
    | ok spot =>
        rw [hspot] at hread
        rw [resolve, hparts] at hspot
        cases spot with
        | outside => cases hread
        | inside names =>
            cases hflaw : flaw? path with
            | some reason =>
                rw [hflaw] at hspot
                cases hspot
            | none =>
                rw [hflaw] at hspot
                exact ⟨names, hspot⟩
  obtain ⟨found, hwalk⟩ := hresolve
  rw [walk_append] at hwalk
  cases habove : fs.walk (start path) above with
  | error reason =>
      rw [habove] at hwalk
      cases hwalk
  | ok spot =>
      rw [habove] at hwalk
      cases spot with
      | outside => cases walk_outside hwalk
      | inside names =>
          refine ⟨names, rfl, ?_⟩
          cases hdirectory : fs.isDirectory (.inside names) with
          | true => rfl
          | false =>
              simp [walk, enter, hdirectory] at hwalk

/-- A file that can be read lies in a directory, where a path with another ending leads
to a name. -/
theorem FileSystem.exists_leadsTo_of_read {fs : FileSystem} {path content ending : Text}
    (hread : fs.read path = .ok content) (hending : Path.slash ∉ ending)
    (hlength : 2 < ending.length) :
    ∃ names name, LeadsTo fs (Path.withoutSuffix path ++ ending) names name := by
  obtain ⟨front, hfront, hpath⟩ := Path.exists_front path
  have hlast := Path.slash_notMem_lastPart path
  obtain ⟨above, spot, hparts⟩ := Path.exists_parts_append hfront
  obtain ⟨stem, hstem, hshort⟩ := Path.withoutSuffix_append hfront hlast
  rw [← hpath] at hshort
  have hname := Path.isName_append hstem hending hlength
  obtain ⟨hold, hstart⟩ := hparts _ hlast
  obtain ⟨hnew, hstart'⟩ := hparts _ hname.slash_notMem
  rw [← hpath] at hold hstart
  rw [hshort, List.append_assoc]
  obtain ⟨names, hwalk, hdirectory⟩ := exists_directory_of_read hread hold
  rw [hstart, ← hstart'] at hwalk
  exact ⟨names, stem ++ ending, hname, ⟨above, hnew, hwalk⟩, hdirectory⟩

end FlatAssembler
