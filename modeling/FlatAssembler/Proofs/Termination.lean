import FlatAssembler.Proofs.Requests
import Mathlib.Data.List.Dedup
import Mathlib.Data.List.Perm.Subperm

/-!
# Loading comes to an end

Files may include each other in any way, and themselves. A load comes to an end all
the same, because a path is marked before it is read and different spellings of one
file have one mark: what is entered along the way are different files, each of them
at most once (`Visits`). So no more files are entered than there are, and no more can
be inside one another.

A text that is given under a name, instead of being read, is entered without being a
file, and counts for one more.
-/

namespace FlatAssembler

/-- The places at which there is a file. -/
def FileSystem.locations (fs : FileSystem) : List Location := (fs.files.map Prod.fst).dedup

/-- Whether a request is answered from the files. -/
def Task.IsFromFiles (fs : FileSystem) : Task → Prop
  | .request path found _ => found = fs.read path
  | .lines .. => True

namespace Session

open Source

/-- Between the sessions these paths are entered, each for the first time. -/
structure Visits (s : Session) (paths : List Text) (t : Session) : Prop where
  nodup : (paths.map Path.clean).Nodup
  unmarked : ∀ path ∈ paths, Path.clean path ∉ s.loaded
  marked : ∀ path ∈ paths, Path.clean path ∈ t.loaded
  kept : s.loaded ⊆ t.loaded

namespace Visits

theorem nil {s t : Session} (h : s.loaded ⊆ t.loaded) : Visits s [] t where
  nodup := List.nodup_nil
  unmarked := by simp
  marked := by simp
  kept := h

theorem trans {s t u : Session} {paths more : List Text} (h : Visits s paths t)
    (hmore : Visits t more u) : Visits s (paths ++ more) u where
  nodup := by
    rw [List.map_append, List.nodup_append]
    refine ⟨h.nodup, hmore.nodup, ?_⟩
    intro key hkey other hother heq
    obtain ⟨path, hpath, rfl⟩ := List.mem_map.mp hkey
    obtain ⟨path', hpath', rfl⟩ := List.mem_map.mp hother
    -- What is entered later is not marked by then, and what was entered is.
    exact hmore.unmarked path' hpath' (heq ▸ h.marked path hpath)
  unmarked := by
    intro path hpath
    rcases List.mem_append.mp hpath with hpath | hpath
    · exact h.unmarked path hpath
    · exact fun hkey => hmore.unmarked path hpath (h.kept hkey)
  marked := by
    intro path hpath
    rcases List.mem_append.mp hpath with hpath | hpath
    · exact hmore.kept (h.marked path hpath)
    · exact hmore.marked path hpath
  kept := List.Subset.trans h.kept hmore.kept

theorem congr {s t u : Session} {paths : List Text} (h : Visits s paths t)
    (hloaded : u.loaded = t.loaded) : Visits s paths u where
  nodup := h.nodup
  unmarked := h.unmarked
  marked := by simpa [hloaded] using h.marked
  kept := by simpa [hloaded] using h.kept

theorem marking {s : Session} {path : Text} (h : ¬isMarked s.loaded path = true) :
    Visits s [path] (s.marking path) where
  nodup := by simp
  unmarked := by simpa using h
  marked := by simp [Session.marking]
  kept := by simp [Session.marking]

end Visits

theorem Yields.visits {fs : FileSystem} {task : Task} {s : Session}
    {r : Session × Option Fault} {requests : Requests} (h : Yields fs task s r requests) :
    Visits s requests.entered r.1 := by
  have hline {s t : Session} {site : Site} {text : Text} {fault : Option Fault}
      (hstep : s.step (.line site text) = (t, fault)) : Visits s [] t := by
    have hloaded := s.loaded_step_line site text
    rw [hstep] at hloaded
    exact (Visits.nil (List.Subset.refl s.loaded)).congr hloaded
  induction h with
  | repeated marked => exact Visits.nil (List.Subset.refl _)
  | unreadable unmarked => exact Visits.nil (by simp [Session.marking])
  | entered unmarked lines ih =>
      rw [Requests.entered_single]
      exact ((Visits.marking unmarked).trans ih).congr (loaded_placed _ _)
  | finished => exact Visits.nil (List.Subset.refl _)
  | failed step => exact hline step
  | stopped step stop => exact (hline step).congr rfl
  | passed step unstopped plain next ih => exact (hline step).trans ih
  | included step includes inner next ihInner ihNext =>
      rw [Requests.entered_append]
      exact (hline step).trans (ihInner.trans ihNext)
  | broken step includes inner ih => exact (hline step).trans ih

theorem Yields.exists_read {fs : FileSystem} {task : Task} {s : Session}
    {r : Session × Option Fault} {requests : Requests} (h : Yields fs task s r requests)
    (hfiles : task.IsFromFiles fs) :
    ∀ path ∈ requests.entered, ∃ content, fs.read path = .ok content := by
  induction h with
  | repeated marked => simp [Requests.entered]
  | unreadable unmarked => simp [Requests.entered]
  | entered unmarked lines ih =>
      intro path hpath
      rw [Requests.entered_single] at hpath
      rcases List.mem_cons.mp hpath with rfl | hpath
      · exact ⟨_, hfiles.symm⟩
      · exact ih trivial path hpath
  | finished => simp [Requests.entered]
  | failed step => simp [Requests.entered]
  | stopped step stop => simp [Requests.entered]
  | passed step unstopped plain next ih => exact ih trivial
  | included step includes inner next ihInner ihNext =>
      intro path hpath
      rw [Requests.entered_append] at hpath
      rcases List.mem_append.mp hpath with hpath | hpath
      · exact ihInner rfl path hpath
      · exact ihNext trivial path hpath
  | broken step includes inner ih => exact ih rfl

/-! ### Different files -/

/-- The paths lead to files of the file system, no two of them to the same. -/
structure AreDifferentFiles (fs : FileSystem) (paths : List Text) : Prop where
  nodup : (paths.map Path.cleanParts).Nodup
  mem : ∀ path ∈ paths, Path.cleanParts path ∈ fs.locations

theorem areDifferentFiles_of_visits {fs : FileSystem} {s t : Session} {paths : List Text}
    (hvisits : Visits s paths t)
    (hread : ∀ path ∈ paths, ∃ content, fs.read path = .ok content) :
    AreDifferentFiles fs paths where
  nodup := by
    -- A path that can be read is relative, so that its clean parts determine its mark.
    have hclean : paths.map Path.clean = (paths.map Path.cleanParts).map Path.relative := by
      rw [List.map_map]
      apply List.map_congr_left
      intro path hpath
      obtain ⟨content, hcontent⟩ := hread path hpath
      simp [Path.clean, (FileSystem.mem_files_of_read hcontent).1]
    have hnodup := hvisits.nodup
    rw [hclean] at hnodup
    exact hnodup.of_map
  mem := by
    intro path hpath
    obtain ⟨content, hcontent⟩ := hread path hpath
    rw [FileSystem.locations, List.mem_dedup]
    exact List.mem_map.mpr ⟨_, (FileSystem.mem_files_of_read hcontent).2, rfl⟩

theorem AreDifferentFiles.length_le {fs : FileSystem} {paths : List Text}
    (h : AreDifferentFiles fs paths) : paths.length ≤ fs.locations.length := by
  have hsubset : paths.map Path.cleanParts ⊆ fs.locations := by
    intro location hlocation
    obtain ⟨path, hpath, rfl⟩ := List.mem_map.mp hlocation
    exact h.mem path hpath
  have hle := (List.subperm_of_subset h.nodup hsubset).length_le
  rwa [List.length_map] at hle

/-- What lines lead to is entered from the files, and a text under a name is entered
before all that. -/
theorem Yields.entered_of_ok {fs : FileSystem} {s : Session} {name source : Text}
    {origin : Option (Site × Text)} {r : Session × Option Fault} {requests : Requests}
    (h : Yields fs (.request name (.ok source) origin) s r requests) :
    requests.entered = [] ∨
      ∃ files, requests.entered = name :: files ∧ AreDifferentFiles fs files := by
  cases h with
  | repeated marked => exact Or.inl rfl
  | entered unmarked lines =>
      rw [Requests.entered_single]
      exact Or.inr ⟨_, rfl,
        areDifferentFiles_of_visits lines.visits (lines.exists_read trivial)⟩

/-- Whatever the files hold, a load ends: the rules lead from the session to one
result, that of the load, by one tree of requests. The lines of each file are gone
through at most once, so that files are never deeper inside one another than there
are files. A text that is given under a name counts for one more. -/
theorem exists_requests_of_load (fs : FileSystem) (s : Session) :
    (∀ path, ∃ requests,
      (∀ r requests', Yields fs (.request path (fs.read path) none) s r requests' ↔
        r = ((s.load fs path).1, faultOf (s.load fs path).2) ∧ requests' = requests) ∧
      AreDifferentFiles fs requests.entered ∧
      requests.entered.length ≤ fs.locations.length ∧
      requests.depth ≤ fs.locations.length) ∧
    ∀ name source, ∃ requests,
      (∀ r requests', Yields fs (.request name (.ok source) none) s r requests' ↔
        r = ((s.loadSource fs name source).1, faultOf (s.loadSource fs name source).2) ∧
          requests' = requests) ∧
      (requests.entered = [] ∨
        ∃ files, requests.entered = name :: files ∧ AreDifferentFiles fs files) ∧
      requests.entered.length ≤ fs.locations.length + 1 ∧
      requests.depth ≤ fs.locations.length + 1 := by
  constructor
  · intro path
    obtain ⟨requests, hyields⟩ := exists_yields_load fs s path
    have hfiles := areDifferentFiles_of_visits hyields.visits (hyields.exists_read rfl)
    have hdepth := requests.depth_le_length_entered
    exact ⟨requests, hyields.iff, hfiles, hfiles.length_le, Nat.le_trans hdepth hfiles.length_le⟩
  · intro name source
    obtain ⟨requests, hyields⟩ := exists_yields_loadSource fs s name source
    have hentered := hyields.entered_of_ok
    have hlength : requests.entered.length ≤ fs.locations.length + 1 := by
      rcases hentered with hnone | ⟨files, heq, hfiles⟩
      · simp [hnone]
      · simpa [heq] using hfiles.length_le
    have hdepth := requests.depth_le_length_entered
    exact ⟨requests, hyields.iff, hentered, hlength, Nat.le_trans hdepth hlength⟩

end Session

end FlatAssembler
