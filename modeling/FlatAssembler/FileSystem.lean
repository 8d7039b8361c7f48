import FlatAssembler.Path

/-!
# File systems

The files and folders below one working directory. This is all that can be read: no path that is
absolute or that leaves the working directory reaches a file, although the directories there can be
entered and files can be put into them. Everything that is said of loads and commands is said of
such file systems. With files elsewhere, one file could have any number of cleaned paths.

A path is resolved part by part, as an operating system does it: `d/../a` needs a folder `d`, and
a file has no parts below it. `mem_files_of_read` compares this walk with `Path.clean`, which looks
at the text alone: a path that can be read cleans to the location of the file that it reaches. Two
spellings of one file therefore have one cleaned path.

A write opens its file, which makes it or empties it, and then fills it. The system can break the
filling off; then a beginning of the content is there, and a failure is reported.
-/

namespace FlatAssembler

/-- Where a file or folder is: the names on the way from the working directory to it. -/
abbrev Location := List Text

/-- The files below the working directory with their contents, and the folders that are there
besides those on the way to a file. -/
structure FileSystem where
  files : List (Location × Text) := []
  folders : List Location := []
  /-- What was written above the working directory, with the paths that were given. It is out of
  sight and cannot be read back. -/
  elsewhere : List (Text × Text) := []
  /-- Paths at which a write is broken off after so many bytes, because the disk is full there. -/
  limits : List (Text × Nat) := []
  deriving DecidableEq, Repr

namespace FileSystem

/-- Why a path leads nowhere, or not to what was asked for. -/
inductive Reason where
  | noSuchFile
  | notDirectory
  | isDirectory
  | nameTooLong
  | invalidPath
  | noSpace
  deriving DecidableEq, Repr

/-- What was being done with a path when it failed. -/
inductive Action where
  | opening
  | reading
  | writing
  deriving DecidableEq, Repr

/-- An attempt on a path that failed. -/
structure Failure where
  action : Action
  path : Text
  reason : Reason
  deriving DecidableEq, Repr

/-- The system's words for it. -/
def Reason.message : Reason → Text
  | .noSuchFile => "no such file or directory"
  | .notDirectory => "not a directory"
  | .isDirectory => "is a directory"
  | .nameTooLong => "file name too long"
  | .invalidPath => "invalid argument"
  | .noSpace => "no space left on device"

/-- The word for it in a message. -/
def Action.verb : Action → Text
  | .opening => "open"
  | .reading => "read"
  | .writing => "write"

/-- What was done, the path as it was given, and the reason. -/
def Failure.message (f : Failure) : Text :=
  Text.concat [f.action.verb, " ", f.path, ": ", f.reason.message]

/-- The longest name of a single part. -/
def maxName : Nat := 255

/-- The least length of a path that is refused as a whole. -/
def pathLimit : Nat := 4096

/-- A place that a walk has reached: below the working directory, with the names on the way last
name first, or in a directory somewhere above it. -/
inductive Spot where
  | inside (names : List Text)
  | outside
  deriving DecidableEq, Repr

/-- Whether there is a file at the location. -/
def isFile (fs : FileSystem) (loc : Location) : Bool :=
  fs.files.any fun f => f.1 == loc

/-- The working directory, a folder that was made, or one on the way to something. -/
def isFolder (fs : FileSystem) (loc : Location) : Bool :=
  loc.isEmpty || fs.folders.any (loc.isPrefixOf ·) || fs.files.any (loc.isPrefixOf ·.1)

/-- Whether a walk can go on from the place. -/
def isDirectory (fs : FileSystem) : Spot → Bool
  | .inside names => !fs.isFile names.reverse
  | .outside => true

/-- Where a path begins. -/
def start (path : Text) : Spot :=
  if Path.isAbsolute path then .outside else .inside []

/-- Goes on by one part. -/
def enter (fs : FileSystem) (spot : Spot) (part : Text) : Except Reason Spot :=
  if !fs.isDirectory spot then .error .notDirectory
  else if part = [] ∨ part = Path.dot then .ok spot
  else if part = Path.dotDot then
    match spot with
    | .inside (_ :: above) => .ok (.inside above)
    | _ => .ok .outside
  else if maxName < part.length then .error .nameTooLong
  else match spot with
    | .outside => .error .noSuchFile
    | .inside names =>
      let names := part :: names
      if fs.isFile names.reverse || fs.isFolder names.reverse then .ok (.inside names)
      else .error .noSuchFile

/-- Goes on by several parts. -/
def walk (fs : FileSystem) : Spot → List Text → Except Reason Spot
  | spot, [] => .ok spot
  | spot, part :: parts =>
    match fs.enter spot part with
    | .ok next => fs.walk next parts
    | .error reason => .error reason

/-- The fault of a path that can be told without looking at any directory. -/
def flaw? (path : Text) : Option Reason :=
  if path.contains 0 then some .invalidPath
  else if path.isEmpty then some .noSuchFile
  else if pathLimit ≤ path.length then some .nameTooLong
  else none

/-- The place that a path leads to. -/
def resolve (fs : FileSystem) (path : Text) : Except Reason Spot :=
  match flaw? path with
  | some reason => .error reason
  | none => fs.walk (start path) (Path.parts path)

/-- The content of the file that a path leads to. -/
def read (fs : FileSystem) (path : Text) : Except Failure Text :=
  match fs.resolve path with
  | .error reason => .error ⟨.opening, path, reason⟩
  | .ok .outside => .error ⟨.reading, path, .isDirectory⟩
  | .ok (.inside names) =>
    match fs.files.lookup names.reverse with
    | some content => .ok content
    | none => .error ⟨.reading, path, .isDirectory⟩

/-- The file system in which the file at a location has this content. -/
def put (fs : FileSystem) (loc : Location) (content : Text) : FileSystem :=
  if fs.isFile loc then
    { fs with files := fs.files.map fun f => if f.1 = loc then (loc, content) else f }
  else { fs with files := fs.files ++ [(loc, content)] }

/-- Puts a file of the given name into the directory at a place, to which `path` led. -/
def putInto (fs : FileSystem) (spot : Spot) (path name content : Text) :
    Except Reason FileSystem :=
  if maxName < name.length then .error .nameTooLong
  else match spot with
    | .outside => .ok { fs with elsewhere := fs.elsewhere ++ [(path, content)] }
    | .inside names =>
      let loc := (name :: names).reverse
      if !fs.isFile loc && fs.isFolder loc then .error .isDirectory
      else .ok (fs.put loc content)

/-- The file system in which the file at a path has this content. The file is made if it is
missing; the directory that holds it must be there. A path that can only name a directory, by a
slash or dots at its end, is refused. -/
def fill (fs : FileSystem) (path content : Text) : Except Failure FileSystem :=
  let result : Except Reason FileSystem :=
    match flaw? path with
    | some reason => .error reason
    | none =>
      let backward := (Path.parts path).reverse
      match backward.dropWhile List.isEmpty with
      | [] => .error .isDirectory
      | name :: above =>
        match fs.walk (start path) above.reverse with
        | .error reason => .error reason
        | .ok spot =>
          if !fs.isDirectory spot then .error .notDirectory
          else if name = Path.dot ∨ name = Path.dotDot ∨ backward.head? = some [] then
            .error .isDirectory
          else fs.putInto spot path name content
  match result with
  | .ok fs => .ok fs
  | .error reason => .error ⟨.opening, path, reason⟩

/-- What a write to a path can take of a content. -/
def accepted (fs : FileSystem) (path content : Text) : Text :=
  match fs.limits.lookup path with
  | none => content
  | some n => content.take n

/-- A write that failed, and the files as it has left them. -/
structure FailedWrite extends Failure where
  files : FileSystem
  deriving DecidableEq, Repr

/-- Writes a file. If it cannot be opened nothing has changed; if the write is broken off, the file
holds what was accepted until then. -/
def write (fs : FileSystem) (path content : Text) : Except FailedWrite FileSystem :=
  let accepted := fs.accepted path content
  match fs.fill path accepted with
  | .error failure => .error { failure with files := fs }
  | .ok files =>
    if accepted = content then .ok files
    else .error { action := .writing, path, reason := .noSpace, files }

/-- The files that are new since `before` or have another content. -/
def changesSince (before after : FileSystem) : List (Location × Text) :=
  after.files.filter fun f => before.files.lookup f.1 != some f.2

/-! ### The walk and the cleaned path -/

theorem walk_outside {fs : FileSystem} {ps : List Text} {spot : Spot}
    (h : fs.walk .outside ps = .ok spot) : spot = .outside := by
  induction ps with
  | nil => simpa [walk] using h.symm
  | cons p ps ih =>
    simp only [walk] at h
    split at h
    · rename_i next he
      have : next = .outside := by
        simp only [enter, isDirectory] at he
        repeat' split at he
        all_goals simp_all
      exact ih (this ▸ h)
    · cases h

/-- What is entered from the inside is what `Path.push` keeps, as long as it stays inside. -/
theorem push_of_enter {fs : FileSystem} {names next : List Text} {part : Text}
    (hn : Path.dotDot ∉ names) (h : fs.enter (.inside names) part = .ok (.inside next)) :
    Path.push false names part = next ∧ Path.dotDot ∉ next := by
  unfold enter at h
  split at h
  · cases h
  split at h
  · rename_i hp
    cases h
    exact ⟨by simp [Path.push, hp], hn⟩
  rename_i hp
  split at h
  · rename_i hd
    split at h
    · rename_i top above _ heq
      cases heq
      cases h
      simp only [List.mem_cons, not_or] at hn
      have hne : ¬(Path.dotDot = [] ∨ Path.dotDot = Path.dot) := by decide
      exact ⟨by simp [Path.push, hd, hne, Ne.symm hn.1], hn.2⟩
    · cases h
  rename_i hd
  split at h
  · cases h
  · simp only at h
    split at h
    · cases h
      exact ⟨by simp [Path.push, hp, hd], by simp [hn, Ne.symm hd]⟩
    · cases h

theorem foldl_push_of_walk {fs : FileSystem} {names last : List Text} {ps : List Text}
    (hn : Path.dotDot ∉ names) (h : fs.walk (.inside names) ps = .ok (.inside last)) :
    ps.foldl (Path.push false) names = last := by
  induction ps generalizing names with
  | nil => simpa [walk] using h
  | cons p ps ih =>
    simp only [walk] at h
    split at h
    · rename_i next he
      cases next with
      | outside => cases walk_outside h
      | inside next =>
        obtain ⟨hp, hn'⟩ := push_of_enter hn he
        simp only [List.foldl_cons, hp]
        exact ih hn' h
    · cases h

/-- A path that can be read is relative, and its clean parts are the location of the file. -/
theorem mem_files_of_read {fs : FileSystem} {path content : Text}
    (h : fs.read path = .ok content) :
    Path.isAbsolute path = false ∧ (Path.cleanParts path, content) ∈ fs.files := by
  unfold read at h
  split at h
  · cases h
  · cases h
  · rename_i names hr
    have habs : Path.isAbsolute path = false := by
      cases ha : Path.isAbsolute path with
      | false => rfl
      | true =>
        unfold resolve at hr
        split at hr
        · cases hr
        · simp only [start, ha, if_true] at hr
          cases walk_outside hr
    refine ⟨habs, ?_⟩
    have hw : fs.walk (.inside []) (Path.parts path) = .ok (.inside names) := by
      unfold resolve at hr
      split at hr
      · cases hr
      · simpa [start, habs] using hr
    have hclean : Path.cleanParts path = names.reverse := by
      simp [Path.cleanParts, habs, foldl_push_of_walk (by simp) hw]
    split at h
    · rename_i c hl
      cases h
      obtain ⟨p, s, hf, _⟩ := List.lookup_eq_some_iff.1 hl
      simp [hf, hclean]
    · cases h

end FileSystem

end FlatAssembler
