import FlatAssembler.Session.Load
import Mathlib.Data.List.Forall2

/-!
# Line endings

A source may end its lines with a newline or with a carriage return and a newline. The lines
are cut at the newlines and lose one carriage return each, so both give the same lines
(`lines_withReturns`), and nothing else of a source is ever looked at.

What a session goes through depends on its files in two ways: on where they are, and on the
lines that they have. `SameLines` says that two file systems agree in both, and then every
request leads to the same events (`request_eq_of_sameLines`), so that a load cannot tell the
one from the other. Files with converted line endings are a case of this.
-/

namespace FlatAssembler

namespace Source

/-- The text with a carriage return in front of every newline. -/
def withReturns (source : Text) : Text :=
  source.flatMap fun b =>
    if b = '\n'.toUInt8 then ['\r'.toUInt8, '\n'.toUInt8] else [b]

/-- The second text is the first one as it stands or, if that has no carriage returns, with
its line endings converted. -/
def Converts (source converted : Text) : Prop :=
  converted = source ∨ '\r'.toUInt8 ∉ source ∧ converted = withReturns source

/-! ### Lines -/

theorem withReturns_newline_cons (source : Text) :
    withReturns ('\n'.toUInt8 :: source) =
      '\r'.toUInt8 :: '\n'.toUInt8 :: withReturns source := rfl

theorem withReturns_cons_of_ne {b : UInt8} (h : b ≠ '\n'.toUInt8) (source : Text) :
    withReturns (b :: source) = b :: withReturns source := by
  rw [withReturns, List.flatMap_cons, if_neg h]
  rfl

theorem withoutReturn_cons_of_ne {b : UInt8} (h : b ≠ '\r'.toUInt8) (line : Text) :
    withoutReturn (b :: line) = b :: withoutReturn line := by
  cases line with
  | nil => simp [withoutReturn, h]
  | cons c line =>
      rw [withoutReturn, withoutReturn, List.getLast?_cons_cons, List.dropLast_cons_cons]
      split <;> rfl

theorem lines_newline_cons (source : Text) :
    lines ('\n'.toUInt8 :: source) = [] :: lines source := by
  rw [lines, splitAt_separator_cons, List.map_cons]
  rfl

theorem lines_return_newline_cons (source : Text) :
    lines ('\r'.toUInt8 :: '\n'.toUInt8 :: source) = [] :: lines source := by
  have hreturn : '\n'.toUInt8 ∉ ['\r'.toUInt8] := by decide
  have hsplit := splitAt_append_separator hreturn source
  rw [List.singleton_append] at hsplit
  rw [lines, hsplit, List.map_cons]
  rfl

/-- Any other character goes to the front of the first line. -/
theorem lines_cons_of_ne {b : UInt8} (hnewline : b ≠ '\n'.toUInt8) (hreturn : b ≠ '\r'.toUInt8)
    {source other : Text} (h : lines other = lines source) :
    lines (b :: other) = lines (b :: source) := by
  obtain ⟨part, parts, hparts⟩ := exists_splitAt_eq_cons '\n'.toUInt8 source
  obtain ⟨part', parts', hparts'⟩ := exists_splitAt_eq_cons '\n'.toUInt8 other
  rw [lines, lines, hparts, hparts', List.map_cons, List.map_cons] at h
  obtain ⟨hfirst, hrest⟩ := List.cons.inj h
  rw [lines, lines, splitAt_cons_of_ne hnewline hparts, splitAt_cons_of_ne hnewline hparts',
    List.map_cons, List.map_cons, withoutReturn_cons_of_ne hreturn,
    withoutReturn_cons_of_ne hreturn, hfirst, hrest]

/-- Converted line endings leave the lines as they are. -/
theorem lines_withReturns {source : Text} (h : '\r'.toUInt8 ∉ source) :
    lines (withReturns source) = lines source := by
  induction source with
  | nil => rfl
  | cons b source ih =>
      obtain ⟨hb, hsource⟩ := not_or.mp (mt List.mem_cons.mpr h)
      by_cases hnewline : b = '\n'.toUInt8
      · rw [hnewline, withReturns_newline_cons, lines_return_newline_cons, lines_newline_cons,
          ih hsource]
      · rw [withReturns_cons_of_ne hnewline]
        exact lines_cons_of_ne hnewline (Ne.symm hb) (ih hsource)

theorem Converts.lines_eq {source converted : Text} (h : Converts source converted) :
    lines converted = lines source := by
  rcases h with rfl | ⟨hreturn, rfl⟩
  · rfl
  · exact lines_withReturns hreturn

end Source

/-! ### Files -/

namespace FileSystem

/-- A file stays in its place and is converted or left alone. -/
def ConvertsFile (file converted : Location × Text) : Prop :=
  converted.1 = file.1 ∧ Source.Converts file.2 converted.2

/-- Any of the files are converted, of those that have no carriage returns. -/
structure Converts (fs converted : FileSystem) : Prop where
  files : List.Forall₂ ConvertsFile fs.files converted.files
  folders : converted.folders = fs.folders

/-- The same files and folders are there, and the files have the same lines. -/
structure SameLines (fs other : FileSystem) : Prop where
  locations : other.files.map Prod.fst = fs.files.map Prod.fst
  lookup : ∀ loc, (other.files.lookup loc).map Source.lines =
    (fs.files.lookup loc).map Source.lines
  folders : other.folders = fs.folders

theorem map_fst_of_convertsFile {files converted : List (Location × Text)}
    (h : List.Forall₂ ConvertsFile files converted) :
    converted.map Prod.fst = files.map Prod.fst := by
  induction h with
  | nil => rfl
  | cons hfile _ ih => rw [List.map_cons, List.map_cons, hfile.1, ih]

theorem lookup_of_convertsFile {files converted : List (Location × Text)}
    (h : List.Forall₂ ConvertsFile files converted) (loc : Location) :
    (converted.lookup loc).map Source.lines = (files.lookup loc).map Source.lines := by
  induction h with
  | nil => rfl
  | cons hfile _ ih =>
      rw [List.lookup_cons, List.lookup_cons, hfile.1]
      split
      · exact congrArg some hfile.2.lines_eq
      · exact ih

theorem Converts.sameLines {fs converted : FileSystem} (h : fs.Converts converted) :
    fs.SameLines converted where
  locations := map_fst_of_convertsFile h.files
  lookup := lookup_of_convertsFile h.files
  folders := h.folders

section SameLines

variable {fs other : FileSystem}

theorem SameLines.isFile_eq (h : fs.SameLines other) (loc : Location) :
    other.isFile loc = fs.isFile loc := by
  have hany (files : List (Location × Text)) :
      (files.any fun f => f.1 == loc) = (files.map Prod.fst).any (· == loc) := by
    rw [List.any_map]
    rfl
  rw [isFile, isFile, hany, hany, h.locations]

theorem SameLines.isFolder_eq (h : fs.SameLines other) (loc : Location) :
    other.isFolder loc = fs.isFolder loc := by
  have hany (files : List (Location × Text)) :
      (files.any fun f => loc.isPrefixOf f.1) = (files.map Prod.fst).any (loc.isPrefixOf ·) := by
    rw [List.any_map]
    rfl
  rw [isFolder, isFolder, hany, hany, h.locations, h.folders]

theorem SameLines.enter_eq (h : fs.SameLines other) (spot : Spot) (part : Text) :
    other.enter spot part = fs.enter spot part := by
  have hdirectory : other.isDirectory spot = fs.isDirectory spot := by
    cases spot with
    | inside names => rw [isDirectory, isDirectory, h.isFile_eq]
    | outside => rfl
  simp only [enter, hdirectory, h.isFile_eq, h.isFolder_eq]

theorem SameLines.walk_eq (h : fs.SameLines other) (spot : Spot) (parts : List Text) :
    other.walk spot parts = fs.walk spot parts := by
  induction parts generalizing spot with
  | nil => rfl
  | cons part parts ih => simp only [walk, h.enter_eq, ih]

/-- A path cannot be read in either for the same reason, or what is read has the same lines. -/
theorem SameLines.read_cases (h : fs.SameLines other) (path : Text) :
    (∃ failure, fs.read path = .error failure ∧ other.read path = .error failure) ∨
      ∃ content content', fs.read path = .ok content ∧ other.read path = .ok content' ∧
        Source.lines content' = Source.lines content := by
  have hresolve : other.resolve path = fs.resolve path := by
    simp only [resolve, h.walk_eq]
  rw [read, read, hresolve]
  rcases fs.resolve path with reason | (names | _)
  · exact Or.inl ⟨_, rfl, rfl⟩
  · have hlookup := h.lookup names.reverse
    simp only
    revert hlookup
    rcases fs.files.lookup names.reverse with _ | content <;>
      rcases other.files.lookup names.reverse with _ | content' <;> intro hlookup
    · exact Or.inl ⟨_, rfl, rfl⟩
    · cases hlookup
    · cases hlookup
    · exact Or.inr ⟨content, content', rfl, rfl, Option.some.inj hlookup⟩
  · exact Or.inl ⟨_, rfl, rfl⟩

end SameLines

end FileSystem

/-! ### Events -/

namespace Source

variable {fs other : FileSystem}

theorem unread_eq_of_sameLines (h : fs.SameLines other) (loaded : List Text) :
    unread other loaded = unread fs loaded := by
  have hcount (files : List (Location × Text)) :
      files.countP (isUnread loaded) =
        (files.map Prod.fst).countP fun loc => !loaded.contains (Path.relative loc) := by
    rw [List.countP_map]
    rfl
  rw [unread, unread, hcount, hcount, h.locations]

theorem requestWithin_eq_of_sameLines (h : fs.SameLines other) (depth : Nat) :
    requestWithin other depth = requestWithin fs depth := by
  induction depth with
  | zero =>
      funext loaded path origin
      rcases h.read_cases path with ⟨failure, hread, hread'⟩ | ⟨_, _, hread, hread', -⟩
      · simp only [requestWithin, hread, hread']
      · simp only [requestWithin, hread, hread']
  | succ depth ih =>
      funext loaded path origin
      rcases h.read_cases path with ⟨failure, hread, hread'⟩ | ⟨_, _, hread, hread', hlines⟩
      · simp only [requestWithin, hread, hread']
      · simp only [requestWithin, hread, hread', ih, hlines]

theorem request_eq_of_sameLines (h : fs.SameLines other) : request other = request fs := by
  funext loaded path origin
  rw [request, request, unread_eq_of_sameLines h, requestWithin_eq_of_sameLines h]

theorem provide_eq_of_sameLines (h : fs.SameLines other) {source source' : Text}
    (hsource : lines source' = lines source) (loaded : List Text) (name : Text) :
    provide other loaded name source' = provide fs loaded name source := by
  rw [provide, provide, expand, expand, request_eq_of_sameLines h, hsource]

end Source

/-! ### Loads -/

namespace Session

/-- Let any files without carriage returns be converted, and the source that is given too if
it has none. No load, from any session, shows a difference: the outcome is the same, failure
and status included, and so is the session that it leaves. -/
theorem load_converted (s : Session) (fs converted : FileSystem) (h : fs.Converts converted) :
    (∀ name source source', Source.Converts source source' →
      s.loadSource converted name source' = s.loadSource fs name source) ∧
    ∀ path, s.load converted path = s.load fs path := by
  constructor
  · intro name source source' hsource
    rw [loadSource, loadSource, Source.provide_eq_of_sameLines h.sameLines hsource.lines_eq]
  · intro path
    rw [load, load, Source.request_eq_of_sameLines h.sameLines]

/-- The file that is included and the source that includes it are converted, and a file that
has a carriage return is left alone. The second line of the included file fails. -/
theorem load_converted_failing :
    let source : Text := "A: .byte 1\n\n.include \"x.s\""
    let fs : FileSystem := { files := [(["x.s"], ".word A @ c\n.byte ?\n"), (["y.s"], "\r")] }
    let converted : FileSystem :=
      { files := [(["x.s"], ".word A @ c\r\n.byte ?\r\n"), (["y.s"], "\r")] }
    fs.Converts converted ∧ Source.Converts source (Source.withReturns source) ∧
      Source.withReturns source = "A: .byte 1\r\n\r\n.include \"x.s\"" ∧
      (({ listed := true } : Session).loadSource converted "m.s" (Source.withReturns source)).2 =
        .error ((Cause.notAValue "?").onLine ⟨"x.s", 1⟩ ".byte ?") ∧
      (({ listed := true } : Session).loadSource converted "m.s"
        (Source.withReturns source)).1.listing.size = 2 := by
  intro source fs converted
  have hfiles : fs.Converts converted :=
    ⟨.cons ⟨rfl, Or.inr ⟨by decide +kernel, by decide +kernel⟩⟩ (.cons ⟨rfl, Or.inl rfl⟩ .nil), rfl⟩
  have hsource : Source.Converts source (Source.withReturns source) :=
    Or.inr ⟨by decide +kernel, rfl⟩
  have hload := (load_converted { listed := true } fs converted hfiles).1 "m.s" _ _ hsource
  rw [hload]
  exact ⟨hfiles, hsource, by decide +kernel, by decide +kernel, by decide +kernel⟩

end Session

end FlatAssembler
