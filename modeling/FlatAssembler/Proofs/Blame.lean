import FlatAssembler.Proofs.CleanPath
import FlatAssembler.Proofs.Stream

/-!
# The line that is to blame

A load goes from file to file, and what fails is one line of one of them. The
files are entered one inside the other: `Enters` says that a load gets to the
beginning of a file, with the session that it has become by then, and `Reaches`
that it gets from there to a line, without a failure on any earlier line or in
anything that such a line includes.

The stream of events has no calls and returns, so the innermost file is found
again by descent: the lines of a file fail by a first line (`exists_of_run_body`),
and this line fails by itself or in the file that it includes, of which there are
fewer each time. `fault_of_load` is the result for whole loads.
-/

namespace FlatAssembler

/-! ### Classes of failures -/

namespace Fault

/-- The failure is of one of the four classes of an assembly, and of no other. -/
structure IsClassified (fault : Fault) : Prop where
  kind : fault.kind ∈ [Kind.fileInclusion, .definition, .unsupportedDirective, .invalidValue]
  exactlyOne : ∃ sentinel, ∀ other, fault.is other = true ↔ other = sentinel
  inRange : fault.is .slotOutOfRange = false

theorem isClassified_of_kind {fault : Fault} (cause : Cause) (h : fault.kind = cause.kind) :
    fault.IsClassified := by
  have hkind : fault.kind ∈
      [Kind.fileInclusion, .definition, .unsupportedDirective, .invalidValue] := by
    rw [h]
    cases cause <;> simp [Cause.kind]
  refine ⟨hkind, ?_, rfl⟩
  simp only [List.mem_cons, List.not_mem_nil, or_false] at hkind
  rcases hkind with hkind | hkind | hkind | hkind
  · exact ⟨.fileInclusion, fun other => by cases other <;> simp [is, hkind]⟩
  · exact ⟨.definition, fun other => by cases other <;> simp [is, hkind]⟩
  · exact ⟨.unsupportedDirective, fun other => by cases other <;> simp [is, hkind]⟩
  · exact ⟨.invalidValue, fun other => by cases other <;> simp [is, hkind]⟩

end Fault

theorem FileSystem.path_of_read_eq_error {fs : FileSystem} {path : Text} {failure : Failure}
    (h : fs.read path = .error failure) : failure.path = path := by
  unfold read at h
  split at h
  · cases h
    rfl
  · cases h
    rfl
  · split at h
    · cases h
    · cases h
      rfl

/-! ### Names of included files -/

theorem Path.clean_ne_nil (path : Text) : clean path ≠ [] := by
  unfold clean
  split
  · simp
  · unfold relative
    split
    · decide
    · rename_i hparts
      obtain ⟨part, rest, heq⟩ := List.exists_cons_of_ne_nil hparts
      have hpart := (mem_cleanParts (heq ▸ List.mem_cons_self : part ∈ cleanParts path)).1
      rw [heq, ofParts]
      by_cases hrest : rest = []
      · simpa [hrest, Text.joinWith] using hpart
      · simp [Text.joinWith_cons hrest, hpart]

theorem Statement.ne_nil_of_included? {st : Statement} {file path : Text}
    (h : st.included? file = some path) : path ≠ [] := by
  unfold included? at h
  split at h
  · rename_i argument _ _
    cases h
    unfold Path.ofArgument
    dsimp only
    split
    · rename_i habsolute
      intro hempty
      rw [hempty] at habsolute
      cases habsolute
    · exact Path.clean_ne_nil _
  · cases h

/-! ### Files and lines that are reached -/

namespace Session

open Source

/-- A session that begins the file as `u` stands as `v` in front of a line: all
earlier lines have been carried out without a failure, and none was the last. -/
structure Reaches (fs : FileSystem) (file content : Text) (u : Session) (index : Nat)
    (v : Session) : Prop where
  run : u.run (body fs file u.loaded 0 ((lines content).take index)) = (v, none)
  unstopped : ∀ text ∈ (lines content).take index, isStop text = false

/-- Inside of a load of `source` under the name `name`, from the session `s`, the
session `u` is about to begin `file`, whose text is `content`. -/
inductive Enters (fs : FileSystem) (s : Session) (name source : Text) :
    Session → Text → Text → Prop
  | top : Enters fs s name source { s with loaded := s.loaded ++ [Path.clean name] } name source
  | included {u v w : Session} {file content text path inner : Text} {index : Nat}
      (outer : Enters fs s name source u file content)
      (reaches : Reaches fs file content u index v)
      (line : (lines content)[index]? = some text)
      (step : v.step (.line ⟨file, index⟩ text) = (w, none))
      (includes : (Statement.parse text).included? file = some path)
      (unmarked : ¬isMarked w.loaded path = true)
      (read : fs.read path = .ok inner) :
      Enters fs s name source { w with loaded := w.loaded ++ [Path.clean path] } path inner

/-- The line itself is what fails: its directive, or the reading of the file that
it includes. -/
def LineFails (fs : FileSystem) (v : Session) (site : Site) (text : Text) (cause : Cause) : Prop :=
  ((v.atLine site (Statement.parse text)).execute (Statement.parse text)).2 = some cause ∨
    ∃ path failure, (Statement.parse text).included? site.file = some path ∧
      ¬isMarked v.loaded path = true ∧ fs.read path = .error failure ∧
      cause = .unreadable failure

/-- The fault names a line of a file that the load is in, by the name of the file,
the index of the line and its text, and this line is what fails. -/
def Blames (fs : FileSystem) (s : Session) (name source : Text) (fault : Fault) : Prop :=
  ∃ u v content piece cause, Enters fs s name source u fault.file content ∧
    Reaches fs fault.file content u fault.line v ∧
    (splitAt '\n'.toUInt8 content)[fault.line]? = some piece ∧
    fault.text = withoutReturn piece ∧
    fault = cause.onLine ⟨fault.file, fault.line⟩ fault.text ∧
    LineFails fs v ⟨fault.file, fault.line⟩ fault.text cause

theorem Enters.ne_nil {fs : FileSystem} {s u : Session} {name source file content : Text}
    (hname : name ≠ []) (h : Enters fs s name source u file content) : file ≠ [] := by
  cases h with
  | top => exact hname
  | included _ _ _ _ includes => exact Statement.ne_nil_of_included? includes

/-! ### Descent -/

/-- Lines that fail fail by a first line. -/
theorem exists_of_run_body {fs : FileSystem} {file : Text} {u : Session} {fault : Fault}
    {index : Nat} {texts : List Text}
    (h : (u.run (body fs file u.loaded index texts)).2 = some fault) :
    ∃ k text v, texts[k]? = some text ∧
      u.run (body fs file u.loaded index (texts.take k)) = (v, none) ∧
      (v.run (lineEvents fs file v.loaded (index + k) text)).2 = some fault := by
  induction texts generalizing u index with
  | nil => cases h
  | cons text rest ih =>
      rw [body] at h
      rcases hline : u.run (lineEvents fs file u.loaded index text) with ⟨v, _ | fault'⟩
      · rw [run_append_of_none hline, ← loaded_run hline] at h
        obtain ⟨k, other, w, hother, hrun, hfails⟩ := ih h
        refine ⟨k + 1, other, w, hother, ?_, ?_⟩
        · rw [List.take_succ_cons, body, run_append_of_none hline, ← loaded_run hline, hrun]
        · rw [Nat.add_comm k, ← Nat.add_assoc]
          exact hfails
      · rw [run_append_of_some hline] at h
        exact ⟨0, text, u, rfl, rfl, (congrArg Prod.snd hline).trans h⟩

theorem getElem?_of_reached {texts : List Text} {k : Nat} {text : Text}
    (h : (reached texts)[k]? = some text) :
    texts[k]? = some text ∧ (reached texts).take k = texts.take k ∧
      ∀ other ∈ texts.take k, isStop other = false := by
  induction texts generalizing k with
  | nil => simp [reached] at h
  | cons first rest ih =>
      rw [reached] at h ⊢
      cases k with
      | zero =>
          have hfirst : first = text := by
            split at h <;> simpa using h
          simp [hfirst]
      | succ k =>
          by_cases hstop : isStop first = true
          · simp [hstop] at h
          · rw [if_neg hstop] at h ⊢
            obtain ⟨htext, htake, hopen⟩ := ih h
            refine ⟨htext, by simp [htake], ?_⟩
            simpa [hstop] using hopen

section Descent

variable {fs : FileSystem} {s : Session} {name source : Text} {fault : Fault}

/-- A line that fails, with what it includes, is to blame itself, or else the file
that it includes fails. -/
theorem blames_of_run_lineEvents {u v : Session} {file content text : Text} {index : Nat}
    (hu : Enters fs s name source u file content) (hv : Reaches fs file content u index v)
    (htext : (lines content)[index]? = some text)
    (hfails : (v.run (lineEvents fs file v.loaded index text)).2 = some fault)
    (hinner : ∀ w path inner, Enters fs s name source w path inner →
      unread fs w.loaded < unread fs v.loaded →
      (w.run (expand fs path w.loaded 0 (lines inner))).2 = some fault →
      Blames fs s name source fault) :
    Blames fs s name source fault := by
  have hhere (cause : Cause) (hfault : cause.onLine ⟨file, index⟩ text = fault)
      (hline : LineFails fs v ⟨file, index⟩ text cause) : Blames fs s name source fault := by
    subst hfault
    rw [lines, List.getElem?_map, Option.map_eq_some_iff] at htext
    obtain ⟨piece, hpiece, rfl⟩ := htext
    exact ⟨u, v, content, piece, cause, hu, hv, hpiece, rfl, rfl, hline⟩
  rcases hexecute : (v.atLine ⟨file, index⟩ (Statement.parse text)).execute
    (Statement.parse text) with ⟨w, _ | cause⟩
  · have hstep : v.step (.line ⟨file, index⟩ text) = _ := assembleLine_of_none hexecute
    generalize hw : w.list v.bytes.size text.trim = w' at hstep
    have hloaded : w'.loaded = v.loaded := (loaded_step hstep).trans (List.append_nil _)
    rw [lineEvents, run_cons_of_none hstep] at hfails
    cases hpath : (Statement.parse text).included? file with
    | none =>
        rw [hpath] at hfails
        cases hfails
    | some path =>
        rw [hpath] at hfails
        dsimp only at hfails
        by_cases hmarked : isMarked v.loaded path = true
        · rw [request_eq, if_pos hmarked] at hfails
          cases hfails
        · rw [request_eq, if_neg hmarked] at hfails
          cases hread : fs.read path with
          | error failure =>
              rw [hread] at hfails
              exact hhere (.unreadable failure) (Option.some.inj hfails)
                (Or.inr ⟨path, failure, hpath, hmarked, hread, rfl⟩)
          | ok inner =>
              rw [hread] at hfails
              rw [← hloaded] at hmarked hfails
              refine hinner _ path inner (hu.included hv htext hstep hpath hmarked hread) ?_ hfails
              rw [← hloaded]
              exact unread_lt hmarked hread
  · have hstep : v.step (.line ⟨file, index⟩ text) = _ := assembleLine_of_some hexecute
    rw [lineEvents, run_cons_of_some hstep] at hfails
    exact hhere cause (Option.some.inj hfails) (Or.inl (congrArg Prod.snd hexecute))

/-- The induction is on the number of files that are not marked yet, which grows
smaller with each file that is entered. -/
theorem blames_of_run_expand (bound : Nat) {u : Session} {file content : Text}
    (hbound : unread fs u.loaded ≤ bound) (hu : Enters fs s name source u file content)
    (hfails : (u.run (expand fs file u.loaded 0 (lines content))).2 = some fault) :
    Blames fs s name source fault := by
  induction bound using Nat.strongRecOn generalizing u file content with
  | ind bound ih =>
      have hbody : (u.run (body fs file u.loaded 0 (reached (lines content)))).2 = some fault := by
        rw [expand_eq, run_append] at hfails
        rcases h : u.run (body fs file u.loaded 0 (reached (lines content))) with ⟨v, _ | fault'⟩
        · rw [h] at hfails
          cases hfails
        · rw [h] at hfails
          exact hfails
      obtain ⟨index, text, v, htext, hrun, hline⟩ := exists_of_run_body hbody
      obtain ⟨htext, htake, hopen⟩ := getElem?_of_reached htext
      rw [htake] at hrun
      rw [Nat.zero_add] at hline
      refine blames_of_run_lineEvents hu ⟨hrun, hopen⟩ htext hline ?_
      intro w path inner hw hlt hinner
      have hle : unread fs v.loaded ≤ unread fs u.loaded := by
        rw [loaded_run hrun]
        exact unread_append_le fs _ _
      exact ih _ (Nat.lt_of_lt_of_le hlt (Nat.le_trans hle hbound)) (Nat.le_refl _) hw hinner

/-! ### Ascent -/

/-- A line that is reached and fails makes its file fail in the same way. -/
theorem Reaches.run_expand {u v : Session} {file content text : Text} {index : Nat}
    (hv : Reaches fs file content u index v) (htext : (lines content)[index]? = some text)
    (hfails : (v.run (lineEvents fs file v.loaded index text)).2 = some fault) :
    (u.run (expand fs file u.loaded 0 (lines content))).2 = some fault := by
  obtain ⟨hlt, hget⟩ := List.getElem?_eq_some_iff.mp htext
  have hlines : lines content = (lines content).take index ++
      text :: (lines content).drop (index + 1) := by
    rw [← hget, ← List.drop_eq_getElem_cons hlt, List.take_append_drop]
  have hlength : ((lines content).take index).length = index :=
    List.length_take_of_le (Nat.le_of_lt hlt)
  have hreached (rest : List Text) : ∃ more, reached (text :: rest) = text :: more := by
    rw [reached]
    split
    · exact ⟨[], rfl⟩
    · exact ⟨reached rest, rfl⟩
  obtain ⟨more, hmore⟩ := hreached ((lines content).drop (index + 1))
  rcases hline : v.run (lineEvents fs file v.loaded index text) with ⟨w, _ | fault'⟩
  · rw [hline] at hfails
    cases hfails
  · rw [expand_eq, hlines, reached_of_forall hv.unstopped, hmore, body_append, List.append_assoc,
      run_append_of_none hv.run, ← loaded_run hv.run, hlength, Nat.zero_add, body,
      List.append_assoc, run_append_of_some hline]
    rw [hline] at hfails
    exact hfails

theorem Enters.run_expand {u : Session} {file content : Text}
    (h : Enters fs s name source u file content)
    (hfails : (u.run (expand fs file u.loaded 0 (lines content))).2 = some fault) :
    (({ s with loaded := s.loaded ++ [Path.clean name] } : Session).run
      (expand fs name (s.loaded ++ [Path.clean name]) 0 (lines source))).2 = some fault := by
  induction h with
  | top => exact hfails
  | @included u v w file content text path inner index outer reaches line step includes unmarked
      read ih =>
      apply ih
      apply reaches.run_expand line
      have hloaded : w.loaded = v.loaded := (loaded_step step).trans (List.append_nil _)
      rw [lineEvents_of_some includes, run_cons_of_none step, ← hloaded, request_eq,
        if_neg unmarked, read]
      exact hfails

theorem run_lineEvents_of_lineFails {v : Session} {file text : Text} {index : Nat}
    {cause : Cause} (h : LineFails fs v ⟨file, index⟩ text cause) :
    (v.run (lineEvents fs file v.loaded index text)).2 =
      some (cause.onLine ⟨file, index⟩ text) := by
  rcases h with hexecute | ⟨path, failure, hpath, hmarked, hread, rfl⟩
  · have hstep : v.step (.line ⟨file, index⟩ text) = _ :=
      assembleLine_of_some (Prod.ext rfl hexecute)
    rw [lineEvents, run_cons_of_some hstep]
  · obtain ⟨w, hstep⟩ : ∃ w, v.step (.line ⟨file, index⟩ text) = (w, none) := by
      refine ⟨_, assembleLine_of_none (Prod.ext rfl ?_)⟩
      unfold Statement.included? at hpath
      split at hpath
      · rename_i argument haction harguments
        simp [execute, haction, arityFailure, harguments]
      · cases hpath
    rw [lineEvents_of_some hpath, run_cons_of_none hstep, request_eq, if_neg hmarked, hread]
    rfl

/-- A source fails as its innermost failing line does, and only so. -/
theorem loadSource_eq_error_iff :
    (s.loadSource fs name source).2 = .error fault ↔
      ¬isMarked s.loaded name = true ∧ Blames fs s name source fault := by
  rw [loadSource, perform_eq_error_iff, provide]
  by_cases hmarked : isMarked s.loaded name = true
  · rw [if_pos hmarked]
    refine ⟨fun h => ?_, fun h => absurd hmarked h.1⟩
    cases h
  · rw [if_neg hmarked]
    constructor
    · intro h
      exact ⟨hmarked, blames_of_run_expand _ (Nat.le_refl _) .top h⟩
    · rintro ⟨-, u, v, content, piece, cause, hu, hv, hpiece, htext, hfault, hline⟩
      have hline' := run_lineEvents_of_lineFails hline
      rw [← hfault] at hline'
      refine hu.run_expand (hv.run_expand ?_ hline')
      rw [lines, List.getElem?_map, hpiece, htext]
      rfl

end Descent

/-- What is known of the fault of a load that got as far as the source: its class,
its line, and that no enclosing line would be blamed in place of this one. -/
structure Innermost (fs : FileSystem) (s : Session) (name source : Text) (fault : Fault) :
    Prop where
  classified : fault.IsClassified
  blames : Blames fs s name source fault
  final : ∀ site text, (Report.fault fault).locate site text = fault

theorem Blames.innermost {fs : FileSystem} {s : Session} {name source : Text} {fault : Fault}
    (h : Blames fs s name source fault) (hname : name ≠ []) :
    Innermost fs s name source fault := by
  have hblames := h
  obtain ⟨_, _, _, _, cause, hu, _, _, _, hfault, _⟩ := h
  refine ⟨Fault.isClassified_of_kind cause (congrArg Fault.kind hfault), hblames, ?_⟩
  intro site text
  rw [Report.locate, if_neg (hu.ne_nil hname)]

/-- A load that fails does so with one of the four classes of failures. If the file
that was asked for cannot be read, the fault has no line and its text is the path.
Otherwise it names the innermost line, the one that fails itself; and a line that
fails is always named. -/
theorem fault_of_load (s : Session) (fs : FileSystem) (name : Text) (hname : name ≠ [])
    (fault : Fault) :
    (∀ failure, fs.read name = .error failure → (s.load fs name).2 = .error fault →
      fault.IsClassified ∧ fault.kind = .fileInclusion ∧ fault.file = [] ∧ fault.text = name) ∧
    (∀ content, fs.read name = .ok content → (s.load fs name).2 = .error fault →
      Innermost fs s name content fault) ∧
    (∀ source, (s.loadSource fs name source).2 = .error fault →
      Innermost fs s name source fault) ∧
    ∀ source, ¬isMarked s.loaded name = true → Blames fs s name source fault →
      (s.loadSource fs name source).2 = .error fault := by
  refine ⟨?_, ?_, ?_, ?_⟩
  · intro failure hread h
    have hfault : (Cause.unreadable failure).unplaced = fault := by
      rw [load, perform_eq_error_iff, request_eq, hread] at h
      split at h
      · cases h
      · exact Option.some.inj h
    subst hfault
    exact ⟨Fault.isClassified_of_kind (.unreadable failure) rfl, rfl, rfl,
      FileSystem.path_of_read_eq_error hread⟩
  · intro content hread h
    rw [load_eq_loadSource hread] at h
    exact (loadSource_eq_error_iff.mp h).2.innermost hname
  · intro source h
    exact (loadSource_eq_error_iff.mp h).2.innermost hname
  · intro source hmarked h
    exact loadSource_eq_error_iff.mpr ⟨hmarked, h⟩

/-- The second line of an included file includes a file that is not there. -/
theorem fault_of_load_missing :
    let content : Text := ".byte 1\n.include \"x.s\"\n.byte 2"
    let fs : FileSystem :=
      { files := [(["d", "m.s"], content),
          (["d", "x.s"], "L: .word L\r\n.include \"gone.s\"\r\n.byte 3")] }
    let fault : Fault :=
      { kind := .fileInclusion, file := "d/x.s", line := 1, text := ".include \"gone.s\""
        cause := some (.unreadable ⟨.opening, "d/gone.s", .noSuchFile⟩) }
    ("d/m.s" : Text) ≠ [] ∧ fs.read "d/m.s" = .ok content ∧
      (({} : Session).load fs "d/m.s").2 = .error fault ∧
      Innermost fs {} "d/m.s" content fault := by
  intro content fs fault
  have hname : ("d/m.s" : Text) ≠ [] := by decide
  have hread : fs.read "d/m.s" = .ok content := by rfl
  have hload : (({} : Session).load fs "d/m.s").2 = .error fault := by
    rw [load, perform_eq_error_iff]
    decide +kernel
  exact ⟨hname, hread, hload, (fault_of_load {} fs "d/m.s" hname fault).2.1 content hread hload⟩

end Session

end FlatAssembler
