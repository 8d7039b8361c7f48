import FlatAssembler.Proofs.IncludeLine
import FlatAssembler.Proofs.Shadow

/-!
# Inclusion in place

To include a file is to put its lines in place of the including line, up to the
line that stops the file. The two ways of writing a source make a session go
through different streams: the file is entered and completed, its path is marked,
and its lines have another file name and other numbers. None of this shows in the
output, so the session that meets the lines in place keeps in step with the one
that includes them (`outcome_lineEvents`), and both go on alike with what follows
(`outcome_expand`).

`loadSource_inline` says this of whole loads. A request for the file while it is
loaded is the one thing that tells the two sources apart; it must not be reached.
-/

namespace FlatAssembler

namespace Source

/-- The lines that a file contributes where it is included, as they stand in it. -/
def contribution (content : Text) : List Text :=
  (splitAt '\n'.toUInt8 content).takeWhile fun piece => !isStop (withoutReturn piece)

theorem map_contribution (content : Text) :
    (contribution content).map withoutReturn =
      (lines content).takeWhile fun text => !isStop text := by
  rw [contribution, lines, List.takeWhile_map]
  rfl

theorem isStop_of_mem_contribution {content text : Text}
    (h : text ∈ (contribution content).map withoutReturn) : isStop text = false := by
  rw [map_contribution] at h
  simpa using List.all_eq_true.mp List.all_takeWhile text h

theorem newline_notMem_contribution {content piece : Text} (h : piece ∈ contribution content) :
    '\n'.toUInt8 ∉ piece :=
  notMem_of_mem_splitAt ((List.takeWhile_sublist _).mem h)

/-- Joined lines are read back, where no line at all is one without characters. -/
theorem lines_joinWith {pieces : List Text} (h : ∀ piece ∈ pieces, '\n'.toUInt8 ∉ piece) :
    lines (Text.joinWith "\n" pieces) =
      if pieces = [] then [[]] else pieces.map withoutReturn := by
  by_cases hpieces : pieces = []
  · rw [if_pos hpieces, hpieces]
    rfl
  · rw [if_neg hpieces, lines]
    exact congrArg (List.map withoutReturn) (splitAt_joinWith hpieces h)

end Source

namespace Session

open Source

/-! ### The line and the lines in its place -/

/-- A line of `main` includes the file of this name, which can be read and which
no labelled line stops. -/
structure Includes (fs : FileSystem) (main name content line : Text) : Prop where
  plain : IsPlainName name
  wellFormed : Text.ofChars name.chars = name
  parse : Statement.parse line = Statement.parse (includeLine name)
  read : fs.read (neighbour main name) = .ok content
  unlabelled : ∀ text, (lines content).find? isStop = some text →
    (Statement.parse text).label = []

/-- What is left of a file behind its lines: a line that stops it, if there is
one, and its end. -/
theorem exists_run_stop (s : Session) (fs : FileSystem) (path : Text) (loaded : List Text)
    (index : Nat) {stop : Option Text}
    (h : ∀ text, stop = some text → isStop text = true ∧ (Statement.parse text).label = []) :
    ∃ n : Notes, n.loaded = s.loaded ∧
      s.run (body fs path loaded index stop.toList ++ [.completed path]) =
        (s.withNotes n, none) := by
  cases stop with
  | none => exact ⟨{ s.notes with statuses := s.statuses.push (.loaded path) }, rfl, rfl⟩
  | some text =>
      obtain ⟨hstop, hlabel⟩ := h text rfl
      have haction (t : Session) : t.execute (Statement.parse text) = (t, none) := by
        rw [execute, of_decide_eq_true hstop]
      have hevents : body fs path loaded index [text] = [.line ⟨path, index⟩ text] := by
        rw [body, body, lineEvents_of_none (included?_of_isStop hstop path)]
        rfl
      refine ⟨{ s.notes with site := ⟨path, index⟩, statuses := s.statuses.push (.loaded path) },
        rfl, ?_⟩
      rw [Option.toList_some, hevents, List.singleton_append,
        run_cons_of_none (step_line_of_idle hlabel haction s _)]
      rfl

section Include

variable {fs : FileSystem} {main content line name : Text}

theorem Includes.included? (h : Includes fs main name content line) :
    (Statement.parse line).included? main = some (neighbour main name) := by
  rw [h.parse, included?_of_plainName h.plain h.wellFormed]

theorem Includes.step (h : Includes fs main name content line) (s : Session) (site : Site) :
    s.step (.line site line) = ({ s with site }, none) := by
  apply step_line_of_idle
  · rw [h.parse, parse_includeLine h.plain h.wellFormed]
  · intro t
    rw [h.parse, execute_includeLine h.plain h.wellFormed]

/-- The including line does what the lines do that the file contributes. -/
theorem Includes.lineEvents (h : Includes fs main name content line) {s : Session} {index : Nat}
    (hfresh : Fresh (Path.clean (neighbour main name)) s
      (lineEvents fs main s.loaded index line)) :
    Outcome (Path.clean (neighbour main name))
      (s.run (Source.lineEvents fs main s.loaded index line))
      (s.run (body fs main s.loaded index ((contribution content).map withoutReturn))) := by
  generalize hpath : neighbour main name = path at hfresh ⊢
  have hincluded := h.included?
  have hread := h.read
  have hdirectory := directory_neighbour h.plain h.wellFormed main
  rw [hpath] at hincluded hread hdirectory
  rw [lineEvents_of_some hincluded] at hfresh ⊢
  have hkey : Path.clean path ∉ s.loaded := hfresh.head hincluded rfl
  -- The path is not marked, so that the file is entered and its lines come next.
  rw [request_of_ok (fun hmarked => hkey (isMarked_iff.mp hmarked)) hread, reached_eq,
    body_append, List.append_assoc] at hfresh ⊢
  have hinner := (hfresh.tail (h.step s _)).tail rfl
  rw [run_cons_of_none (h.step s _), run_cons_of_none rfl, map_contribution,
    ← List.append_nil (body fs main _ _ _)]
  have hshadows := shadows_marked (Path.clean path) s ⟨main, index⟩
  refine Outcome.append
    (hshadows.body (answers fs _ _) hdirectory.symm (Nat.le_refl _) hinner.left) ?_
  intro u v _ _ huv
  obtain ⟨n, hn, hrun⟩ := u.exists_run_stop fs path
    (s.loaded ++ [Path.clean path] ++ marked (body fs path (s.loaded ++ [Path.clean path]) 0
      ((lines content).takeWhile fun text => !isStop text))) _
    fun text htext => ⟨List.find?_some htext, h.unlabelled text htext⟩
  rw [hrun]
  exact ⟨huv.withNotes (m := v.notes) hn rfl, rfl⟩

theorem Includes.isStop_line (h : Includes fs main name content line) : isStop line = false := by
  rw [isStop, decide_eq_false_iff_not, h.parse, parse_includeLine h.plain h.wellFormed]
  exact (by decide : Directive.ofName "include" ≠ .stop)

theorem Includes.body (h : Includes fs main name content line) {s : Session} {index : Nat}
    {rest : List Text}
    (hfresh : Fresh (Path.clean (neighbour main name)) s
      (body fs main s.loaded index (line :: rest) ++ [.completed main])) :
    Outcome (Path.clean (neighbour main name))
      (s.run (Source.body fs main s.loaded index (line :: rest) ++ [.completed main]))
      (s.run (Source.body fs main s.loaded index
        ((contribution content).map withoutReturn ++ rest) ++ [.completed main])) := by
  rw [Source.body, List.append_assoc] at hfresh ⊢
  rw [body_append, List.append_assoc]
  refine Outcome.append (h.lineEvents hfresh.left) ?_
  intro u v hu hv huv
  have hrest := hfresh.right hu
  rw [← loaded_run hu] at hrest ⊢
  rw [← loaded_run hv]
  refine Outcome.append (huv.body (answers fs _ _) rfl (Nat.le_refl _) hrest.left) ?_
  intro u v _ _ huv
  exact huv.completed main

/-- A source that includes the file does what the source does that has its lines
in place. -/
theorem Includes.expand (h : Includes fs main name content line) {s : Session}
    {before after : List Text}
    (hfresh : Fresh (Path.clean (neighbour main name)) s
      (expand fs main s.loaded 0 (before ++ line :: after))) :
    Outcome (Path.clean (neighbour main name))
      (s.run (Source.expand fs main s.loaded 0 (before ++ line :: after)))
      (s.run (Source.expand fs main s.loaded 0
        (before ++ ((contribution content).map withoutReturn ++ after)))) := by
  rw [expand_eq] at hfresh ⊢
  rw [expand_eq]
  by_cases hstop : ∃ text ∈ before, isStop text = true
  · rw [reached_of_exists hstop, reached_of_exists hstop]
    exact Outcome.refl _ _
  · have hbefore : ∀ text ∈ before, isStop text = false := fun text htext =>
      Bool.eq_false_iff.mpr fun hyes => hstop ⟨text, htext, hyes⟩
    have hline : reached (line :: after) = line :: reached after := by
      rw [reached, h.isStop_line, if_neg Bool.false_ne_true]
    rw [reached_of_forall hbefore, hline, body_append, List.append_assoc] at hfresh ⊢
    rw [reached_of_forall hbefore, reached_of_forall fun _ => isStop_of_mem_contribution,
      body_append, List.append_assoc]
    -- Up to the line both sources have the same events.
    refine Outcome.append (Outcome.refl _ _) ?_
    intro u v hu hv _
    obtain rfl : u = v := congrArg Prod.fst (hu.symm.trans hv)
    have hrest := hfresh.right hu
    rw [← loaded_run hu] at hrest ⊢
    exact h.body hrest

end Include

/-- A source without lines and one with an empty line do the same. -/
theorem Outcome.blank {key : Text} {r : Session × Option Fault} {fs : FileSystem} {main : Text}
    {s : Session} (h : Outcome key r (s.run (expand fs main s.loaded 0 []))) :
    Outcome key r (s.run (expand fs main s.loaded 0 [[]])) := by
  have hline : s.step (.line ⟨main, 0⟩ []) = ({ s with site := ⟨main, 0⟩ }, none) :=
    step_line_of_idle rfl (fun _ => rfl) s _
  have hevents : expand fs main s.loaded 0 [[]] = [.line ⟨main, 0⟩ [], .completed main] := rfl
  obtain ⟨hshadows, hfault⟩ := h
  rw [hevents, run_cons_of_none hline]
  exact ⟨hshadows.withNotes (n := r.1.notes)
    (m := { s.notes with site := ⟨main, 0⟩, statuses := s.statuses.push (.loaded main) })
    rfl rfl, hfault⟩

theorem Includes.provide {fs : FileSystem} {main name content line source : Text}
    {before after : List Text} (h : Includes fs main name content (withoutReturn line))
    (hsource : splitAt '\n'.toUInt8 source = before ++ line :: after) {s : Session}
    (hfresh : Fresh (Path.clean (neighbour main name)) s
      (provide fs s.loaded main source)) :
    Outcome (Path.clean (neighbour main name))
      (s.run (Source.provide fs s.loaded main source))
      (s.run (Source.provide fs s.loaded main
        (Text.joinWith "\n" (before ++ (contribution content ++ after))))) := by
  have hpieces : ∀ piece ∈ before ++ (contribution content ++ after), '\n'.toUInt8 ∉ piece := by
    intro piece hpiece
    have hmain (hmem : piece ∈ before ++ line :: after) : '\n'.toUInt8 ∉ piece :=
      notMem_of_mem_splitAt (hsource ▸ hmem)
    simp only [List.mem_append] at hpiece
    rcases hpiece with hbefore | hcontribution | hafter
    · exact hmain (List.mem_append_left _ hbefore)
    · exact newline_notMem_contribution hcontribution
    · exact hmain (List.mem_append_right _ (List.mem_cons_of_mem _ hafter))
  have hlines : lines source =
      before.map withoutReturn ++ withoutReturn line :: after.map withoutReturn := by
    rw [lines, hsource, List.map_append, List.map_cons]
  rw [Source.provide] at hfresh ⊢
  rw [Source.provide]
  by_cases hmarked : isMarked s.loaded main = true
  · rw [if_pos hmarked, if_pos hmarked]
    exact Outcome.refl _ _
  · rw [if_neg hmarked, hlines] at hfresh ⊢
    rw [if_neg hmarked, run_cons_of_none rfl, run_cons_of_none rfl, lines_joinWith hpieces]
    have hexpand := h.expand (hfresh.tail rfl)
    rw [← List.map_append, ← List.map_append] at hexpand
    by_cases hempty : before ++ (contribution content ++ after) = []
    · rw [if_pos hempty]
      rw [hempty] at hexpand
      exact hexpand.blank
    · rw [if_neg hempty]
      exact hexpand

/-! ### Loads -/

/-- The two sessions have the same output, symbols, constants, relocation entries,
base and listing. -/
structure SameOutput (s t : Session) : Prop where
  bytes : t.bytes = s.bytes
  symbols : t.symbols = s.symbols
  constants : t.constants = s.constants
  relocations : t.relocations = s.relocations
  base : t.base = s.base
  listing : t.listing = s.listing

theorem Outcome.perform {key : Text} {s : Session} {events events' : List Event}
    (h : Outcome key (s.run events) (s.run events')) (path : Text) :
    SameOutput (s.perform path events).1 (s.perform path events').1 ∧
      (s.perform path events').2.mapError Fault.outline =
        (s.perform path events).2.mapError Fault.outline := by
  obtain ⟨hshadows, hfault⟩ := h
  have heq := hshadows.eq_with
  constructor
  · rw [(s.perform_eq path events).1, (s.perform_eq path events').1, heq]
    constructor
    all_goals rfl
  · rw [Session.perform, Session.perform]
    cases hf : (s.run events).2 with
    | none =>
        cases hf' : (s.run events').2 with
        | none => rfl
        | some fault =>
            rw [hf, hf'] at hfault
            cases hfault
    | some fault =>
        cases hf' : (s.run events').2 with
        | none =>
            rw [hf, hf'] at hfault
            cases hfault
        | some fault' =>
            rw [hf, hf'] at hfault
            exact congrArg Except.error (Option.some.inj hfault).symm

/-- Let a line of `main` include a readable file of the same directory by its name,
which is well-formed UTF-8, where a line that stops this file has no label, and let no
line that is reached include the file when it is loaded. Then `main`, whether it is read
or given, has the same outcome as the source with the lines of the file in place of the
including line: the same output, and the same failure if there is one. -/
theorem loadSource_inline (s : Session) (fs : FileSystem)
    (main name source content line : Text) (before after : List Text)
    (hsource : splitAt '\n'.toUInt8 source = before ++ line :: after)
    (hname : IsPlainName name) (hwell : Text.ofChars name.chars = name)
    (hline : Statement.parse (withoutReturn line) = Statement.parse (includeLine name))
    (hread : fs.read (neighbour main name) = .ok content)
    (hstop : ∀ text, (lines content).find? isStop = some text →
      (Statement.parse text).label = [])
    (hfresh : Fresh (Path.clean (neighbour main name)) s
      (provide fs s.loaded main source)) :
    let r := s.loadSource fs main source
    let r' := s.loadSource fs main
      (Text.joinWith "\n" (before ++ (contribution content ++ after)))
    (fs.read main = .ok source → s.load fs main = r) ∧ SameOutput r.1 r'.1 ∧
      r'.2.mapError Fault.outline = r.2.mapError Fault.outline := by
  intro r r'
  have hincludes : Includes fs main name content (withoutReturn line) :=
    ⟨hname, hwell, hline, hread, hstop⟩
  refine ⟨?_, (hincludes.provide hsource hfresh).perform main⟩
  intro hmain
  exact load_eq_loadSource hmain s

/-- A file that includes another one, and is stopped before its last line. -/
def nestedFiles : FileSystem where
  files := [(["d", "x.s"], ".byte 1\n.include \"y.s\"\nL: .word L\n.end\n.byte 9"),
    (["d", "y.s"], ".byte 2")]

theorem loadSource_inline_nested :
    (({} : Session).loadSource nestedFiles "d/m.s"
        "A: .byte 0\n.include \"x.s\"\n.byte L").1.bytes = #[0, 1, 2, 3, 0, 0, 0, 3] ∧
      SameOutput
        (({} : Session).loadSource nestedFiles "d/m.s"
          "A: .byte 0\n.include \"x.s\"\n.byte L").1
        (({} : Session).loadSource nestedFiles "d/m.s"
          "A: .byte 0\n.byte 1\n.include \"y.s\"\nL: .word L\n.byte L").1 :=
  ⟨by decide +kernel,
    (loadSource_inline {} nestedFiles "d/m.s" "x.s" "A: .byte 0\n.include \"x.s\"\n.byte L"
      ".byte 1\n.include \"y.s\"\nL: .word L\n.end\n.byte 9" ".include \"x.s\""
      ["A: .byte 0"] [".byte L"] (by decide +kernel) (by decide +kernel) (by decide +kernel)
      (by decide +kernel) (by rfl) (by decide +kernel) (by decide +kernel)).2.1⟩

/-- A name that is not well-formed is not found: with the byte `0xff` in it the file can be
read and its lines can be put in place of the line, but the line opens another path. -/
theorem not_forall_loadSource_inline :
    ¬∀ (s : Session) (fs : FileSystem) (main name source content : Text)
      (before after : List Text),
      splitAt '\n'.toUInt8 source = before ++ includeLine name :: after →
      IsPlainName name → fs.read (neighbour main name) = .ok content →
      (∀ text, (lines content).find? isStop = some text → (Statement.parse text).label = []) →
      Fresh (Path.clean (neighbour main name)) s (provide fs s.loaded main source) →
      (s.loadSource fs main source).2.isOk =
        (s.loadSource fs main
          (Text.joinWith "\n" (before ++ (contribution content ++ after)))).2.isOk := by
  intro h
  let name : Text := 0xff :: Text.ofString ".s"
  let fs : FileSystem := { files := [([name], ".byte 1")] }
  have hsame := h {} fs "m.s" name (includeLine name) ".byte 1" [] [] (by decide +kernel)
    (by decide +kernel) (by rfl) (by decide +kernel) (by decide +kernel)
  exact absurd hsame (by decide +kernel)

end Session

end FlatAssembler
