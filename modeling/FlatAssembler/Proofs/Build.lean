import FlatAssembler.CommandLine.Run
import FlatAssembler.Proofs.FileWrites

/-!
# The two stages of a build

A build first prepares: it reads its settings, runs its script and assembles every input,
each in a session of its own. Then it finishes the inputs in order, and only then it prints
and writes itself. `fails_prepareBuild` lists what can be refused in the first stage, and of
a build that is refused nothing is left but what its script and the tracing library have
done. `writeOutputs` is what the second stage does to the files: the output of one input
after the other, until one cannot be written. Whatever the host is, this stage comes to one
of three ends (`Ends`). `runBuild_refuses_or_writes` puts the two stages together.
-/

namespace FlatAssembler.CommandLine

/-- Something that a build needs before it can write is refused. -/
inductive Refused (host : Host) (o : BuildOptions) (inputs : List Text) (fs : FileSystem) :
    Prop where
  /-- One output is named for several inputs. -/
  | output (houtput : o.output ≠ []) (hmany : 1 < inputs.length)
  /-- The base is no address. -/
  | base (error : SettingError) (h : parseAddress o.session.base = .error error)
  /-- The script has no constants. -/
  | script (error : Script.DefinesError) (hscript : o.session.definesFile ≠ [])
      (h : (host.engine fs o.session.definesFile).constants = .error error)
  /-- A pair is no constant. -/
  | pair (pair : Text) (error : SettingError) (hpair : pair ∈ o.session.defines)
      (h : parsePair pair = .error error)
  /-- The base to move to is no address. -/
  | address (error : SettingError) (haddress : o.rebase ≠ [])
      (h : parseAddress o.rebase = .error error)
  /-- An input cannot be loaded from the files that the script has left. -/
  | load (start : Session) (input : Text) (fault : Fault)
      (hstart : newSession o.session (host.runBuildScript o inputs fs) = .ok start)
      (hinput : input ∈ inputs)
      (h : ({ start with listed := o.listing }.load
        (host.runBuildScript o inputs fs).files input).2 = .error fault)
  /-- An input is loaded but cannot be moved. -/
  | move (start : Session) (input : Text) (status : Status) (base : UInt32) (error : FailedMove)
      (hstart : newSession o.session (host.runBuildScript o inputs fs) = .ok start)
      (hinput : input ∈ inputs)
      (hload : ({ start with listed := o.listing }.load
        (host.runBuildScript o inputs fs).files input).2 = .ok status)
      (haddress : o.rebase ≠ []) (hbase : parseAddress o.rebase = .ok base)
      (h : ({ start with listed := o.listing }.load
        (host.runBuildScript o inputs fs).files input).1.rebase base = .error error)

/-! ### Failures one after the other -/

/-- The computation fails. -/
def Fails {ε α : Type} (x : Except ε α) : Prop := ∃ e, x = .error e

@[simp] theorem fails_error {ε α : Type} (e : ε) : Fails (.error e : Except ε α) := ⟨e, rfl⟩

@[simp] theorem not_fails_ok {ε α : Type} (a : α) : ¬Fails (.ok a : Except ε α) := nofun

theorem fails_bind {ε α β : Type} {x : Except ε α} {f : α → Except ε β} :
    Fails (x >>= f) ↔ Fails x ∨ ∃ a, x = .ok a ∧ Fails (f a) := by
  cases x with
  | error e =>
      constructor
      · intro _
        exact Or.inl ⟨e, rfl⟩
      · intro _
        exact ⟨e, rfl⟩
  | ok a =>
      constructor
      · intro h
        exact Or.inr ⟨a, rfl, h⟩
      · rintro (⟨e, h⟩ | ⟨b, h, hf⟩)
        · cases h
        · cases h
          exact hf

theorem eq_ok_of_bind {ε α β : Type} {x : Except ε α} {f : α → Except ε β} {b : β}
    (h : (x >>= f) = .ok b) : ∃ a, x = .ok a ∧ f a = .ok b := by
  cases x with
  | error e => cases h
  | ok a => exact ⟨a, rfl, h⟩

theorem exists_ok_of_not_fails {ε α : Type} {x : Except ε α} (h : ¬Fails x) : ∃ a, x = .ok a := by
  cases x with
  | error e => exact absurd ⟨e, rfl⟩ h
  | ok a => exact ⟨a, rfl⟩

theorem fails_liftSetting {α : Type} {x : Except SettingError α} :
    Fails (liftSetting x) ↔ ∃ e, x = .error e := by
  cases x with
  | error e => simp [liftSetting]
  | ok a => simp [liftSetting]

/-! ### Settings -/

theorem fails_definePairs {constants : Constants} {pairs : List Text} :
    (definePairs constants pairs).2.isSome = true ↔
      ∃ pair ∈ pairs, ∃ e, parsePair pair = .error e := by
  induction pairs generalizing constants with
  | nil => simp [definePairs]
  | cons pair rest ih =>
      cases hpair : parsePair pair with
      | error e => simp [definePairs, hpair]
      | ok constant =>
          obtain ⟨name, value⟩ := constant
          simp [definePairs, hpair, ih]

theorem fails_constantsFor {o : SessionOptions} {run : Script.Run} :
    Fails (constantsFor o run) ↔
      (∃ e, run.constants = .error e) ∨ ∃ pair ∈ o.defines, ∃ e, parsePair pair = .error e := by
  rw [constantsFor]
  cases hscript : run.constants with
  | error e => simp
  | ok constants =>
      have hpairs := @fails_definePairs constants o.defines
      rw [← hpairs]
      simp only [reduceCtorEq, exists_false, false_or]
      rcases definePairs constants o.defines with ⟨defined, _ | e⟩ <;> simp

theorem fails_newSession {o : SessionOptions} {run : Script.Run} :
    Fails (newSession o run) ↔
      (∃ e, parseAddress o.base = .error e) ∨
        (∃ e, run.constants = .error e) ∨ ∃ pair ∈ o.defines, ∃ e, parsePair pair = .error e := by
  rw [newSession, fails_bind, fails_liftSetting, ← fails_constantsFor]
  cases hbase : parseAddress o.base with
  | error e => simp
  | ok base =>
      simp [liftSetting, fails_bind, pure, Except.pure]

@[simp] theorem constants_idle (fs : FileSystem) : (Script.Run.idle fs).constants = .ok [] := rfl

theorem runScript_of_ok {host : Host} {o : SessionOptions} {fs : FileSystem} {base : UInt32}
    (hbase : parseAddress o.base = .ok base) :
    host.runScript o fs =
      if o.definesFile = [] then .idle fs else host.engine fs o.definesFile := by
  rw [Host.runScript, hbase]

/-- A script that is run and yields no constants was named. -/
theorem constants_runScript_eq_error_iff {host : Host} {o : SessionOptions} {fs : FileSystem}
    {base : UInt32} {e : Script.DefinesError} (hbase : parseAddress o.base = .ok base) :
    (host.runScript o fs).constants = .error e ↔
      o.definesFile ≠ [] ∧ (host.engine fs o.definesFile).constants = .error e := by
  rw [runScript_of_ok hbase]
  by_cases hfile : o.definesFile = [] <;> simp [hfile]

theorem fails_rebaseAddress {o : BuildOptions} :
    Fails (rebaseAddress o) ↔ o.rebase ≠ [] ∧ ∃ e, parseAddress o.rebase = .error e := by
  rw [rebaseAddress]
  by_cases hempty : o.rebase = []
  · simp [hempty]
  · rw [if_neg hempty]
    cases hbase : parseAddress o.rebase with
    | error e => simp [hempty, liftSetting, Except.map]
    | ok base => simp [liftSetting, Except.map]

theorem rebaseAddress_eq_some_iff {o : BuildOptions} {base : UInt32} :
    rebaseAddress o = .ok (some base) ↔ o.rebase ≠ [] ∧ parseAddress o.rebase = .ok base := by
  rw [rebaseAddress]
  by_cases hempty : o.rebase = []
  · simp [hempty]
  · rw [if_neg hempty]
    cases parseAddress o.rebase with
    | error e => simp [liftSetting, Except.map]
    | ok base => simp [hempty, liftSetting, Except.map]

/-! ### Inputs -/

section Inputs

variable {fs : FileSystem} {start : Session} {address : Option UInt32}

theorem fails_assembleInput {path : Text} :
    Fails (assembleInput fs start address path) ↔
      (∃ fault, (start.load fs path).2 = .error fault) ∨
        ∃ status base error, (start.load fs path).2 = .ok status ∧ address = some base ∧
          (start.load fs path).1.rebase base = .error error := by
  rw [assembleInput]
  rcases start.load fs path with ⟨s, fault | status⟩
  · simp
  · cases address with
    | none => simp
    | some base =>
        cases hmove : s.rebase base with
        | error e => simp [hmove]
        | ok moved => simp [hmove]

theorem fails_assembleAll {inputs : List Text} :
    Fails (assembleAll fs start address inputs) ↔
      ∃ input ∈ inputs, Fails (assembleInput fs start address input) := by
  induction inputs with
  | nil => simp [assembleAll]
  | cons path rest ih =>
      rw [assembleAll, fails_bind]
      cases hpath : assembleInput fs start address path with
      | error e => simp [hpath]
      | ok s => simp [hpath, fails_bind, ih, pure, Except.pure]

/-- The inputs do not see each other. -/
theorem assembleAll_eq_ok_iff {inputs : List Text} {sessions : List (Text × Session)} :
    assembleAll fs start address inputs = .ok sessions ↔
      sessions.map Prod.fst = inputs ∧
        ∀ p ∈ sessions, assembleInput fs start address p.1 = .ok p.2 := by
  induction inputs generalizing sessions with
  | nil =>
      rw [assembleAll, List.map_eq_nil_iff]
      constructor
      · rintro ⟨⟩
        simp
      · rintro ⟨rfl, -⟩
        rfl
  | cons path rest ih =>
      rw [assembleAll]
      constructor
      · intro h
        obtain ⟨s, hs, h⟩ := eq_ok_of_bind h
        obtain ⟨more, hmore, h⟩ := eq_ok_of_bind h
        cases h
        obtain ⟨hinputs, hsessions⟩ := ih.mp hmore
        exact ⟨by rw [List.map_cons, hinputs], List.forall_mem_cons.mpr ⟨hs, hsessions⟩⟩
      · rintro ⟨hinputs, hsessions⟩
        obtain ⟨p, more, rfl, rfl, hrest⟩ := List.map_eq_cons_iff.mp hinputs
        obtain ⟨hp, hmore⟩ := List.forall_mem_cons.mp hsessions
        rw [hp, ih.mpr ⟨hrest, hmore⟩]
        rfl

end Inputs

/-! ### The first stage -/

section Prepare

variable {host : Host} {o : BuildOptions} {inputs : List Text} {fs : FileSystem}
  {run : Script.Run}

theorem clash_iff : o.clash inputs = true ↔ o.output ≠ [] ∧ 1 < inputs.length := by
  simp [BuildOptions.clash]

theorem runBuildScript_of_not_clash (h : o.clash inputs = false) :
    host.runBuildScript o inputs fs = host.runScript o.session fs := by
  rw [Host.runBuildScript, h, if_neg Bool.false_ne_true]

theorem prepareBuild_eq_ok_iff {sessions : List (Text × Session)} :
    prepareBuild o inputs run = .ok sessions ↔
      o.clash inputs = false ∧
        ∃ start address, newSession o.session run = .ok start ∧ rebaseAddress o = .ok address ∧
          assembleAll run.files { start with listed := o.listing } address inputs =
            .ok sessions := by
  rw [prepareBuild]
  cases hclash : o.clash inputs with
  | true =>
      rw [if_pos rfl]
      constructor
      · rintro ⟨⟩
      · rintro ⟨⟨⟩, -⟩
  | false =>
      rw [if_neg Bool.false_ne_true]
      constructor
      · intro h
        obtain ⟨start, hstart, h⟩ := eq_ok_of_bind h
        obtain ⟨address, haddress, h⟩ := eq_ok_of_bind h
        exact ⟨rfl, start, address, hstart, haddress, h⟩
      · rintro ⟨-, start, address, hstart, haddress, h⟩
        rw [hstart]
        simp only [bind, Except.bind, haddress, h]

theorem refused_of_fails (h : Fails (prepareBuild o inputs (host.runBuildScript o inputs fs))) :
    Refused host o inputs fs := by
  rw [prepareBuild] at h
  by_cases hmany : o.clash inputs = true
  · exact .output (clash_iff.mp hmany).1 (clash_iff.mp hmany).2
  have hclash : o.clash inputs = false := Bool.eq_false_iff.mpr hmany
  rw [if_neg hmany] at h
  rcases fails_bind.mp h with hsession | ⟨start, hstart, h⟩
  · cases hbase : parseAddress o.session.base with
    | error e => exact .base e hbase
    | ok base =>
        rcases fails_newSession.mp hsession with ⟨e, herror⟩ | ⟨e, herror⟩ | ⟨pair, hmem, e, hpair⟩
        · cases hbase.symm.trans herror
        · rw [runBuildScript_of_not_clash hclash,
            constants_runScript_eq_error_iff hbase] at herror
          exact .script e herror.1 herror.2
        · exact .pair pair e hmem hpair
  rcases fails_bind.mp h with haddress | ⟨address, haddress, h⟩
  · obtain ⟨hgiven, e, hbase⟩ := fails_rebaseAddress.mp haddress
    exact .address e hgiven hbase
  obtain ⟨input, hinput, h⟩ := fails_assembleAll.mp h
  rcases fails_assembleInput.mp h with ⟨fault, hload⟩ | ⟨status, base, e, hload, rfl, hmove⟩
  · exact .load start input fault hstart hinput hload
  · obtain ⟨hgiven, hbase⟩ := rebaseAddress_eq_some_iff.mp haddress
    exact .move start input status base e hstart hinput hload hgiven hbase hmove

theorem fails_of_refused (h : Refused host o inputs fs) :
    Fails (prepareBuild o inputs (host.runBuildScript o inputs fs)) := by
  -- A success says at once that no stage fails, which no single refusal agrees with.
  apply Classical.byContradiction
  intro hok
  obtain ⟨sessions, hok⟩ := exists_ok_of_not_fails hok
  obtain ⟨hone, start, address, hstart, haddress, hall⟩ := prepareBuild_eq_ok_iff.mp hok
  have hsession : ¬Fails (newSession o.session (host.runBuildScript o inputs fs)) := by
    simp [hstart]
  have hmove : ¬Fails (rebaseAddress o) := by simp [haddress]
  have hinputs : ¬Fails (assembleAll (host.runBuildScript o inputs fs).files
      { start with listed := o.listing } address inputs) := by
    simp [hall]
  rw [fails_newSession] at hsession
  rw [fails_rebaseAddress] at hmove
  rw [fails_assembleAll] at hinputs
  cases h with
  | output houtput hmany =>
      rw [clash_iff.mpr ⟨houtput, hmany⟩] at hone
      cases hone
  | base e hbase => exact hsession (Or.inl ⟨e, hbase⟩)
  | script e hfile hscript =>
      obtain ⟨base, hbase⟩ := exists_ok_of_not_fails fun h => hsession (Or.inl h)
      have herror := (constants_runScript_eq_error_iff hbase).mpr ⟨hfile, hscript⟩
      rw [← runBuildScript_of_not_clash hone] at herror
      exact hsession (Or.inr (Or.inl ⟨e, herror⟩))
  | pair pair e hmem hpair => exact hsession (Or.inr (Or.inr ⟨pair, hmem, e, hpair⟩))
  | address e hgiven hbase => exact hmove ⟨hgiven, e, hbase⟩
  | load start' input fault hstart' hinput hload =>
      cases hstart.symm.trans hstart'
      exact hinputs ⟨input, hinput, fails_assembleInput.mpr (Or.inl ⟨fault, hload⟩)⟩
  | move start' input status base e hstart' hinput hload hgiven hbase hrebase =>
      cases hstart.symm.trans hstart'
      have hsome := rebaseAddress_eq_some_iff.mpr ⟨hgiven, hbase⟩
      cases haddress.symm.trans hsome
      exact hinputs ⟨input, hinput,
        fails_assembleInput.mpr (Or.inr ⟨status, base, e, hload, rfl, hrebase⟩)⟩

/-- The settings and the inputs are refused if and only if one of them is. -/
theorem fails_prepareBuild :
    Fails (prepareBuild o inputs (host.runBuildScript o inputs fs)) ↔ Refused host o inputs fs :=
  ⟨refused_of_fails, fails_of_refused⟩

/-- One input alone is never refused at once. -/
theorem clash_singleton (o : BuildOptions) (input : Text) : o.clash [input] = false := by
  simp [BuildOptions.clash]

/-- An input is prepared as it is when it is the only one. -/
theorem prepareBuild_alone {sessions : List (Text × Session)}
    (h : prepareBuild o inputs run = .ok sessions) :
    sessions.map Prod.fst = inputs ∧ ∀ p ∈ sessions, prepareBuild o [p.1] run = .ok [p] := by
  obtain ⟨-, start, address, hstart, haddress, hall⟩ := prepareBuild_eq_ok_iff.mp h
  obtain ⟨hinputs, hsessions⟩ := assembleAll_eq_ok_iff.mp hall
  refine ⟨hinputs, fun p hp => ?_⟩
  rw [prepareBuild_eq_ok_iff]
  refine ⟨clash_singleton o p.1, start, address, hstart, haddress, ?_⟩
  rw [assembleAll_eq_ok_iff]
  exact ⟨rfl, fun q hq => List.mem_singleton.mp hq ▸ hsessions p hp⟩

end Prepare

/-! ### The second stage -/

/-- The files after the output of one input was written. -/
def writeOutput (o : BuildOptions) (fs : FileSystem) (p : Text × Session) :
    Except FileSystem.FailedWrite FileSystem :=
  if destination o p.1 = standardOutput then .ok fs
  else fs.write (destination o p.1) p.2.bytes.toList

/-- The files after the outputs were written one after the other. -/
def writeOutputs (o : BuildOptions) (fs : FileSystem) (sessions : List (Text × Session)) :
    Except FileSystem.FailedWrite FileSystem :=
  sessions.foldlM (writeOutput o) fs

/-- What a build must be able to print for an input: its dump, or its output if this goes to
the standard output. -/
def printed (o : BuildOptions) (p : Text × Session) : Text :=
  if o.hexdump then hexDump p.2.bytes.toList
  else if destination o p.1 = standardOutput then p.2.bytes.toList else []

/-- It can be printed for an input after all that was sent before. -/
def Delivers (host : Host) (o : BuildOptions) (sent : Text) (p : Text × Session) : Prop :=
  printed o p = [] ∨ host.takes (sent ++ reported o p.2 ++ printed o p) = true

/-- How the second stage can end, from what was there when it began. -/
inductive Ends (host : Host) (o : BuildOptions) (sessions : List (Text × Session))
    (begun out : Outcome) : Prop where
  /-- All the outputs were written, and what had to be printed was. -/
  | complete (hfailure : out.failure = none)
      (hwrite : writeOutputs o begun.files sessions = .ok out.files)
      (hdelivers : ∀ p ∈ sessions, Delivers host o begun.output p)
  /-- An output could not be written. Those in front of it were, none behind it was, and of this
  one the file could not be opened or holds a beginning only. -/
  | unwritten (before : List (Text × Session)) (p : Text × Session)
      (after : List (Text × Session)) (files : FileSystem) (failed : FileSystem.FailedWrite)
      (hsplit : sessions = before ++ p :: after)
      (hbefore : writeOutputs o begun.files before = .ok files)
      (hwrite : writeOutput o files p = .error failed)
      (hfailure : out.failure = some (.writing (destination o p.1) failed.toFailure))
      (hfiles : out.files = failed.files)
      (hleft : (failed.action = .opening ∧ failed.files = files) ∨
        ∃ part, part <+: p.2.bytes.toList ∧ part ≠ p.2.bytes.toList ∧
          files.fill (destination o p.1) part = .ok failed.files)
  /-- An output was written as those in front of it, but the standard output did not take all
  that had to be printed then. -/
  | unprinted (before : List (Text × Session)) (p : Text × Session)
      (after : List (Text × Session)) (files : FileSystem)
      (hsplit : sessions = before ++ p :: after)
      (hbefore : writeOutputs o begun.files before = .ok files)
      (hwrite : writeOutput o files p = .ok out.files)
      (hfailure : out.failure = some .printing) (hprinted : printed o p ≠ [])
      (hfull : host.takes out.output = false)

section Finish

variable {host : Host} {o : BuildOptions} {fs files : FileSystem} {p : Text × Session}
  {sessions : List (Text × Session)} {out : Outcome}

/-- An output that cannot be written has left no more than a beginning. -/
theorem files_of_writeOutput_eq_error {failed : FileSystem.FailedWrite}
    (h : writeOutput o files p = .error failed) :
    (failed.action = .opening ∧ failed.files = files) ∨
      ∃ part, part <+: p.2.bytes.toList ∧ part ≠ p.2.bytes.toList ∧
        files.fill (destination o p.1) part = .ok failed.files := by
  rw [writeOutput] at h
  split at h
  · cases h
  · exact FileSystem.files_of_write_eq_error h

/-- A standard output that takes something takes what is shorter. -/
theorem takes_of_length_le {s t : Text} (h : host.takes t = true) (hlength : s.length ≤ t.length) :
    host.takes s = true := by
  rw [Host.takes] at h ⊢
  cases hroom : host.room with
  | none => rfl
  | some n =>
      rw [hroom] at h
      simp only [Option.all_some, decide_eq_true_eq] at h ⊢
      omega

theorem Delivers.of_length_le {sent more : Text} (h : Delivers host o more p)
    (hlength : sent.length ≤ more.length) : Delivers host o sent p := by
  refine h.imp_right fun htakes => takes_of_length_le htakes ?_
  simpa using hlength

theorem deliver_nil (out : Outcome) (host : Host) : out.deliver host [] = out := by
  rw [Outcome.deliver, Outcome.print, List.append_nil]
  rfl

theorem deliver_cases (out : Outcome) (host : Host) (t : Text) :
    ((t = [] ∨ host.takes (out.output ++ t) = true) ∧ out.deliver host t = out.print t) ∨
      (¬(t = [] ∨ host.takes (out.output ++ t) = true) ∧
        out.deliver host t = (out.print t).fail .printing) := by
  rw [Outcome.deliver, Outcome.print]
  by_cases h : t = [] ∨ host.takes (out.output ++ t) = true
  · exact Or.inl ⟨h, if_pos (by simpa using h)⟩
  · exact Or.inr ⟨h, if_neg (by simpa using h)⟩

/-- An output is written, and then it is printed what must be printed. -/
theorem writeBinary_eq (out : Outcome) :
    writeBinary host (destination o p.1) p.2.bytes.toList o.hexdump out =
      match writeOutput o out.files p with
      | .error failed =>
        { out with files := failed.files }.fail (.writing (destination o p.1) failed.toFailure)
      | .ok files => { out with files }.deliver host (printed o p) := by
  rw [writeBinary, writeOutput, printed]
  by_cases hstandard : destination o p.1 = standardOutput
  · simp only [hstandard, if_true]
  · simp only [hstandard, if_false]
    cases out.files.write (destination o p.1) p.2.bytes.toList with
    | error failed => rfl
    | ok files =>
        cases o.hexdump with
        | true => rfl
        | false => exact (deliver_nil _ host).symm

/-- An output cannot be written, or it is written and what must be printed is printed, or it
is written and this cannot be printed. -/
theorem finishInput_cases (host : Host) (o : BuildOptions) (p : Text × Session)
    (hout : out.failure = none) :
    (∃ failed, writeOutput o out.files p = .error failed ∧
      (finishInput host o p.1 p.2 out).files = failed.files ∧
      (finishInput host o p.1 p.2 out).failure =
        some (.writing (destination o p.1) failed.toFailure)) ∨
    (writeOutput o out.files p = .ok (finishInput host o p.1 p.2 out).files ∧
      Delivers host o out.output p ∧ (finishInput host o p.1 p.2 out).failure = none ∧
      out.output.length ≤ (finishInput host o p.1 p.2 out).output.length) ∨
    (writeOutput o out.files p = .ok (finishInput host o p.1 p.2 out).files ∧
      ¬Delivers host o out.output p ∧
      (finishInput host o p.1 p.2 out).failure = some .printing ∧
      (finishInput host o p.1 p.2 out).output = out.output ++ reported o p.2 ++ printed o p) := by
  have hfiles : (reportSession o p.2 out).files = out.files := rfl
  rw [finishInput, writeBinary_eq, hfiles]
  cases hwrite : writeOutput o out.files p with
  | error failed => exact Or.inl ⟨failed, rfl, rfl, rfl⟩
  | ok files =>
      right
      rcases deliver_cases { reportSession o p.2 out with files } host (printed o p) with
        ⟨h, heq⟩ | ⟨h, heq⟩
      · left
        simp only [heq]
        split
        · exact ⟨rfl, h, hout, by simp [reportSession, Outcome.warn, Outcome.print]⟩
        · refine ⟨rfl, h, hout, ?_⟩
          simp [reportSession, Outcome.warn, Outcome.print]
      · right
        simp only [heq]
        exact ⟨rfl, h, rfl, rfl⟩

theorem finishAll_of_none (h : (finishInput host o p.1 p.2 out).failure = none) :
    finishAll host o (p :: sessions) out =
      finishAll host o sessions (finishInput host o p.1 p.2 out) := by
  simp only [finishAll, h]

theorem finishAll_of_some {e : CommandError}
    (h : (finishInput host o p.1 p.2 out).failure = some e) :
    finishAll host o (p :: sessions) out = finishInput host o p.1 p.2 out := by
  simp only [finishAll, h]

/-- An input that was finished is in front of what comes after. -/
theorem Ends.cons {next last : Outcome} (h : Ends host o sessions next last)
    (hwrite : writeOutput o out.files p = .ok next.files)
    (hdelivers : Delivers host o out.output p) (hlength : out.output.length ≤ next.output.length) :
    Ends host o (p :: sessions) out last := by
  have hcons (rest : List (Text × Session)) :
      writeOutputs o out.files (p :: rest) = writeOutputs o next.files rest := by
    rw [writeOutputs, List.foldlM_cons, hwrite]
    rfl
  cases h with
  | complete hfailure hall hdelivered =>
      refine .complete hfailure ((hcons sessions).trans hall) ?_
      exact List.forall_mem_cons.mpr
        ⟨hdelivers, fun q hq => (hdelivered q hq).of_length_le hlength⟩
  | unwritten before q after files failed hsplit hbefore hfailed hfailure hfiles hleft =>
      exact .unwritten (p :: before) q after files failed (congrArg (List.cons p) hsplit)
        ((hcons before).trans hbefore) hfailed hfailure hfiles hleft
  | unprinted before q after files hsplit hbefore hwritten hfailure hprinted hfull =>
      exact .unprinted (p :: before) q after files (congrArg (List.cons p) hsplit)
        ((hcons before).trans hbefore) hwritten hfailure hprinted hfull

theorem ends_finishAll (host : Host) (o : BuildOptions) (sessions : List (Text × Session))
    (hout : out.failure = none) : Ends host o sessions out (finishAll host o sessions out) := by
  induction sessions generalizing out with
  | nil => exact .complete hout rfl nofun
  | cons p rest ih =>
      rcases finishInput_cases host o p hout with
        ⟨failed, hwrite, hfiles, hfailure⟩ | ⟨hwrite, hdelivers, hnone, hlength⟩ |
          ⟨hwrite, hdelivers, hfailure, houtput⟩
      · rw [finishAll_of_some hfailure]
        exact .unwritten [] p rest out.files failed rfl rfl hwrite hfailure hfiles
          (files_of_writeOutput_eq_error hwrite)
      · rw [finishAll_of_none hnone]
        exact (ih hnone).cons hwrite hdelivers hlength
      · rw [finishAll_of_some hfailure]
        rw [Delivers, ← houtput, not_or] at hdelivers
        exact .unprinted [] p rest out.files rfl rfl hwrite hfailure hdelivers.1
          (Bool.eq_false_iff.mpr hdelivers.2)

/-- The output of a single input is written and printed. -/
theorem finishAll_singleton (hout : out.failure = none)
    (hwrite : writeOutput o out.files p = .ok files) (hdelivers : Delivers host o out.output p) :
    (finishAll host o [p] out).failure = none ∧ (finishAll host o [p] out).files = files := by
  rcases finishInput_cases host o p hout with
    ⟨failed, hfailed, -⟩ | ⟨hok, -, hnone, -⟩ | ⟨-, hnot, -⟩
  · cases hwrite.symm.trans hfailed
  · rw [finishAll_of_none hnone]
    exact ⟨hnone, Except.ok.inj (hok.symm.trans hwrite)⟩
  · exact absurd hdelivers hnot

end Finish

/-! ### Both stages -/

section Run

variable {host : Host} {o : BuildOptions} {inputs : List Text} {fs : FileSystem}

theorem failure_begin (host : Host) (command : Command) (fs : FileSystem) (run : Script.Run) :
    (host.begin command fs run).failure = none := rfl

/-- Without a script, and if nothing is traced, a command begins with nothing done. -/
theorem begin_of_quiet (command : Command) (fs : FileSystem) (htracing : command.tracing = []) :
    host.begin command fs (.idle fs) = { files := fs } := by
  rw [Host.begin, host.trace_of_tracing_eq_nil command fs htracing]
  rfl

theorem runScript_of_no_script {o : SessionOptions} (h : o.definesFile = []) :
    host.runScript o fs = .idle fs := by
  rw [Host.runScript, if_pos h]

theorem runBuildScript_of_no_script (h : o.session.definesFile = []) :
    host.runBuildScript o inputs fs = .idle fs := by
  rw [Host.runBuildScript, runScript_of_no_script h, ite_self]

/-- A build that is refused fails, and that is all it does itself. -/
theorem runBuild_of_refused (h : Refused host o inputs fs) :
    ∃ e, runBuild host o inputs fs =
      (host.begin (.build o inputs) fs (host.runBuildScript o inputs fs)).fail e := by
  obtain ⟨e, hprepare⟩ := fails_prepareBuild.mpr h
  exact ⟨e, by rw [runBuild, hprepare]⟩

theorem runBuild_of_prepareBuild {sessions : List (Text × Session)}
    (h : prepareBuild o inputs (host.runBuildScript o inputs fs) = .ok sessions) :
    runBuild host o inputs fs = finishAll host o sessions
      (host.begin (.build o inputs) fs (host.runBuildScript o inputs fs)) := by
  rw [runBuild, h]

/-- A build without a failure has written and printed all the outputs. -/
theorem writeOutputs_of_runBuild (h : (runBuild host o inputs fs).failure = none) :
    ∃ sessions, prepareBuild o inputs (host.runBuildScript o inputs fs) = .ok sessions ∧
      writeOutputs o (host.runBuildScript o inputs fs).files sessions =
        .ok (runBuild host o inputs fs).files ∧
      ∀ p ∈ sessions, Delivers host o (host.runBuildScript o inputs fs).output p := by
  cases hprepare : prepareBuild o inputs (host.runBuildScript o inputs fs) with
  | error e =>
      rw [runBuild, hprepare] at h
      cases h
  | ok sessions =>
      rw [runBuild_of_prepareBuild hprepare] at h ⊢
      refine ⟨sessions, rfl, ?_⟩
      cases ends_finishAll host o sessions (failure_begin ..) with
      | complete _ hall hdelivers => exact ⟨hall, hdelivers⟩
      | unwritten _ _ _ _ _ _ _ _ hfailure => cases hfailure.symm.trans h
      | unprinted _ _ _ _ _ _ _ hfailure => cases hfailure.symm.trans h

/-- Every setting and every input is looked at before the first output is written. If one is
refused there is a failure, and the standard output, the standard error and the files are as
the script and the tracing library have left them; without a script and without tracing
nothing was written at all. If none is refused, every input has the session that it has when
it is the only one. Then the outputs are written in the order of the inputs: all of them, or
all in front of one that is to blame for the failure. -/
theorem runBuild_refuses_or_writes (host : Host) (o : BuildOptions) (inputs : List Text)
    (fs : FileSystem) :
    let run := host.runBuildScript o inputs fs
    let trace := host.trace (.build o inputs) fs
    let out := runBuild host o inputs fs
    (Refused host o inputs fs →
      out.failure.isSome = true ∧ out.output = run.output ∧
        out.errors = run.errors ++ trace.errors ∧ out.logs = trace.logs ∧
        out.files = run.files ∧
        (o.session.definesFile = [] → o.session.tracing = [] →
          out.output = [] ∧ out.errors = [] ∧ out.logs = [] ∧ out.files = fs)) ∧
    (¬Refused host o inputs fs →
      ∃ sessions, sessions.map Prod.fst = inputs ∧
        (∀ p ∈ sessions, prepareBuild o [p.1] run = .ok [p]) ∧
        Ends host o sessions (host.begin (.build o inputs) fs run) out) := by
  intro run trace out
  constructor
  · intro h
    obtain ⟨e, hrun⟩ := runBuild_of_refused h
    have hout : out = (host.begin (.build o inputs) fs run).fail e := hrun
    rw [hout]
    refine ⟨rfl, rfl, rfl, rfl, rfl, fun hscript htracing => ?_⟩
    have hidle : run = .idle fs := runBuildScript_of_no_script hscript
    rw [hidle, begin_of_quiet (.build o inputs) fs htracing]
    exact ⟨rfl, rfl, rfl, rfl⟩
  · intro h
    rw [← fails_prepareBuild] at h
    obtain ⟨sessions, hprepare⟩ := exists_ok_of_not_fails h
    obtain ⟨hinputs, halone⟩ := prepareBuild_alone hprepare
    have hout : out = finishAll host o sessions (host.begin (.build o inputs) fs run) :=
      runBuild_of_prepareBuild hprepare
    rw [hout]
    exact ⟨sessions, hinputs, halone, ends_finishAll host o sessions (failure_begin ..)⟩

/-- A second input that cannot be loaded keeps the first from being written. A second
output that cannot be written, since a folder has its name, does not. -/
theorem runBuild_refuses_or_writes_folder :
    let fs : FileSystem :=
      { files := [(["a.s"], ".byte 1"), (["b.s"], ".byte 2"), (["c.s"], ".bite 3")]
        folders := [["b.bin"]] }
    Refused .standard {} ["a.s", "c.s"] fs ∧
      (runBuild .standard {} ["a.s", "c.s"] fs).files = fs ∧
      ¬Refused .standard {} ["a.s", "b.s", "a.s"] fs ∧
      (runBuild .standard {} ["a.s", "b.s", "a.s"] fs).files = fs.put ["a.bin"] [1] ∧
      ∃ before p after files failed,
        (before ++ p :: after).map Prod.fst = (["a.s", "b.s", "a.s"] : List Text) ∧
          writeOutputs {} fs before = .ok files ∧ writeOutput {} files p = .error failed ∧
          failed.files = fs.put ["a.bin"] [1] := by
  intro fs
  have hrefused : Refused .standard {} ["a.s", "c.s"] fs := by
    rw [← fails_prepareBuild]
    exact ⟨_, rfl⟩
  have hsound : ¬Refused .standard {} ["a.s", "b.s", "a.s"] fs := by
    rw [← fails_prepareBuild]
    have hok : (prepareBuild {} ["a.s", "b.s", "a.s"] (.idle fs)).isOk = true := by
      decide +kernel
    rintro ⟨e, he⟩
    rw [runBuildScript_of_no_script rfl] at he
    rw [he] at hok
    cases hok
  have hfiles : (runBuild .standard {} ["a.s", "b.s", "a.s"] fs).files =
      fs.put ["a.bin"] [1] := by
    decide +kernel
  refine ⟨hrefused, ((runBuild_refuses_or_writes .standard _ _ fs).1 hrefused).2.2.2.2.1, hsound,
    hfiles, ?_⟩
  obtain ⟨sessions, hinputs, -, hend⟩ := (runBuild_refuses_or_writes .standard _ _ fs).2 hsound
  cases hend with
  | complete hnone =>
      have hfails : (runBuild .standard {} ["a.s", "b.s", "a.s"] fs).failure.isSome = true := by
        decide +kernel
      rw [hnone] at hfails
      cases hfails
  | unwritten before p after files failed hsplit hbefore hwrite _ hleft =>
      exact ⟨before, p, after, files, failed, hsplit ▸ hinputs, hbefore, hwrite,
        hleft.symm.trans hfiles⟩
  | unprinted _ _ _ _ _ _ _ _ _ hfull => cases hfull

/-- A build that is refused need not be silent: a script prints before it turns out that one
of its constants is no integer. -/
theorem not_forall_runBuild_silent :
    ¬∀ (host : Host) (o : BuildOptions) (inputs : List Text) (fs : FileSystem),
      Refused host o inputs fs →
        (runBuild host o inputs fs).output = [] ∧ (runBuild host o inputs fs).errors = [] ∧
          (runBuild host o inputs fs).files = fs := by
  intro h
  let fs : FileSystem :=
    { files := [(["d.lua"], "print(\"hello\")\nHALF = 0.5"), (["a.s"], ".byte 1")] }
  let o : BuildOptions := { session := { definesFile := "d.lua" } }
  have hfails : (prepareBuild o ["a.s"] (Host.standard.runBuildScript o ["a.s"] fs)).isOk =
      false := by
    decide +kernel
  have hrefused : Refused .standard o ["a.s"] fs := by
    rw [← fails_prepareBuild]
    cases hprepare : prepareBuild o ["a.s"] (Host.standard.runBuildScript o ["a.s"] fs) with
    | error e => exact fails_error e
    | ok sessions =>
        rw [hprepare] at hfails
        cases hfails
  have hprinted : (runBuild .standard o ["a.s"] fs).output = ("hello\n" : Text) := by
    decide +kernel
  exact absurd (hprinted.symm.trans (h .standard o ["a.s"] fs hrefused).1) (by decide)

end Run

end FlatAssembler.CommandLine
