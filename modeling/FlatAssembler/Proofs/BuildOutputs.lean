import FlatAssembler.Proofs.Build
import FlatAssembler.Proofs.FileWrites

/-!
# The outputs of a build

Without a named output every input is written next to itself, with another ending. An
input that was assembled could be read, so its output has a name in a directory that is
there, and the outputs are writes one after the other to such names
(`writeOutputs_eq_writeAll`).

Several inputs can have one output, as `a.s` and `a.asm` do, or `a.s` and `./a.s`. Then
the last of them is the one that is found there in the end: `read_destination_eq_iff`.
-/

namespace FlatAssembler

namespace Session

theorem read_of_load {s : Session} {fs : FileSystem} {path : Text} {status : Status}
    (hloaded : s.loaded = []) (h : (s.load fs path).2 = .ok status) :
    ∃ content, fs.read path = .ok content := by
  cases hread : fs.read path with
  | ok content => exact ⟨content, rfl⟩
  | error failure =>
      have hnew : Source.isMarked s.loaded path = false := by
        rw [hloaded]
        rfl
      have hrequest : Source.request fs s.loaded path none =
          [.entered (Path.clean path), .unreadable failure none] := by
        rw [Source.request_eq, hnew, hread]
        rfl
      rw [load, hrequest] at h
      cases h

end Session

namespace CommandLine

/-- What a build writes: its outputs with their paths. -/
def outputs (o : BuildOptions) (sessions : List (Text × Session)) : List (Text × Text) :=
  sessions.map fun p => (destination o p.1, p.2.bytes.toList)

/-- What is found after a build of one input where its output goes. -/
def outputOf (host : Host) (o : BuildOptions) (fs : FileSystem) (input : Text) :
    Except FileSystem.Failure Text :=
  (runBuild host o [input] fs).files.read (destination o input)

theorem loaded_newSession {o : SessionOptions} {run : Script.Run} {start : Session}
    (h : newSession o run = .ok start) : start.loaded = [] := by
  obtain ⟨base, -, h⟩ := eq_ok_of_bind h
  obtain ⟨constants, -, h⟩ := eq_ok_of_bind h
  cases h
  rfl

/-- An input that was assembled could be read. -/
theorem read_of_assembleInput {fs : FileSystem} {start s : Session} {address : Option UInt32}
    {path : Text} (h : assembleInput fs start address path = .ok s)
    (hloaded : start.loaded = []) : ∃ content, fs.read path = .ok content := by
  rw [assembleInput] at h
  cases hload : start.load fs path with
  | mk loaded result =>
      cases result with
      | error fault =>
          rw [hload] at h
          cases h
      | ok status => exact Session.read_of_load hloaded (congrArg Prod.snd hload)

section Outputs

variable {host : Host} {o : BuildOptions} {inputs : List Text} {run : Script.Run}
  {fs files : FileSystem} {sessions : List (Text × Session)} (houtput : o.output = [])
include houtput

theorem destination_ne_standardOutput (input : Text) : destination o input ≠ standardOutput := by
  intro heq
  have hlength := congrArg List.length heq
  rw [destination, if_pos houtput, List.length_append] at hlength
  have hending : (Text.ofString ".bin").length = 4 := rfl
  have hstandard : standardOutput.length = 1 := rfl
  omega

theorem writeOutputs_eq_writeAll (fs : FileSystem) (sessions : List (Text × Session)) :
    writeOutputs o fs sessions = fs.writeAll (outputs o sessions) := by
  have hwrite : writeOutput o = fun fs p => fs.write (destination o p.1) p.2.bytes.toList := by
    funext fs p
    rw [writeOutput, if_neg (destination_ne_standardOutput houtput p.1)]
  rw [writeOutputs, FileSystem.writeAll, outputs, List.foldlM_map, hwrite]

variable (hprepare : prepareBuild o inputs run = .ok sessions)
include hprepare

theorem leadsToName_outputs : ∀ w ∈ outputs o sessions, run.files.LeadsToName w.1 := by
  obtain ⟨-, start, address, hstart, -, hall⟩ := prepareBuild_eq_ok_iff.mp hprepare
  rw [outputs, List.forall_mem_map]
  intro p hp
  have hinput := (assembleAll_eq_ok_iff.mp hall).2 p hp
  have hloaded := loaded_newSession hstart
  obtain ⟨content, hread⟩ := read_of_assembleInput hinput hloaded
  rw [destination, if_pos houtput]
  exact FileSystem.exists_leadsTo_of_read hread (by decide) (by decide)

variable (hwrite : writeOutputs o run.files sessions = .ok files) {p : Text × Session}
  (hp : p ∈ sessions)
include hwrite hp

/-- The output of an input is found as the last input with this output has left it. -/
theorem read_of_writeOutputs :
    ∃ last ∈ sessions,
      (inputs.filter fun other =>
        Path.cleanParts (destination o other) = Path.cleanParts (destination o p.1)).getLast? =
          some last.1 ∧
      files.read (destination o p.1) = .ok last.2.bytes.toList := by
  rw [writeOutputs_eq_writeAll houtput] at hwrite
  obtain ⟨w, hlast, hread⟩ := FileSystem.read_of_writeAll
    (leadsToName_outputs houtput hprepare) hwrite (List.mem_map_of_mem hp)
  rw [outputs, List.filter_map, List.getLast?_map, Option.map_eq_some_iff] at hlast
  obtain ⟨last, hlast, rfl⟩ := hlast
  refine ⟨last, (List.mem_filter.mp (List.mem_of_getLast? hlast)).1, ?_, hread⟩
  rw [← (prepareBuild_alone hprepare).1, List.filter_map, List.getLast?_map]
  exact congrArg (Option.map Prod.fst) hlast

/-- The output of an input can also be written without those of the others. -/
theorem writeOutput_of_writeOutputs :
    writeOutput o run.files p =
      .ok (run.files.put (Path.cleanParts (destination o p.1)) p.2.bytes.toList) := by
  rw [writeOutputs_eq_writeAll houtput] at hwrite
  rw [writeOutput, if_neg (destination_ne_standardOutput houtput p.1)]
  exact FileSystem.write_of_writeAll (leadsToName_outputs houtput hprepare) hwrite
    (List.mem_map_of_mem hp)

end Outputs

theorem writeOutputs_singleton (o : BuildOptions) (fs : FileSystem) (p : Text × Session) :
    writeOutputs o fs [p] = writeOutput o fs p := by
  rw [writeOutputs, List.foldlM_cons]
  cases writeOutput o fs p <;> rfl

/-- An input that is built with others can be built alone: the script and the settings are
the same, its output can be written, and what must be printed for it is less. -/
theorem runBuild_alone {host : Host} {o : BuildOptions} {inputs : List Text} {fs : FileSystem}
    {sessions : List (Text × Session)} {files : FileSystem} {p : Text × Session}
    (houtput : o.output = [])
    (hprepare : prepareBuild o inputs (host.runBuildScript o inputs fs) = .ok sessions)
    (hwrite : writeOutputs o (host.runBuildScript o inputs fs).files sessions = .ok files)
    (hdelivers : ∀ p ∈ sessions, Delivers host o (host.runBuildScript o inputs fs).output p)
    (hp : p ∈ sessions) :
    (runBuild host o [p.1] fs).failure = none ∧
      outputOf host o fs p.1 = .ok p.2.bytes.toList := by
  have hscript : host.runBuildScript o [p.1] fs = host.runBuildScript o inputs fs := by
    rw [runBuildScript_of_not_clash (clash_singleton o p.1),
      runBuildScript_of_not_clash (prepareBuild_eq_ok_iff.mp hprepare).1]
  have halone := (prepareBuild_alone hprepare).2 p hp
  have hone := writeOutput_of_writeOutputs houtput hprepare hwrite hp
  rw [← hscript] at halone hone
  obtain ⟨hnone, hfiles⟩ := finishAll_singleton (failure_begin host (.build o [p.1]) fs _) hone
    (hscript.symm ▸ hdelivers p hp)
  rw [← runBuild_of_prepareBuild halone] at hnone hfiles
  rw [← writeOutputs_singleton] at hone
  obtain ⟨last, hmem, -, hread⟩ :=
    read_of_writeOutputs houtput halone hone (List.mem_singleton_self p)
  rw [List.mem_singleton.mp hmem] at hread
  refine ⟨hnone, ?_⟩
  rw [outputOf, hfiles]
  exact hread

/-- After a build without failures the output of an input is what the last input with the
same output yields when it is built alone. So it is what the input itself yields alone
if and only if the two yield the same. -/
theorem read_destination_eq_iff (host : Host) (o : BuildOptions) (inputs : List Text)
    (fs : FileSystem) (houtput : o.output = [])
    (hok : (runBuild host o inputs fs).failure = none) (input : Text) (hinput : input ∈ inputs) :
    (runBuild host o [input] fs).failure = none ∧ ∃ last,
      (inputs.filter fun other =>
        Path.cleanParts (destination o other) = Path.cleanParts (destination o input)).getLast? =
          some last ∧
      (∃ bytes, outputOf host o fs last = .ok bytes ∧
        (runBuild host o inputs fs).files.read (destination o input) = .ok bytes) ∧
      ((runBuild host o inputs fs).files.read (destination o input) = outputOf host o fs input ↔
        outputOf host o fs last = outputOf host o fs input) := by
  obtain ⟨sessions, hprepare, hwrite, hdelivers⟩ := writeOutputs_of_runBuild hok
  rw [← (prepareBuild_alone hprepare).1] at hinput
  obtain ⟨p, hp, rfl⟩ := List.mem_map.mp hinput
  obtain ⟨last, hmem, hlast, hread⟩ := read_of_writeOutputs houtput hprepare hwrite hp
  have halone := (runBuild_alone houtput hprepare hwrite hdelivers hmem).2
  refine ⟨(runBuild_alone houtput hprepare hwrite hdelivers hp).1, last.1, hlast,
    ⟨_, halone, hread⟩, ?_⟩
  rw [hread, halone]

/-- The first and the last of three inputs have one output, which they spell differently. -/
theorem read_destination_eq_iff_respelled :
    let fs : FileSystem :=
      { files := [(["a.s"], ".byte 1"), (["b.s"], ".byte 2"), (["a.asm"], ".byte 3")] }
    let out := runBuild .standard {} ["a.s", "b.s", "./a.asm"] fs
    out.failure = none ∧
      out.files.read "a.bin" = outputOf .standard {} fs "./a.asm" ∧
      out.files.read "b.bin" = outputOf .standard {} fs "b.s" := by
  intro fs out
  have hok : out.failure = none := Option.isNone_iff_eq_none.mp (by decide +kernel)
  obtain ⟨-, last, hlast, ⟨bytes, halone, hread⟩, -⟩ :=
    read_destination_eq_iff .standard {} _ fs rfl hok "a.s" (by decide)
  obtain rfl : "./a.asm" = last := Option.some.inj (Eq.trans (by decide +kernel) hlast)
  obtain ⟨-, other, hother, -, hiff⟩ :=
    read_destination_eq_iff .standard {} _ fs rfl hok "b.s" (by decide)
  obtain rfl : "b.s" = other := Option.some.inj (Eq.trans (by decide +kernel) hother)
  exact ⟨hok, hread.trans halone.symm, hiff.mpr rfl⟩

/-- Two inputs with one output do not both keep it. -/
theorem not_forall_read_destination_eq :
    ¬∀ (host : Host) (o : BuildOptions) (inputs : List Text) (fs : FileSystem), o.output = [] →
      (runBuild host o inputs fs).failure = none → ∀ input ∈ inputs,
        (runBuild host o inputs fs).files.read (destination o input) =
          outputOf host o fs input := by
  intro h
  have hfirst := h .standard {} ["a.s", "a.asm"]
    { files := [(["a.s"], ".byte 1"), (["a.asm"], ".byte 2")] } rfl
    (Option.isNone_iff_eq_none.mp (by decide +kernel)) "a.s" (by decide)
  exact absurd (congrArg Except.toOption hfirst) (by decide +kernel)

end CommandLine

end FlatAssembler
