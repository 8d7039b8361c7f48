import FlatAssembler.Script.Compile
import FlatAssembler.Script.Engine

/-!
# An engine

The engine that the program comes with. Its language is what constants need: assignments,
arithmetic on doubles, and calls that print or open a file for writing. A script that uses more is
refused.
-/

namespace FlatAssembler.Script

/-- Runs a script on these files. -/
def interpret (fs : FileSystem) (script : Text) : Run :=
  match parse? script with
  | none => { files := fs, result := .error "parse error" }
  | some commands =>
    match compile? commands with
    | none => { files := fs, result := .error "register overflow" }
    | some code =>
      let (m, failure) := code.run fs
      { output := m.output
        files := m.files
        result := match failure with
          | none => .ok m.globals
          | some e => .error e.message }

/-- Reads the script in a file and runs it. -/
def interpreter : Engine := fun fs path =>
  match fs.read path with
  | .error failure => { files := fs, result := .error failure.message }
  | .ok script => interpret fs script

/-- The constants that a script defines when there are no files. -/
def defines (script : Text) : Except DefinesError Constants := (interpret {} script).constants

end FlatAssembler.Script
