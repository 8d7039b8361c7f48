import FlatAssembler.FileSystem
import FlatAssembler.Script.Globals

/-!
# Engines of defines scripts

What a script does is up to the engine that runs it, and a script can do anything: print, write
files, and end with a failure half way. Of all this the commands see what is in a `Run`. An engine
is a parameter of theirs, so nothing that is proved about them depends on the language of scripts.
Only a script that comes to an end has a run: not one that goes on for ever, and not one that ends
the program it was called from.
-/

namespace FlatAssembler.Script

/-- What a script has done when it is over: what it wrote to the standard output and the standard
error, the files as they are then, and the globals, or in the words of the engine why it failed. -/
structure Run where
  output : Text := []
  errors : Text := []
  files : FileSystem
  result : Except Text Globals := .ok []

/-- Runs the script in the file at a path. -/
abbrev Engine := FileSystem → Text → Run

/-- Why a script yields no constants. -/
inductive DefinesError where
  /-- The script could not be read or run, in the words of the engine. -/
  | rejected (words : Text)
  /-- These globals are numbers but not integers, in the order of their bytes. -/
  | nonInteger (names : List Text)
  deriving DecidableEq, Repr

/-- What is wrong, in words. -/
def DefinesError.message : DefinesError → Text
  | .rejected words => words
  | .nonInteger names => Text.concat ["non-integer values for ", Text.joinWith ", " names]

namespace Run

/-- No script was run. -/
def idle (fs : FileSystem) : Run := { files := fs }

/-- The constants that a script defines. -/
def constants (run : Run) : Except DefinesError Constants :=
  match run.result with
  | .error words => .error (.rejected words)
  | .ok globals =>
    match constantsOf globals with
    | .error names => .error (.nonInteger names)
    | .ok constants => .ok constants

end Run

end FlatAssembler.Script
