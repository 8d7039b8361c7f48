import FlatAssembler.CommandLine.Run

/-!
# The program

Runs a command on the files below the working directory. The command itself is a function from a
file system to an outcome, so the program first gathers the files that the command can reach: the
inputs, the script, and whatever these include. Files at absolute paths or above the working
directory are not among them, see `FileSystem`. Then it writes the files that the outcome has
changed, and prints.
-/

namespace FlatAssembler

namespace Program

/-- A text as the system's functions take it. -/
def toSystem (t : Text) : String := String.ofList t.chars

/-- The paths that a command reads or writes by name. -/
def namedPaths : CommandLine.Command → List Text
  | .build o inputs =>
    o.session.definesFile :: inputs ++ inputs.map (CommandLine.destination o)
  | .symbols o _ input => [o.definesFile, input]
  | .version | .nothing => []

/-- The directories on the way to a path, and the path itself. -/
def stages (path : Text) : List Text :=
  let parts := Path.parts path
  (List.range parts.length).map fun n => Path.ofParts (parts.take (n + 1))

/-- Whether there is a directory at a path. -/
def isDirectory (path : Text) : IO Bool := do
  let here ← IO.currentDir
  (here / toSystem path).isDir

/-- Adds the directories on the way to a path to the file system. -/
def addFolders (fs : FileSystem) (path : Text) : IO FileSystem :=
  (stages path).foldlM
    (fun fs stage => do
      if ← isDirectory stage then
        return { fs with folders := Path.cleanParts stage :: fs.folders }
      else return fs)
    fs

/-- The content of a file, if it can be read. -/
def content? (path : Text) : IO (Option Text) := do
  try
    let bytes ← IO.FS.readBinFile (toSystem path)
    return some bytes.toList
  catch _ => return none

/-- Adds the files at the paths to the file system, and the files that they include. A path that
leads out of the working directory adds nothing that could be read. -/
partial def gather (fs : FileSystem) : List Text → IO FileSystem
  | [] => return fs
  | path :: rest => do
    let loc := Path.cleanParts path
    if Path.isAbsolute path || path.isEmpty || fs.isFile loc then gather fs rest
    else
      let fs ← addFolders fs path
      match ← content? path with
      | none => gather fs rest
      | some content =>
        gather (fs.put loc content) (Source.includedPaths path content ++ rest)

/-- Writes the files that have changed. -/
def store (before after : FileSystem) : IO Unit := do
  for (loc, content) in before.changesSince after do
    IO.FS.writeBinFile (toSystem (Path.ofParts loc)) content.toByteArray
  for (path, content) in after.elsewhere do
    IO.FS.writeBinFile (toSystem path) content.toByteArray

/-- Runs the command that the arguments ask for. -/
def run (arguments : List Text) : IO CommandLine.Outcome := do
  let host : CommandLine.Host := .standard
  match CommandLine.Command.parse host.refusal arguments with
  | .error e => return { files := {}, failure := some (.usage e) }
  | .ok command =>
    let fs ← gather {} (namedPaths command)
    let outcome := command.run host fs
    store fs outcome.files
    return outcome

end Program

end FlatAssembler

open FlatAssembler in
def main (arguments : List String) : IO UInt32 := do
  let outcome ← Program.run (arguments.map Text.ofString)
  (← IO.getStdout).write outcome.output.toByteArray
  (← IO.getStderr).write outcome.diagnostics.toByteArray
  return UInt32.ofNat outcome.exitCode
