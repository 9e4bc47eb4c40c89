import SymbolDocs.Command.Run

/-!
# The command

The command reads the files that a run asks for, runs, and writes what the run leaves behind. Which
files are asked for depends on the settings, which are a file themselves, so it asks more than once.

* `stage` reads the files asked for;
* `main` is the command.
-/

namespace SymbolDocs

/-- What stands at a full path, if anything does. -/
def entryAt (p : Path) : IO (Option Entry) := do
  match ← (IO.FS.readBinFile p.text).toBaseIO with
  | .ok bytes => return some (.file bytes)
  | .error (.noFileOrDirectory _ _ _) => return none
  | .error _ => return some .directory

/-- Adds what stands at the paths. -/
def stage (fs : Files) (paths : List Path) : IO Files :=
  paths.foldlM (fun fs p => do
    match ← entryAt (fs.locate p) with
    | some e => return fs.set (fs.locate p) e
    | none => return fs) fs

/-- The tree with everything a run asks for: the settings first, then the files they name. -/
def stageAll (argv : List String) : IO Files := do
  let cwd ← IO.currentDir
  let fs := Files.empty (Path.ofString cwd.toString)
  let fs ← stage fs (Command.wanted fs argv)
  stage fs (Command.wanted fs argv)

/-- Writes a file and the directories above it. -/
def store (p : Path) (bytes : ByteArray) : IO Unit := do
  IO.FS.createDirAll p.parent.text
  IO.FS.writeBinFile p.text bytes

end SymbolDocs

open SymbolDocs in
/-- Runs the command in the current directory. -/
def main (argv : List String) : IO UInt32 := do
  let before ← stageAll argv
  let result := Command.run before argv
  (Files.written before result.files).forM fun (p, bytes) => store p bytes
  IO.print result.printed
  result.warnings.forM fun w => IO.eprintln ("WARNING " ++ w.message)
  match result.ending.message? with
  | some message => IO.eprintln message
  | none => pure ()
  return (result.ending.status?.getD 1).toUInt32
