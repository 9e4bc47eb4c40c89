import SymbolDocs.Fault
import SymbolDocs.Path
import SymbolDocs.Text.Search

/-!
# File trees

The files a run works on, as a value: a current directory and entries by their full paths. A path is
followed part by part, and everything before its last part has to be a directory. Text files are UTF-8
and end their lines in any of three ways.

* `Files.read` reads the bytes of a file, `Files.readText` its text;
* `Files.makeDirectory` makes a directory with those above it;
* `Files.write` writes a file;
* `Files.written` lists what differs between two trees, `Files.changes` what differs below the current
  directory.
-/

namespace SymbolDocs

/-- What stands at a path. -/
inductive Entry where
  /-- A file. -/
  | file (bytes : ByteArray)
  /-- A directory. -/
  | directory

/-- A file tree. -/
structure Files where
  /-- The current directory. -/
  cwd : Path
  /-- What stands where, by full paths; for one path the first entry counts. -/
  entries : List (Path × Entry)

namespace Files

/-- A tree with nothing but the current directory. -/
def empty (cwd : Path) : Files :=
  ⟨cwd, [(cwd, .directory)]⟩

/-- The full path that a path leads to, double dots removed. -/
def locate (fs : Files) (p : Path) : Path :=
  (fs.cwd.join p).resolve

/-- The file at a full path. -/
def file? (fs : Files) (p : Path) : Option ByteArray :=
  match fs.entries.lookup p with
  | some (.file bytes) => some bytes
  | _ => none

/-- Does a directory stand at a full path? The directories above an entry need none of their own. -/
def isDirectory (fs : Files) (p : Path) : Bool :=
  (fs.file? p).isNone && (p.parts.isEmpty || fs.entries.any fun e =>
    e.1.root == p.root && p.parts.isPrefixOf e.1.parts)

/-- Follows parts from a full path. -/
def walk (fs : Files) : Path → List String → Except ReadFault Path
  | p, [] => .ok p
  | p, part :: rest =>
    if fs.isDirectory p then
      walk fs (if part = ".." then p.parent else ⟨p.root, p.parts ++ [part]⟩) rest
    else if (fs.file? p).isSome then .error .notDirectory
    else .error .missing

/-- The full path that a path leads to, if it can be followed. -/
def follow (fs : Files) (p : Path) : Except ReadFault Path :=
  if p.root = "" then fs.walk fs.cwd p.parts else fs.walk ⟨p.root, []⟩ p.parts

/-- The bytes of a file. -/
def read (fs : Files) (p : Path) : Except ReadFault ByteArray := do
  let q ← fs.follow p
  match fs.file? q with
  | some bytes => return bytes
  | none => .error (if fs.isDirectory q then .directory else .missing)

/-- Is there a file at the path? -/
def isFile (fs : Files) (p : Path) : Bool :=
  match fs.read p with
  | .ok _ => true
  | .error _ => false

/-- Is there anything at the path? -/
def contains (fs : Files) (p : Path) : Bool :=
  match fs.follow p with
  | .ok q => (fs.file? q).isSome || fs.isDirectory q
  | .error _ => false

/-- Bytes as text with regular line ends. -/
def decode (bytes : ByteArray) : Except Fault String :=
  match String.fromUTF8? bytes with
  | some s => .ok (String.ofList (Text.normalizeBreaks s.toList))
  | none => .error .undecodable

/-- The text of a file; `wrap` says what it means that the file cannot be read. -/
def readText (fs : Files) (p : Path) (wrap : ReadFault → Fault) : Except Fault String :=
  match fs.read p with
  | .ok bytes => decode bytes
  | .error cause => .error (wrap cause)

/-- Sets an entry at a full path. -/
def set (fs : Files) (p : Path) (e : Entry) : Files :=
  { fs with entries := (p, e) :: fs.entries.filter fun old => old.1 != p }

/-- Makes a directory at a full path with those above it. A file may stand neither there nor above. -/
def makeDirectory (fs : Files) (p : Path) : Except Fault Files :=
  if (fs.file? p).isSome then .error .pathTaken
  else if (List.range p.parts.length).any fun n => (fs.file? ⟨p.root, p.parts.take n⟩).isSome then
    .error (.refused .notDirectory)
  else if fs.isDirectory p then .ok fs
  else .ok (fs.set p .directory)

/-- Writes a file at a full path. -/
def write (fs : Files) (p : Path) (text : String) : Except Fault Files :=
  if fs.isDirectory p then .error (.refused .directory) else .ok (fs.set p (.file text.toUTF8))

/-- The files that were not there before with the same bytes, at full paths. -/
def written (before after : Files) : List (Path × ByteArray) :=
  after.entries.filterMap fun (p, e) =>
    match e with
    | .file bytes =>
      if (before.file? p).any fun old => old.toList == bytes.toList then none else some (p, bytes)
    | .directory => none

/-- The written files below the current directory, in the order of their paths. -/
def changes (before after : Files) : List (Path × ByteArray) :=
  let below := (written before after).filterMap fun (p, bytes) =>
    (p.relativeTo? after.cwd).map fun q => (q, bytes)
  below.mergeSort fun a b => decide (a.1.text ≤ b.1.text)

end Files

end SymbolDocs
