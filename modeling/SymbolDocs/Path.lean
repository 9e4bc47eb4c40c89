import SymbolDocs.Text.Search

/-!
# File paths

Paths with forward slashes. A path is a root, which is empty, one slash or exactly two, and parts;
empty parts and single dots are dropped when it is read, double dots are kept. The path without root
and parts is written as a single dot.

* `Path.ofString` and `Path.text` read and write;
* `Path.join`, `Path.relativeTo?`, `Path.name`, `Path.suffix` take paths apart and together;
* `Path.resolve` removes double dots.
-/

namespace SymbolDocs

/-- A file path. -/
structure Path where
  /-- The leading slashes that count. -/
  root : String
  /-- The parts between slashes. -/
  parts : List String
  deriving DecidableEq, Inhabited

namespace Path

/-- The root of a path by its number of leading slashes. -/
def rootOf (cs : List Char) : String :=
  let n := (cs.takeWhile (· == '/')).length
  if n = 0 then "" else if n = 2 then "//" else "/"

/-- The parts that count. -/
def partsOf (cs : List Char) : List String :=
  ((Text.splitOn (· == '/') cs).map String.ofList).filter fun p => p != "" && p != "."

/-- Reads a path. -/
def ofString (s : String) : Path :=
  ⟨rootOf s.toList, partsOf s.toList⟩

/-- Writes a path. -/
def text (p : Path) : String :=
  if p.root = "" && p.parts.isEmpty then "." else p.root ++ Text.joinWith "/" p.parts

/-- A path below another; a rooted path stands for itself. -/
def join (a b : Path) : Path :=
  if b.root != "" then b else ⟨a.root, a.parts ++ b.parts⟩

/-- The last part. -/
def name (p : Path) : String :=
  p.parts.getLast?.getD ""

/-- The directory a path stands in. -/
def parent (p : Path) : Path :=
  ⟨p.root, p.parts.dropLast⟩

/-- The extension with its dot; a dot at either end of the name opens none. -/
def suffix (p : Path) : String :=
  let cs := p.name.toList.reverse
  let tail := cs.takeWhile (· != '.')
  if tail.isEmpty || cs.length ≤ tail.length + 1 then "" else "." ++ String.ofList tail.reverse

/-- What follows `base` in a path that starts with it. -/
def relativeTo? (p base : Path) : Option Path :=
  if p.root = base.root && base.parts.isPrefixOf p.parts then
    some ⟨"", p.parts.drop base.parts.length⟩
  else none

/-- Removes each double dot together with the part before it. -/
def resolveParts : List String → List String → List String
  | acc, [] => acc.reverse
  | acc, ".." :: rest => resolveParts acc.tail rest
  | acc, p :: rest => resolveParts (p :: acc) rest

/-- The parts below the current directory that a path without root leads to. -/
def resolve (p : Path) : Path :=
  ⟨p.root, resolveParts [] p.parts⟩

end Path

end SymbolDocs
