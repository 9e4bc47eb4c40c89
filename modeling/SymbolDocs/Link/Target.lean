import SymbolDocs.Graph.Basic

/-!
# What a reference leads to

References, re-exports and import types stand for the declaration that their type names. `target`
follows them. A chain that runs into itself ends at the first node met twice, and says so.
-/

namespace SymbolDocs

/-- Does a node of the kind stand for its type? -/
def Kind.isWrapper (k : Kind) : Bool :=
  k == .reference || k == .reExport || k == .importType

namespace Graph

/-- What a wrapper stands for. -/
def wrapped? (g : Graph) (p : Place) : Option Place :=
  let n := g.node p
  if n.kind.isWrapper then n.type else none

/-- Follows wrappers from `p`, having passed `seen`: where the chain ends, and whether it ended by
coming back. A chain passes each node at most once, so the number of nodes bounds it. -/
def follow (g : Graph) : Nat → List Place → Place → Place × Bool
  | 0, _, p => (p, false)
  | fuel + 1, seen, p =>
    match g.wrapped? p with
    | none => (p, false)
    | some q => if p ∈ seen then (p, true) else follow g fuel (p :: seen) q

/-- Where the wrappers from a node lead, and whether they run in a circle. -/
def target (g : Graph) (p : Place) : Place × Bool :=
  g.follow (g.size + 2) [] p

end Graph

end SymbolDocs
