import SymbolDocs.Graph.Basic

/-!
# Walking a graph

A walk visits nodes depth first, each node once, and lists them in the order of the first visit.
What it follows is a parameter: members only, for pages; every link, for the index of ids.

* `reach` is the walk; it ends because a visited place leaves the list of places still open;
* `Graph.membersFrom` lists a node and its descendants through members;
* `Graph.buildIndex` finds the ids of all nodes linked to the modules;
* `Graph.listing` puts the nodes in the order in which a dump numbers them.
-/

namespace SymbolDocs

/-- The places reached from the stack, in the order of the first visit; only `unvisited` places are
entered. -/
def reach (links : Place → List Place) (unvisited stack : List Place) : List Place :=
  match stack with
  | [] => []
  | p :: rest =>
    if p ∈ unvisited then p :: reach links (unvisited.erase p) (links p ++ rest)
    else reach links unvisited rest
termination_by (unvisited.length, stack.length)
decreasing_by
  · rename_i h
    have := List.length_erase_of_mem h
    have := List.length_pos_of_mem h
    exact Prod.Lex.left _ _ (by omega)
  · exact Prod.Lex.right _ (by simp)

namespace Graph

/-- Every place of the table. -/
def places (g : Graph) : List Place :=
  List.range g.size

/-- A node and its descendants through members, depth first. -/
def membersFrom (g : Graph) (root : Place) : List Place :=
  reach (fun p => (g.node p).members) g.places [root]

/-- What the index of ids follows from a node. -/
def indexLinks (g : Graph) (p : Place) : List Place :=
  let n := g.node p
  n.resolvedType.toList ++ n.type.toList ++ n.typeParameters.getD [] ++ n.parameters.getD [] ++
    n.children.getD []

/-- Adds an id unless the index has it. -/
def addId (g : Graph) (index : List (Scalar × Place)) (p : Place) : List (Scalar × Place) :=
  match (g.node p).id with
  | some id => if (lookup? id index).isSome then index else index ++ [(id, p)]
  | none => index

/-- The ids of all nodes linked to the modules, in the order of the walk. -/
def buildIndex (g : Graph) : List (Scalar × Place) :=
  (reach g.indexLinks g.places g.modules).foldl g.addId []

/-- What a dump follows from a node. -/
def listingLinks (g : Graph) (p : Place) : List Place :=
  let n := g.node p
  n.typeParameters.getD [] ++ n.parameters.getD [] ++ n.children.getD [] ++ n.type.toList ++
    n.resolvedType.toList ++ n.extendedBy.getD []

/-- The nodes in the order of a dump. -/
def listing (g : Graph) : List Place :=
  reach g.listingLinks g.places g.modules

end Graph

end SymbolDocs
