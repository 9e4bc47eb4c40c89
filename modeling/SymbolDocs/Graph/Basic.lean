import SymbolDocs.Documentation.Basic
import SymbolDocs.Flags
import SymbolDocs.Value.Basic

/-!
# Symbol graphs

A symbol graph holds the declarations of a package and the types they mention. Its nodes stand in
one table and refer to each other by their `Place` in it, so that a graph with cycles is an ordinary
value. A node owns the nodes in its three lists; its type, its resolved type and the declarations
that extend it may be nodes owned elsewhere.

* `Graph.node` reads the table, with an empty node outside it;
* `Graph.find?` looks an id up, `Graph.findByName?` a name.
-/

namespace SymbolDocs

/-- Where a declaration stands in the sources. -/
structure Source where
  /-- The declaring file, relative to the package root. -/
  name : String
  /-- The offset in the file. -/
  index : Int
  /-- The line, counted from zero, when it is known. -/
  line : Value
  /-- The settings file of the project the file belongs to. -/
  tsconfig : Option String
  /-- Does the file only declare what others implement? -/
  isDeclarationFile : Bool
  deriving Inhabited

/-- The place of a node in the table of its graph. -/
abbrev Place := Nat

/-- A declaration, a type expression, or a part of one. -/
structure Node where
  /-- What the node is. -/
  kind : Kind
  /-- Its id, by which other nodes and summaries refer to it. -/
  id : Option Scalar
  /-- Its modifiers. -/
  flags : Flags
  /-- Its name, empty when it has none. -/
  name : String
  /-- Its initial value. -/
  value : Option String
  /-- Its type, its target, or its heritage clause. -/
  type : Option Place
  /-- Its type parameters or type arguments. -/
  typeParameters : Option (List Place)
  /-- Its parameters, when it is called. -/
  parameters : Option (List Place)
  /-- Its members or parts. -/
  children : Option (List Place)
  /-- What its type comes to. -/
  resolvedType : Option Place
  /-- Its documentation. -/
  docs : Option Documentation
  /-- Where it is declared. -/
  source : List Source
  /-- The declarations that extend it. -/
  extendedBy : Option (List Place)
  /-- The node that owns it, in the tree below a module. -/
  parent : Option Place
  deriving Inhabited

namespace Node

/-- A node of a kind and nothing else. -/
def bare (kind : Kind) : Node :=
  ⟨kind, none, Flags.empty, "", none, none, none, none, none, none, none, [], none, none⟩

/-- Is the modifier set? -/
def has (n : Node) (f : Flag) : Bool :=
  n.flags.has f

/-- Is one of the modifiers set? -/
def hasAny (n : Node) (fs : List Flag) : Bool :=
  n.flags.hasAny fs

/-- The members, none when there is no list. -/
def members (n : Node) : List Place :=
  n.children.getD []

/-- The primary location. -/
def firstSource? (n : Node) : Option Source :=
  n.source.head?

/-- The nodes it owns. -/
def owned (n : Node) : List Place :=
  n.children.getD [] ++ n.parameters.getD [] ++ n.typeParameters.getD []

end Node

/-- A package's declarations and types. -/
structure Graph where
  /-- The table of nodes. -/
  nodes : Array Node
  /-- The modules, in the order of the document. -/
  modules : List Place
  /-- The ids, in the order met. -/
  index : List (Scalar × Place)
  deriving Inhabited

namespace Graph

/-- How many nodes there are. -/
def size (g : Graph) : Nat :=
  g.nodes.size

/-- The node at a place. -/
def node (g : Graph) (p : Place) : Node :=
  g.nodes.getD p (Node.bare .unknown)

/-- The place of an id in an index. -/
def lookup? (id : Scalar) : List (Scalar × Place) → Option Place
  | [] => none
  | (k, p) :: rest => if k.same id then some p else lookup? id rest

/-- The place of an id. -/
def find? (g : Graph) (id : Scalar) : Option Place :=
  lookup? id g.index

/-- The part of a name before the mark that separates a member from its owner. -/
def ownerName (name : String) : String :=
  String.ofList (name.toList.takeWhile (· != '#'))

/-- The first indexed node with a name; of a member's name the owner's part counts. -/
def findByName? (g : Graph) (name : String) : Option Place :=
  (g.index.find? fun e => (g.node e.2).name == ownerName name).map Prod.snd

end Graph

end SymbolDocs
