import SymbolDocs.Decimal.Literal
import SymbolDocs.Graph.Basic

/-!
# The order of members

Members are listed by name, the static ones first. The members of an enumeration are shown by value:
those whose value is a finite number in numeric order, then the others by their text, where a member
without a value goes by its name. All orders keep what is equal as it was.

* `Node.precedes` is the order by name;
* `ValueKey` is what members of an enumeration are ordered by.
-/

namespace SymbolDocs

namespace Node

/-- Does the node come before the other, or may it? Static members come first, then names decide. -/
def precedes (a b : Node) : Bool :=
  if a.has .staticMember == b.has .staticMember then decide (a.name ≤ b.name)
  else a.has .staticMember

end Node

/-- What members of an enumeration are ordered by. -/
inductive ValueKey where
  /-- A finite number, in units of the smallest one. -/
  | number (n : Int)
  /-- Text. -/
  | text (s : String)
  deriving DecidableEq

namespace ValueKey

/-- Numbers come before text. -/
def le : ValueKey → ValueKey → Bool
  | .number a, .number b => decide (a ≤ b)
  | .number _, .text _ => true
  | .text _, .number _ => false
  | .text a, .text b => decide (a ≤ b)

/-- The key of a member with a name and a value. -/
def ofMember (name : String) (value : Option String) : ValueKey :=
  let text := Text.strip (value.getD "")
  match (Literal.readDouble? text).bind Double.scaled? with
  | some n => .number n
  | none => .text (if text = "" then name else text)

end ValueKey

/-- The key of a member of an enumeration. -/
def Node.valueKey (n : Node) : ValueKey :=
  .ofMember n.name n.value

namespace Graph

/-- Nodes by name. -/
def sortMembers (g : Graph) (ps : List Place) : List Place :=
  ps.mergeSort fun a b => (g.node a).precedes (g.node b)

/-- Nodes by value. -/
def sortByValue (g : Graph) (ps : List Place) : List Place :=
  ps.mergeSort fun a b => (g.node a).valueKey.le (g.node b).valueKey

end Graph

end SymbolDocs
