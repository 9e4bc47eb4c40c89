import SymbolDocs.Documentation.Basic
import SymbolDocs.Flags
import SymbolDocs.Value.Basic

/-!
# Summary records

A summary carries declarations in a compact form without cycles. A record is the compact form of one
node; what stands in a type position is one of three things: text, a reference to a declaration by
id, or a record in place.
-/

namespace SymbolDocs

/-- What stands in a type position; `ρ` is the type of records. -/
inductive TypeValue (ρ : Type) where
  /-- A type as its visible text. -/
  | inline (text : String)
  /-- The declaration with this id. -/
  | ref (id : Scalar)
  /-- A type carried in place. -/
  | embedded (record : ρ)
  deriving Inhabited

/-- The compact form of a node. -/
structure Record where
  /-- What the node is. -/
  kind : Kind
  /-- Its id. -/
  id : Option Scalar := none
  /-- Its name. -/
  name : Option String := none
  /-- Its modifiers. -/
  flags : Flags := Flags.empty
  /-- Its initial value; nothing when it has none. -/
  value : Value := .null
  /-- Its documentation. -/
  docs : Option Documentation := none
  /-- The records of its parameters. -/
  parameters : Option (List Record) := none
  /-- The records of its members or parts. -/
  children : Option (List Record) := none
  /-- Its type. -/
  type : Option (TypeValue Record) := none
  /-- The records of its type parameters or arguments. -/
  typeParameters : Option (List Record) := none
  /-- What its type comes to. -/
  resolvedType : Option (TypeValue Record) := none
  /-- The settings file of its project. -/
  tsconfig : Option String := none
  deriving Inhabited

/-- The name, empty when there is none. -/
def Record.nameText (r : Record) : String :=
  r.name.getD ""

end SymbolDocs
