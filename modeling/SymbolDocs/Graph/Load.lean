import SymbolDocs.Documentation.Codec
import SymbolDocs.Decimal.Literal
import SymbolDocs.Graph.Basic

/-!
# Building a graph from a document

A document is a mapping with a list of modules, each a mapping that describes a node and, inside it,
the nodes it owns. Types are either described in place or named by id. The builder walks the
document once, giving each mapping the next place of the table and noting the references by id;
these are filled in when all ids are known.

* `Kind.ofValue`, `Flags.ofValue` read a kind and modifiers by number or name;
* `Builder.buildNode` builds a node and what it owns;
* `Graph.ofValue` is the whole reading.
-/

namespace SymbolDocs

/-- A kind by number or by name. -/
def Kind.ofValue (v : Value) : Except ValueFault Kind :=
  match v with
  | .scalar (.int n) =>
    match Kind.ofCode? n with
    | some k => .ok k
    | none => .error (.invalidKind v)
  | .scalar (.bool b) =>
    match Kind.ofCode? (if b then 1 else 0) with
    | some k => .ok k
    | none => .error (.invalidKind v)
  | v =>
    match Kind.ofName? v.plain with
    | some k => .ok k
    | none => .error (.unknownKind v)

/-- Modifiers by name, added up. -/
def Flags.ofNames (fs : Flags) : List Value → Except ValueFault Flags
  | [] => .ok fs
  | v :: rest =>
    match Flag.ofName? v.plain with
    | some f => Flags.ofNames (fs.insert f) rest
    | none => .error (.unknownFlag v)

/-- Modifiers: nothing, a number, a name, or names in a list. -/
def Flags.ofValue (v : Value) : Except Fault Flags :=
  match v with
  | .scalar .null => .ok Flags.empty
  | .scalar (.int n) => .ok (Flags.ofInt n)
  | .scalar (.bool b) => .ok (Flags.ofInt (if b then 1 else 0))
  | .scalar (.text s) => (Flags.ofNames Flags.empty [.text s]).mapError .value
  | v => do
    let names ← v.items
    (Flags.ofNames Flags.empty names).mapError .value

/-- A whole number given as a number or as text. -/
def Value.integer : Value → Except Fault Int
  | .scalar (.int n) => .ok n
  | .scalar (.bool b) => .ok (if b then 1 else 0)
  | .scalar (.real .nan) => .error (.value .nanToInteger)
  | .scalar (.real d) =>
    match d.truncate? with
    | some n => .ok n
    | none => .error .wrongShape
  | .scalar (.text s) =>
    match Literal.readInt? s with
    | some n => .ok n
    | none => .error (.value (.invalidInteger s))
  | _ => .error .wrongShape

namespace Source

/-- The file a location names, under either of two keys. -/
def nameOf (raw : Value) : Except Fault String :=
  let v := if (raw.field "name").truthy then raw.field "name" else raw.field "fileName"
  match v with
  | .scalar (.text s) => .ok s
  | v => if v.truthy then .error .wrongShape else .ok ""

/-- One location. -/
def ofValue : Value → Except Fault Source
  | .map fields => do
    let raw := Value.map fields
    let name ← nameOf raw
    let index ← ((Fields.get? (.text "index") fields).getD (.int 0)).integer
    let tsconfig ← (raw.field "tsconfig").optionalText
    return ⟨name, index, raw.field "line", tsconfig, (raw.field "isDeclarationFile").truthy⟩
  | _ => .error .notMapping

/-- The locations of a node: none, one, or a list. -/
def allOfValue : Value → Except Fault (List Source)
  | .scalar .null => .ok []
  | .list items => items.mapM ofValue
  | v => do return [← ofValue v]

end Source

/-- An id: any scalar; nothing is no id. -/
def Node.idOfValue : Value → Except Fault (Option Scalar)
  | .scalar .null => .ok none
  | .scalar s => .ok (some s)
  | _ => .error .wrongShape

/-- The attributes of a node that involve no other node. -/
def Node.attributes (raw : Value) (owner : Option Place) : Except Fault Node := do
  let kind ← (Kind.ofValue (((match raw with
    | .map fields => Fields.get? (.text "kind") fields
    | _ => none).getD (.int 0)))).mapError fun e => .load (.invalid e)
  let flags ←
    match Flags.ofValue (raw.field "flags") with
    | .error (.value e) => .error (.load (.invalid e))
    | r => r
  let name := if (raw.field "name").truthy then (raw.field "name").plain else ""
  let value := if (raw.field "value").isNull then none else some (raw.field "value").plain
  let docs ←
    if (raw.field "docs").isNull then pure none
    else (Documentation.ofValue (raw.field "docs")).map some
  let source ← Source.allOfValue (raw.field "source")
  return { Node.bare kind with flags, name, value, docs, source, parent := owner }

/-- The two places of a node that a reference by id can fill. -/
inductive LinkSlot where
  /-- The type. -/
  | type
  /-- The resolved type. -/
  | resolvedType
  deriving DecidableEq

/-- The keys under which the slots stand in a document. -/
def LinkSlot.key : LinkSlot → String
  | .type => "type"
  | .resolvedType => "resolvedType"

/-- A node with a slot filled. -/
def Node.fill (n : Node) (slot : LinkSlot) (p : Place) : Node :=
  match slot with
  | .type => { n with type := some p }
  | .resolvedType => { n with resolvedType := some p }

/-- The three lists of nodes a node can own. -/
inductive OwnedList where
  /-- Members or parts. -/
  | children
  /-- Parameters. -/
  | parameters
  /-- Type parameters or arguments. -/
  | typeParameters
  deriving DecidableEq

/-- The keys under which the lists stand in a document. -/
def OwnedList.key : OwnedList → String
  | .children => "children"
  | .parameters => "parameters"
  | .typeParameters => "typeParameters"

/-- A node with a list set. -/
def Node.own (n : Node) (list : OwnedList) (ps : List Place) : Node :=
  match list with
  | .children => { n with children := some ps }
  | .parameters => { n with parameters := some ps }
  | .typeParameters => { n with typeParameters := some ps }

/-- What the builder has done so far. -/
structure Builder where
  /-- The nodes built. -/
  nodes : Array Node
  /-- The ids met. -/
  index : List (Scalar × Place)
  /-- References by id still to be filled in, in the order met. -/
  pending : List (Place × LinkSlot × Scalar)
  /-- Lists of extending declarations still to be read, in the order met. -/
  extensions : List (Place × Value)
  deriving Inhabited

/-- The work of building a graph. -/
abbrev Building := StateT Builder (Except Fault)

namespace Builder

/-- Adds a node and answers its place. -/
def add (n : Node) : Building Place := do
  let b ← get
  set { b with nodes := b.nodes.push n }
  return b.nodes.size

/-- Changes a node. -/
def change (p : Place) (f : Node → Node) : Building Unit :=
  modify fun b => { b with nodes := b.nodes.modify p f }

/-- Gives a node its id, which no node before it may have. -/
def register (p : Place) : Option Scalar → Building Unit
  | none => pure ()
  | some id => do
    let b ← get
    if (Graph.lookup? id b.index).isSome then throw (.load (.duplicateId id))
    set { b with index := b.index ++ [(id, p)] }
    change p fun n => { n with id := some id }

/-- Notes a reference by id. -/
def refer (p : Place) (slot : LinkSlot) (id : Scalar) : Building Unit :=
  modify fun b => { b with pending := b.pending ++ [(p, slot, id)] }

/-- Notes a list of extending declarations. -/
def extend (p : Place) (items : Value) : Building Unit :=
  modify fun b => { b with extensions := b.extensions ++ [(p, items)] }

/-- The answer to a list of nodes given as something else than a list: text and mappings are walked
through and hold no nodes. -/
def notNodes : Value → Building (List Place)
  | .scalar (.text s) => if s = "" then pure [] else throw (.load (.notNode "str"))
  | .map [] => pure []
  | .map ((k, _) :: _) => throw (.load (.notNode k.kindWord))
  | _ => throw .wrongShape

mutual

/-- Builds the node a value describes and everything it owns. `inTree` says whether the node stands
in the tree below a module, where owned nodes know their owner. -/
def buildNode (inTree : Bool) (owner : Option Place) (raw : Value) : Building Place :=
  match raw with
  | .map fields => do
    let n ← (Node.attributes (.map fields) owner : Except Fault Node)
    let id ← (Node.idOfValue ((Value.map fields).field "id") : Except Fault (Option Scalar))
    let p ← add n
    register p id
    buildOwned inTree p .children fields
    buildOwned inTree p .parameters fields
    buildOwned inTree p .typeParameters fields
    buildLinked p .type fields
    buildLinked p .resolvedType fields
    match Fields.get? (.text "extendedBy") fields with
    | some items => if items.isNull then pure () else extend p items
    | none => pure ()
    return p
  | v => throw (.load (.notNode v.kindWord))
termination_by (sizeOf raw, 0)
decreasing_by all_goals simp_wf; omega

/-- Builds one of the lists of owned nodes. -/
def buildOwned (inTree : Bool) (p : Place) (list : OwnedList) (fields : Fields) : Building Unit :=
  match Fields.part? (.text list.key) fields with
  | none => pure ()
  | some ⟨.scalar s, _⟩ =>
    match s with
    | .null => pure ()
    | s => do
      let ps ← notNodes (.scalar s)
      change p fun n => n.own list ps
  | some ⟨.list items, _h⟩ => do
    let ps ← buildNodes inTree (if inTree then some p else none) items
    change p fun n => n.own list ps
  | some ⟨.map inner, _⟩ => do
    let ps ← notNodes (.map inner)
    change p fun n => n.own list ps
termination_by (sizeOf fields, 1)
decreasing_by
  simp at _h ⊢
  omega

/-- Builds nodes one after the other. -/
def buildNodes (inTree : Bool) (owner : Option Place) (raws : List Value) : Building (List Place) :=
  match raws with
  | [] => pure []
  | raw :: rest => do
    let p ← buildNode inTree owner raw
    let ps ← buildNodes inTree owner rest
    return p :: ps
termination_by (sizeOf raws, 1)
decreasing_by all_goals simp_wf; omega

/-- Builds the type in a slot, or notes the id that stands there. -/
def buildLinked (p : Place) (slot : LinkSlot) (fields : Fields) : Building Unit :=
  match Fields.part? (.text slot.key) fields with
  | none => pure ()
  | some ⟨.scalar s, _⟩ =>
    match s with
    | .null => pure ()
    | .int n => refer p slot (.int n)
    | .bool b => refer p slot (.bool b)
    | s => throw (.load (.notNode s.kindWord))
  | some ⟨.list items, _⟩ => throw (.load (.notNode (Value.list items).kindWord))
  | some ⟨.map inner, h⟩ => do
    let target ← buildNode false none (.map inner)
    change p fun n => n.fill slot target
termination_by (sizeOf fields, 1)
decreasing_by
  exact Prod.Lex.left _ _ h

end

/-- An extending declaration: the id of one, or the place of one built in the list. -/
abbrev Extension := Scalar ⊕ Place

/-- Reads a list of extending declarations, building those described in place. -/
def extensionItems : List Value → Building (List Extension)
  | [] => pure []
  | .scalar (.int n) :: rest => return .inl (.int n) :: (← extensionItems rest)
  | .scalar (.bool b) :: rest => return .inl (.bool b) :: (← extensionItems rest)
  | raw :: rest => do
    let p ← buildNode false none raw
    return .inr p :: (← extensionItems rest)

/-- Reads the noted lists in order; building may note further ones behind them. Every list read is
another part of the document, so its number of parts bounds how many there are. -/
def readExtensions : Nat → Building (List (Place × List Extension))
  | 0 => pure []
  | fuel + 1 => do
    let b ← get
    match b.extensions with
    | [] => pure []
    | (p, items) :: rest =>
      set { b with extensions := rest }
      let values ← (items.items : Except Fault (List Value))
      let read ← extensionItems values
      return (p, read) :: (← readExtensions fuel)

/-- The place of an id that a node refers to. -/
def lookup (id : Scalar) (owner : Place) : Building Place := do
  let b ← get
  match Graph.lookup? id b.index with
  | some p => pure p
  | none => throw (.load (.unknownId (b.nodes.getD owner (Node.bare .unknown)).name id))

/-- Fills in the references by id. -/
def fillPending : List (Place × LinkSlot × Scalar) → Building Unit
  | [] => pure ()
  | (p, slot, id) :: rest => do
    let target ← lookup id p
    change p fun n => n.fill slot target
    fillPending rest

/-- The places of extending declarations. -/
def extensionPlaces (owner : Place) : List Extension → Building (List Place)
  | [] => pure []
  | .inl id :: rest => do
    let p ← lookup id owner
    return p :: (← extensionPlaces owner rest)
  | .inr p :: rest => return p :: (← extensionPlaces owner rest)

/-- Fills in the lists of extending declarations. -/
def fillExtensions : List (Place × List Extension) → Building Unit
  | [] => pure ()
  | (p, items) :: rest => do
    let ps ← extensionPlaces p items
    change p fun n => { n with extendedBy := some ps }
    fillExtensions rest

end Builder

mutual

/-- The number of parts of a value, itself included. -/
def Value.parts : Value → Nat
  | .scalar _ => 1
  | .list items => 1 + Value.partsOfItems items
  | .map fields => 1 + Value.partsOfFields fields

/-- The number of parts of the items. -/
def Value.partsOfItems : List Value → Nat
  | [] => 0
  | x :: xs => Value.parts x + Value.partsOfItems xs

/-- The number of parts of the fields. -/
def Value.partsOfFields : List (Scalar × Value) → Nat
  | [] => 0
  | (_, v) :: rest => Value.parts v + Value.partsOfFields rest

end

namespace Graph

/-- Builds the modules, then reads the lists of extending declarations, then fills in references. -/
def assemble (doc : Value) (modules : List Value) : Building (List Place) := do
  let places ← Builder.buildNodes true none modules
  let extensions ← Builder.readExtensions (doc.parts + 1)
  let b ← get
  Builder.fillPending b.pending
  Builder.fillExtensions extensions
  return places

/-- The graph a document describes. -/
def ofValue (doc : Value) : Except Fault Graph :=
  match doc.field "modules" with
  | .list modules =>
    match (assemble doc modules).run ⟨#[], [], [], []⟩ with
    | .ok (places, b) => .ok ⟨b.nodes, places, b.index⟩
    | .error e => .error e
  | _ => .error (.load .noModules)

end Graph

end SymbolDocs
