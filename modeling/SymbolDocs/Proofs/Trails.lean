import Mathlib
import SymbolDocs.Graph.Load

/-!
# What a document describes

A document describes nodes inside nodes: in the three owned lists, in the two places for types, and
among the extending declarations. A `Trail` leads to one of them, in the document and in the graph that
is built from it.

* `Value.nodeAt?` is what the document has at a trail, `Graph.placeAt?` where the graph has it;
* `Value.Documented` says that the fields of every node are of the kinds they are meant to be, whatever
  is in them;
* `Value.Refused` lists what makes a document one that no graph can be built from;
* `Graph.Reflects` says that a graph is what the document describes.
-/

namespace SymbolDocs

/-! ## Trails -/

/-- A step from a node to one that is described inside it. -/
inductive Trail.Step where
  /-- To an entry of a list of owned nodes. -/
  | owned (list : OwnedList) (i : Nat)
  /-- To a type. -/
  | linked (slot : LinkSlot)
  /-- To an extending declaration. -/
  | extension (i : Nat)

/-- The way to a node of a document. -/
inductive Trail where
  /-- One of the modules. -/
  | module (i : Nat)
  /-- A node described inside another one. -/
  | step (owner : Trail) (s : Trail.Step)

namespace Value

/-- A mapping. -/
def isMapping : Value → Bool
  | .map _ => true
  | _ => false

/-- A list. -/
def isList : Value → Bool
  | .list _ => true
  | _ => false

/-- Text. -/
def isText : Value → Bool
  | .scalar (.text _) => true
  | _ => false

/-- The id that a value stands for in a place for a node: an integer is no node but names one. -/
def reference? : Value → Option Scalar
  | .scalar s => if s.int?.isSome then some s else none
  | _ => none

/-- The entries of a list. -/
def entries (v : Value) : List Value :=
  match v.items with
  | .ok items => items
  | .error _ => []

end Value

/-- The node that a step leads to, when it is described there and not only named. -/
def Trail.Step.described? : Trail.Step → Value → Option Value
  | .owned list i, raw => (raw.field list.key).entries[i]?
  | .linked slot, raw =>
    if (raw.field slot.key).isNull || (raw.field slot.key).reference?.isSome then none
    else some (raw.field slot.key)
  | .extension i, raw =>
    (raw.field "extendedBy").entries[i]?.bind fun v => if v.reference?.isSome then none else some v

/-- What a document has at a trail. -/
def Value.nodeAt? (doc : Value) : Trail → Option Value
  | .module i => (doc.field "modules").entries[i]?
  | .step owner s => (doc.nodeAt? owner).bind s.described?

namespace Node

/-- One of the lists of owned nodes. -/
def list (n : Node) : OwnedList → Option (List Place)
  | .children => n.children
  | .parameters => n.parameters
  | .typeParameters => n.typeParameters

/-- One of the two types. -/
def slot (n : Node) : LinkSlot → Option Place
  | .type => n.type
  | .resolvedType => n.resolvedType

/-- A node with nothing but the attributes that involve no other node, and its owner. -/
def plain (n : Node) : Node :=
  { Node.bare n.kind with
    flags := n.flags, name := n.name, value := n.value, docs := n.docs, source := n.source
    parent := n.parent }

end Node

/-- Where a step leads in a graph. -/
def Trail.Step.place? : Trail.Step → Node → Option Place
  | .owned list i, n => ((n.list list).getD [])[i]?
  | .linked slot, n => n.slot slot
  | .extension i, n => (n.extendedBy.getD [])[i]?

/-- Where a graph has the node at a trail. -/
def Graph.placeAt? (g : Graph) : Trail → Option Place
  | .module i => g.modules[i]?
  | .step owner s => (g.placeAt? owner).bind fun p => s.place? (g.node p)

namespace Trail

/-- Does the trail lead through owned lists only? -/
def inTree : Trail → Bool
  | .module _ => true
  | .step owner (.owned _ _) => owner.inTree
  | .step _ _ => false

/-- The trail to the owner, for a node in the tree below a module. -/
def owner? : Trail → Option Trail
  | .step owner (.owned _ _) => if owner.inTree then some owner else none
  | _ => none

end Trail

/-! ## What can be expected of a document -/

namespace Value

/-- The id of a node. -/
def id? (raw : Value) : Option Scalar :=
  match raw.field "id" with
  | .scalar .null => none
  | .scalar s => some s
  | _ => none

/-- What is given as the kind of a node; zero when nothing is. -/
def kindField : Value → Value
  | .map fields => (Fields.get? (.text "kind") fields).getD (.int 0)
  | _ => .int 0

/-- The kind with a number or a name. -/
def kind? (v : Value) : Option Kind :=
  match v with
  | .scalar s =>
    match s.int? with
    | some n => Kind.ofCode? n
    | none => Kind.ofName? s.plain
  | v => Kind.ofName? v.plain

/-- The names among what is given as modifiers. -/
def flagNames (v : Value) : List Value :=
  match v with
  | .scalar (.text s) => [.text s]
  | .list names => names
  | _ => []

/-- The ids that a node names as its type, its resolved type and its extending declarations. -/
def references (raw : Value) : List Scalar :=
  (raw.field "type" :: raw.field "resolvedType" :: (raw.field "extendedBy").entries).filterMap reference?

/-- Nothing, or something of a kind. -/
def isOptional (test : Value → Bool) (v : Value) : Bool :=
  v.isNull || test v

/-- The value at a key, which may be absent. -/
def hasField (key : String) (test : Value → Bool) (fields : Fields) : Bool :=
  match Fields.get? (.text key) fields with
  | none => true
  | some v => test v

/-- A span of documentation: text, or a mapping with text and a tag. -/
def isSpan : Value → Bool
  | .scalar (.text _) => true
  | .map fields =>
    hasField "value" isText fields && ((Value.map fields).field "tag").isOptional isText
  | _ => false

/-- An item of documentation: text, or a mapping with text or spans and a tag. -/
def isDocItem : Value → Bool
  | .scalar (.text _) => true
  | .map fields =>
    hasField "value" (fun v => v.isText || v.isList && v.entries.all isSpan) fields &&
      ((Value.map fields).field "tag").isOptional isText
  | _ => false

/-- Documentation: text, or a mapping with items. -/
def isDocumentation : Value → Bool
  | .scalar (.text _) => true
  | .map fields =>
    ((Value.map fields).field "content").isOptional (fun v => v.isList && v.entries.all isDocItem) &&
      ((Value.map fields).field "tagName").isOptional isText &&
      ((Value.map fields).field "role").isOptional isText
  | _ => false

/-- A location: a mapping with a file, an offset and a settings file. -/
def isLocation : Value → Bool
  | .map fields =>
    ((Value.map fields).field "name").isOptional isText &&
      ((Value.map fields).field "fileName").isOptional isText &&
      hasField "index" (fun v => v.reference?.isSome) fields &&
      ((Value.map fields).field "tsconfig").isOptional isText
  | _ => false

/-- The fields of a node are of the documented kinds. Kind, name and value can be anything, and so can
what stands in a place for a node. -/
structure NodeFields (raw : Value) : Prop where
  id : (raw.field "id").isOptional (fun v => v.reference?.isSome) = true
  flags : (raw.field "flags").isOptional (fun v => v.reference?.isSome || v.isText || v.isList) = true
  owned : ∀ list : OwnedList, (raw.field list.key).isOptional isList = true
  extendedBy : (raw.field "extendedBy").isOptional isList = true
  docs : (raw.field "docs").isOptional isDocumentation = true
  source : (raw.field "source").isOptional
    (fun v => v.isLocation || v.isList && v.entries.all isLocation) = true

/-- The fields of all nodes of the document are of the documented kinds. -/
def Documented (doc : Value) : Prop :=
  ∀ t raw, doc.nodeAt? t = some raw → raw.NodeFields

/-- No graph can be built from the document. -/
inductive Refused (doc : Value) : Prop
  /-- There is no list of modules. -/
  | noModules (h : (doc.field "modules").isList = false)
  /-- A node is no mapping. -/
  | notMapping {t : Trail} {raw : Value} (ht : doc.nodeAt? t = some raw) (h : raw.isMapping = false)
  /-- A node is of an unknown kind. -/
  | unknownKind {t : Trail} {raw : Value} (ht : doc.nodeAt? t = some raw) (h : raw.kindField.kind? = none)
  /-- A modifier of a node has an unknown name. -/
  | unknownFlag {t : Trail} {raw name : Value} (ht : doc.nodeAt? t = some raw)
    (hname : name ∈ (raw.field "flags").flagNames) (h : Flag.ofName? name.plain = none)
  /-- Two nodes have the same id. -/
  | sharedId {t t' : Trail} {raw raw' : Value} {id id' : Scalar} (ht : doc.nodeAt? t = some raw)
    (ht' : doc.nodeAt? t' = some raw') (hne : t ≠ t') (hid : raw.id? = some id)
    (hid' : raw'.id? = some id') (h : id.same id' = true)
  /-- A node names an id that no node has. -/
  | unknownId {t : Trail} {raw : Value} {r : Scalar} (ht : doc.nodeAt? t = some raw)
    (hr : r ∈ raw.references)
    (h : ∀ t' raw' id, doc.nodeAt? t' = some raw' → raw'.id? = some id → id.same r = false)

end Value

/-! ## What a graph has of a document -/

/-- The node is built from the description, a mapping: its attributes and its id are as they are given,
and it has a list, with the same number of entries, or a type, where one is given. -/
structure Node.BuiltFrom (n : Node) (raw : Value) : Prop where
  mapping : raw.isMapping = true
  attributes : Node.attributes raw n.parent = .ok n.plain
  id : n.id = raw.id?
  lists : ∀ l : OwnedList, (n.list l).map List.length =
    if (raw.field l.key).isNull then none else some (raw.field l.key).entries.length
  slots : ∀ s : LinkSlot, (n.slot s).isNone = (raw.field s.key).isNull
  extendedBy : n.extendedBy.map List.length =
    if (raw.field "extendedBy").isNull then none else some (raw.field "extendedBy").entries.length

/-- The graph is what the document describes. -/
structure Graph.Reflects (g : Graph) (doc : Value) : Prop where
  /-- Every node of the document is found in the graph by the same trail. -/
  built : ∀ {t raw}, doc.nodeAt? t = some raw → ∃ p < g.size, g.placeAt? t = some p ∧
    (g.node p).BuiltFrom raw
  /-- There are no other nodes in the graph. -/
  described : ∀ p < g.size, ∃ t raw, doc.nodeAt? t = some raw ∧ g.placeAt? t = some p
  /-- Two nodes of the document are two in the graph. -/
  apart : ∀ {t t' raw raw'}, doc.nodeAt? t = some raw → doc.nodeAt? t' = some raw' →
    g.placeAt? t = g.placeAt? t' → t = t'
  /-- No entry of the index is there twice. -/
  nodup : g.index.Nodup
  /-- The index has the ids of the nodes of the document, and nothing else. -/
  index : ∀ {id p}, (id, p) ∈ g.index ↔ ∃ t raw, doc.nodeAt? t = some raw ∧ raw.id? = some id ∧
    g.placeAt? t = some p
  /-- An id is found where a node of the document has it. -/
  found : ∀ {id p}, g.find? id = some p ↔ ∃ t raw id', doc.nodeAt? t = some raw ∧ raw.id? = some id' ∧
    id'.same id = true ∧ g.placeAt? t = some p
  /-- A type given by an id is the node with that id. -/
  linked : ∀ {t raw p r} (slot : LinkSlot), doc.nodeAt? t = some raw → g.placeAt? t = some p →
    (raw.field slot.key).reference? = some r → ∃ q, g.find? r = some q ∧ (g.node p).slot slot = some q
  /-- An extending declaration given by an id is the node with that id. -/
  extensions : ∀ {t raw p r} {i : Nat} {v : Value}, doc.nodeAt? t = some raw → g.placeAt? t = some p →
    (raw.field "extendedBy").entries[i]? = some v → v.reference? = some r →
    ∃ q, g.find? r = some q ∧ ((g.node p).extendedBy.getD [])[i]? = some q
  /-- A node in the tree below a module knows its owner, any other node has none. -/
  parent : ∀ {t raw p}, doc.nodeAt? t = some raw → g.placeAt? t = some p →
    (g.node p).parent = t.owner?.bind g.placeAt?

end SymbolDocs
