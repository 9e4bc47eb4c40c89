import SymbolDocs.Path
import SymbolDocs.Printing.Render
import SymbolDocs.Summary.Codec

/-!
# Summarising a graph

Every declaration that owns a page, and every named type, becomes a record of the summary. In type
positions an exported declaration appears by its id, a structural type in place, and any other type
as its visible text. Records made are kept in the session; a node met while its own record is being
made appears in short.

* `Site.summarize` makes the record of a node;
* `Site.position` encodes a type position;
* `Site.summary` is the document, `Site.summaryText` its text.
-/

namespace SymbolDocs

/-- Kinds whose structure is carried in a type position. -/
def Kind.isEmbedded (k : Kind) : Bool :=
  k == .objectType || k == .functionType || k == .function || k == .method || k == .typeUnion ||
    k == .interfaceDecl

/-- Kinds whose parts keep the order written. -/
def Kind.keepsOrder (k : Kind) : Bool :=
  k == .objectType || k == .typeUnion || k == .tuple

/-- Kinds that mention a declaration in a type position. -/
def Kind.isReference (k : Kind) : Bool :=
  k == .reference || k == .importType

/-- Declared outside the package, so never carried in place. -/
def Node.isForeign (n : Node) : Bool :=
  n.hasAny [.external, .defaultLibrary]

/-- The name of a node, when it has one. -/
def Node.name? (n : Node) : Option String :=
  if n.name = "" then none else some n.name

/-- What stands in a type position as an entry of a list. -/
def TypeValue.asRecord : TypeValue Record → Record
  | .embedded r => r
  | .ref id => { kind := .reference, type := some (.ref id) }
  | .inline s => { kind := .literal, name := some s }

/-- Records in the order of their names, those of one name as they were. -/
def Record.sortByName (rs : List Record) : List Record :=
  rs.mergeSort fun a b => decide (a.nameText ≤ b.nameText)

/-- The settings file of the project of an exported node. -/
def Node.tsconfigName (n : Node) : Option String :=
  if n.has .exported then
    match n.firstSource? with
    | some s => s.tsconfig.bind fun t => if t = "" then none else some (Path.ofString t).name
    | none => none
  else none

section

variable {μ : Type → Type} [Monad μ] {α : Type}

/-- Runs a computation for each place in turn. -/
def eachPlace (f : Place → μ α) : List Place → μ (List α)
  | [] => pure []
  | p :: rest => do
    let a ← f p
    let more ← eachPlace f rest
    return a :: more

/-- Runs a computation for each place of a list that may be absent. -/
def eachOf (f : Place → μ α) : Option (List Place) → μ (Option (List α))
  | none => pure none
  | some ps => return some (← eachPlace f ps)

/-- Runs a computation for each place of a list; an empty list counts as absent. -/
def eachIfAny (f : Place → μ α) (ps : List Place) : μ (Option (List α)) :=
  if ps.isEmpty then pure none else return some (← eachPlace f ps)

/-- Runs a computation for a place that may be absent. -/
def onPlace (f : Place → μ α) : Option Place → μ (Option α)
  | none => pure none
  | some p => return some (← f p)

end

namespace Site

section

variable {μ : Type → Type} [Monad μ]

/-- A type argument as a record. -/
def argumentRecord (position : Place → μ (TypeValue Record)) (p : Place) : μ Record := do
  return (← position p).asRecord

/-- What the type of a node comes to. A type that leads straight back to the node keeps its name. -/
def resolvedPosition (site : Site) (position : Place → μ (TypeValue Record)) (p : Place) :
    μ (Option (TypeValue Record)) :=
  match (site.graph.node p).resolvedType with
  | none => pure none
  | some r =>
    match (site.graph.node r).type with
    | some t =>
      if (site.graph.node t).type = some p then
        pure (some (.inline (site.graph.node r).name))
      else do return some (← position r)
    | none => do return some (← position r)

/-- A resolved type that says the same as the type is left out. -/
def dropSame (resolved type : Option (TypeValue Record)) : Option (TypeValue Record) :=
  match resolved, type with
  | some r, some t => if r.toValue.same t.toValue then none else some r
  | r, _ => r

variable [Printer μ]

/-- A type parameter with its full text, or a type argument. -/
def typeParameterRecord (site : Site) (position : Place → μ (TypeValue Record)) (p : Place) :
    μ Record := do
  let n := site.graph.node p
  if n.kind != .typeParameter then argumentRecord position p
  else
    let m ← Printer.printLayout site (site.graph.typeArgument p)
    return { kind := n.kind, id := n.id, name := n.name?, flags := n.flags, docs := n.docs,
             type := some (.inline (Markup.visible m)) }

/-- The record of a node from the records of its members and parameters and the encodings of its
types. -/
def recordWith (site : Site) (summarize : Place → μ Record)
    (position : Place → μ (TypeValue Record)) (p : Place) : μ Record := do
  let n := site.graph.node p
  let children ← eachIfAny summarize n.members
  let children := if n.kind.keepsOrder then children else children.map Record.sortByName
  let parameters ← eachOf summarize n.parameters
  let typeParameters ←
    eachIfAny (site.typeParameterRecord position) (n.typeParameters.getD [])
  let type ← onPlace position n.type
  let resolved ← site.resolvedPosition position p
  return { kind := n.kind, id := n.id, name := n.name?, flags := n.flags,
           value := .ofText? n.value, docs := n.docs, parameters, children, type, typeParameters,
           resolvedType := dropSame resolved type, tsconfig := n.tsconfigName }

/-- What an entry of a heritage clause names: a declaration by its id, or its own text. -/
def heritageTarget (site : Site) (p : Place) : μ (TypeValue Record) :=
  match (site.graph.node p).type.bind fun t => (site.graph.node t).id with
  | some id => pure (.ref id)
  | none => return .inline (← site.text p)

/-- An entry of a heritage clause. -/
def heritageEntry (site : Site) (position : Place → μ (TypeValue Record)) (p : Place) :
    μ Record := do
  let n := site.graph.node p
  let type ← site.heritageTarget p
  let arguments ← eachIfAny (argumentRecord position) (n.typeParameters.getD [])
  return { kind := .reference, name := n.name?, type := some type, typeParameters := arguments }

/-- A heritage clause: its entries that are references, and its owner. -/
def heritageRecord (site : Site) (position : Place → μ (TypeValue Record)) (p : Place) :
    μ Record := do
  let entries := (site.graph.node p).members.filter fun c => (site.graph.node c).kind == .reference
  let children ← eachPlace (site.heritageEntry position) entries
  let owner := (site.graph.heritageOwner? p).bind fun o => (site.graph.node o).id
  return { kind := .classType, children := some children, type := owner.map .ref }

/-- A type that is carried in place or as text. `enter` makes the record of a node that is carried,
unless it is in progress. -/
def flattenNode (site : Site) (active : List Place) (position : Place → μ (TypeValue Record))
    (enter : Place → μ Record) (p : Place) : μ (TypeValue Record) := do
  let n := site.graph.node p
  if n.kind == .classType then return .embedded (← site.heritageRecord position p)
  else if n.kind == .baseType then return .inline n.name
  else if n.isForeign || !n.kind.isEmbedded then return .inline (← site.text p)
  else if p ∈ active then
    match n.id with
    | some id => return .ref id
    | none =>
      if n.name != "" then return .inline n.name else return .inline (← site.text p)
  else return .embedded (← enter p)

/-- A type that is no mention of an exported declaration. A mention keeps its own text unless it
names a structural type that can be carried whole. -/
def flattenWith (site : Site) (active : List Place) (position : Place → μ (TypeValue Record))
    (enter : Place → μ Record) (p : Place) : μ (TypeValue Record) := do
  let n := site.graph.node p
  match if n.kind.isReference then n.type else none with
  | some t =>
    let target := site.graph.node t
    if !(n.typeParameters.getD []).isEmpty || target.isForeign || !target.kind.isEmbedded then
      return .inline (← site.text p)
    else site.flattenNode active position enter t
  | none => site.flattenNode active position enter p

/-- A node in a type position: an exported declaration by its id, with its type arguments when it is
mentioned with some; anything else in place or as text. -/
def positionWith (site : Site) (active : List Place) (position : Place → μ (TypeValue Record))
    (enter : Place → μ Record) (p : Place) : μ (TypeValue Record) := do
  let n := site.graph.node p
  let mentioned := if n.kind.isReference then n.type else none
  let target := site.graph.node (mentioned.getD p)
  match if target.has .exported then target.id else none with
  | some id =>
    if mentioned.isSome && mentioned != some p && !(n.typeParameters.getD []).isEmpty then
      let arguments ← eachPlace (argumentRecord position) (n.typeParameters.getD [])
      return .embedded { kind := .reference, type := some (.ref id), typeParameters := arguments }
    else return .ref id
  | none => site.flattenWith active position enter p

end

mutual

/-- The record of a node while the nodes `active` are in progress. -/
def summarizeFrom (site : Site) : Nat → List Place → Place → Work Record
  | 0, _, _ => throw .unbounded
  | fuel + 1, active, p => do
    match ← Work.record? p with
    | some r => return r
    | none =>
      let n := site.graph.node p
      if p ∈ active then return { kind := n.kind, id := n.id, name := n.name? }
      else
        let r ← site.recordWith (fun q => summarizeFrom site fuel (p :: active) q)
          (fun q => positionFrom site fuel (p :: active) q) p
        Work.rememberRecord p r
        return r

/-- The encoding of a type position while the nodes `active` are in progress. -/
def positionFrom (site : Site) : Nat → List Place → Place → Work (TypeValue Record)
  | 0, _, _ => throw .unbounded
  | fuel + 1, active, p =>
    site.positionWith active (fun q => positionFrom site fuel active q)
      (fun q => site.recordWith (fun r => summarizeFrom site fuel (q :: active) r)
        (fun r => positionFrom site fuel (q :: active) r) q) p

end

/-- How deep the work on a summary can go: each of the nodes can be put in progress once, and between
two such steps type arguments are entered, each of which stands after its owner in the table. -/
def summaryDepth (g : Graph) : Nat :=
  (g.size + 2) * (g.size + 2)

/-- The record of a node. -/
def summarize (site : Site) (p : Place) : Work Record :=
  site.summarizeFrom (summaryDepth site.graph) [] p

/-- The encoding of a type position. -/
def position (site : Site) (p : Place) : Work (TypeValue Record) :=
  site.positionFrom (summaryDepth site.graph) [] p

/-- The encoding of a type that is no mention of an exported declaration. -/
def flatten (site : Site) (p : Place) : Work (TypeValue Record) :=
  let depth := summaryDepth site.graph
  site.flattenWith [] (fun q => site.positionFrom depth [] q)
    (fun q => site.recordWith (fun r => site.summarizeFrom depth [q] r)
      (fun r => site.positionFrom depth [q] r) q) p

/-- The nodes listed in a summary: those with a page, and named types. -/
def summaryNodes (g : Graph) : List Place :=
  (g.index.map Prod.snd).filter fun p =>
    (g.node p).hasOwnPage || (g.node p).kind == .typeAlias

/-- The records of a summary, in the order of their names. -/
def summaryRecords (site : Site) : Work (List Record) := do
  let records ← eachPlace site.summarize (summaryNodes site.graph)
  return Record.sortByName records

/-- The summary of a graph. -/
def summary (site : Site) : Work Value := do
  return .record [("index", .list ((← site.summaryRecords).map Record.toValue))]

end Site

end SymbolDocs
