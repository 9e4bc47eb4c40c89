import SymbolDocs.Printing.Rules
import SymbolDocs.Summary.Codec

/-!
# Reading a summary

A reader holds the records of a summary document and finds the record of any id in it. It prints
declarations and types as plain text without the graph.

* `Reader.ofValue` decodes a document;
* `Reader.text` prints a record in each of the four forms of `RecordText`;
* `Reader.typeSummary?` follows references and named types to a declaration or a structural type;
* `Reader.members` groups the members of a record, `Reader.inheritedMembers` collects those of its
  ancestors.
-/

namespace SymbolDocs

/-- A summary document. -/
structure Reader where
  /-- The records at the top level. -/
  index : List Record
  /-- The records by id, the first one of an id first. -/
  byId : List (Scalar × Record)
  /-- How a declaration that is referred to is printed. -/
  link : Record → String

/-- The name alone. -/
def Record.plainLink (r : Record) : String :=
  if r.nameText = "" then "?" else r.nameText

/-- Name and id between brackets. -/
def Record.idLink (r : Record) : String :=
  let name := match r.name with
    | some s => s
    | none => Scalar.null.plain
  "[" ++ name ++ "#" ++ (r.id.getD .null).plain ++ "]"

mutual

/-- A record and the records of its members and parameters, in the order in which their ids count:
a record before its parts, later parts before earlier ones, parameters before members. -/
def Record.declared : Record → List Record
  | ⟨kind, id, name, flags, value, docs, parameters, children, type, typeParameters, resolvedType,
      tsconfig⟩ =>
    ⟨kind, id, name, flags, value, docs, parameters, children, type, typeParameters, resolvedType,
      tsconfig⟩ :: (Record.declaredIn parameters ++ Record.declaredIn children)

/-- The same for a list that may be absent. -/
def Record.declaredIn : Option (List Record) → List Record
  | none => []
  | some rs => Record.declaredLast rs

/-- The same for a list, from its end. -/
def Record.declaredLast : List Record → List Record
  | [] => []
  | r :: rs => Record.declaredLast rs ++ Record.declared r

end

/-- A record in the forms in which it is printed. -/
structure RecordText where
  /-- As a type. -/
  type : Except Fault String
  /-- As the heading of a declaration. -/
  heading : Except Fault String
  /-- As a member of an object type. -/
  member : Except Fault String
  /-- As a parameter. -/
  parameter : Except Fault String
  /-- As a function type. -/
  function : Except Fault String
  /-- As a heritage clause. -/
  heritage : Except Fault String
  /-- As an index signature. -/
  indexSignature : Except Fault String

/-- Runs a list of printings and joins them. -/
def joinTexts (sep : String) (texts : List (Except Fault String)) : Except Fault String := do
  return Text.joinWith sep (← texts.mapM id)

/-- How long a value is: text by characters, lists and mappings by items; other values have no
length. -/
def Value.length : Value → Except Fault Nat
  | .scalar (.text s) => .ok s.length
  | .scalar _ => .error .wrongShape
  | .list items => .ok items.length
  | .map fields => .ok fields.length

namespace Reader

/-- The record of an id. -/
def find? (id : Scalar) : List (Scalar × Record) → Option Record
  | [] => none
  | (k, r) :: rest => if k.same id then some r else find? id rest

/-- Adds a record under its id unless the id has one. -/
def register (byId : List (Scalar × Record)) (r : Record) : List (Scalar × Record) :=
  match r.id with
  | some id => if (find? id byId).isSome then byId else byId ++ [(id, r)]
  | none => byId

/-- The reader of the given records. -/
def ofRecords (link : Record → String) (records : List Record) : Reader :=
  ⟨records, (records.flatMap Record.declared).foldl register [], link⟩

/-- The reader of a document. -/
def ofValue (link : Record → String) : Value → Except Fault Reader
  | .map fields => do
    let items ← ((Fields.get? (.text "index") fields).getD (.list [])).items
    return ofRecords link (← items.mapM Record.ofValue)
  | _ => .error .notMapping

/-- The first record at the top level with a name. -/
def findByName? (rd : Reader) (name : String) : Option Record :=
  rd.index.find? fun r => r.name == some name

/-- The record a type position refers to. -/
def refRecord? (rd : Reader) : Option (TypeValue Record) → Option Record
  | some (.ref id) => find? id rd.byId
  | _ => none

/-- The name of a heading. -/
def nameText (r : Record) : String :=
  let name := if r.nameText = "" && r.kind == .constructSignature then "new" else r.nameText
  name ++ (if r.flags.has .optional then "?" else "")

/-- Type parameters or arguments between angle brackets. -/
def argumentsText (texts : Option (List RecordText)) : Except Fault String :=
  match texts with
  | none => .ok ""
  | some [] => .ok ""
  | some ts => do return "<" ++ (← joinTexts ", " (ts.map RecordText.type)) ++ ">"

/-- A list of parameters. -/
def parametersText (texts : Option (List RecordText)) : Except Fault String :=
  match texts with
  | none => .ok ""
  | some ts => do return "(" ++ (← joinTexts ", " (ts.map RecordText.parameter)) ++ ")"

/-- A function type. -/
def functionText (r : Record) (parameters typeParameters : Option (List RecordText))
    (type : Option (Except Fault String)) : Except Fault String := do
  let arguments ← argumentsText typeParameters
  let parameters ← parametersText parameters
  let result ← type.getD (.ok "")
  return nameText r ++ arguments ++ parameters ++ " => " ++ result

/-- An index signature. -/
def indexText (parameters : Option (List RecordText)) (type : Option (Except Fault String)) :
    Except Fault String := do
  let keys ← joinTexts ", " ((parameters.getD []).map RecordText.heading)
  let value ← type.getD (.ok "?")
  return "[" ++ keys ++ "]: " ++ value

/-- The type of a heading. -/
def headingType (r : Record) (type : Option (Except Fault String)) : Except Fault String :=
  match type with
  | none => .ok ""
  | some t => do
    let t ← t
    if r.kind.hasHeritage then return if t = "" then "" else " " ++ t
    else return typeColon r.kind r.nameText ++ t

/-- The initial value of a heading; a long one is not shown. -/
def headingValue (r : Record) : Except Fault String := do
  if r.value.truthy then
    let size ← r.value.length
    return if size ≤ valueLimit then " = " ++ r.value.plain else ""
  else return ""

/-- The heading of a declaration. -/
def headingText (r : Record) (parameters typeParameters : Option (List RecordText))
    (type : Option (Except Fault String)) : Except Fault String :=
  match r.kind with
  | .moduleFile => .ok r.nameText
  | .indexSignature => indexText parameters type
  | _ => do
    let shown ← headingType r type
    let value ← headingValue r
    let arguments ← argumentsText typeParameters
    let parameters ← parametersText parameters
    return nameText r ++ arguments ++ parameters ++ shown ++ value

/-- A parameter. -/
def parameterText (r : Record) (type : Option (Except Fault String)) : Except Fault String := do
  let shown ← type.getD (.ok "")
  let value := if r.value.truthy then " = " ++ r.value.plain else ""
  return parameterModifiers r.flags ++ (if r.flags.has .rest then "..." else "") ++ r.nameText ++
    (if r.flags.has .optional then "?" else "") ++ ": " ++ shown ++ value

/-- The entries of a heritage clause with whether they are extended. -/
def heritageEntries (rd : Reader) (ownerIsInterface : Bool) :
    List Record → List RecordText → Except Fault (List (String × Bool))
  | r :: rs, t :: ts => do
    let found := rd.refRecord? r.type
    let shown ←
      match r.type, found with
      | some (.ref _), none => .ok r.plainLink
      | _, _ => t.type
    let extended := ownerIsInterface ||
      (match found with
        | some target => target.kind.hasHeritage
        | none => false)
    return (shown, extended) :: (← heritageEntries rd ownerIsInterface rs ts)
  | _, _ => .ok []

/-- A heritage clause. -/
def heritageText (rd : Reader) (r : Record) (children : Option (List RecordText)) :
    Except Fault String := do
  let ownerIsInterface :=
    match rd.refRecord? r.type with
    | some o => o.kind == .interfaceDecl
    | none => false
  let entries ← rd.heritageEntries ownerIsInterface (r.children.getD []) (children.getD [])
  let extended := (entries.filter Prod.snd).map Prod.fst
  let implemented := (entries.filter fun e => !e.2).map Prod.fst
  return Text.joinWith " "
    ((if extended.isEmpty then [] else ["extends " ++ Text.joinWith ", " extended]) ++
      (if implemented.isEmpty then [] else ["implements " ++ Text.joinWith ", " implemented]))

/-- The forms of a record from those of its parts. -/
def assemble (rd : Reader) (r : Record) (parameters children typeParameters : Option (List RecordText))
    (type : Option (Except Fault String)) : RecordText :=
  let function := functionText r parameters typeParameters type
  let heritage := rd.heritageText r children
  let heading := headingText r parameters typeParameters type
  let index := indexText parameters type
  { function, heritage, heading
    indexSignature := index
    parameter := parameterText r type
    member :=
      match r.kind, children with
      | .indexSignature, _ => index
      | .spread, some (c :: _) => do return "..." ++ (← c.type)
      | _, _ => heading
    type :=
      match r.kind with
      | .reference => do return (← type.getD (.ok "?")) ++ (← argumentsText typeParameters)
      | .literal | .baseType => .ok r.nameText
      | .typeParameter => type.getD (.ok r.nameText)
      | .typeUnion => joinTexts " | " ((children.getD []).map RecordText.type)
      | .objectType => do
        let ms ← joinTexts "; " ((children.getD []).map RecordText.member)
        return "\x7b " ++ ms ++ " \x7d"
      | .array => do return (← type.getD (.ok "?")) ++ "[]"
      | .classDecl | .interfaceDecl | .component => do
        return rd.link r ++ (← argumentsText typeParameters)
      | .functionType | .function | .method => function
      | .classType => heritage
      | .indexedType =>
        match children with
        | some (a :: b :: _) => do return (← a.type) ++ "[" ++ (← b.type) ++ "]"
        | _ => .ok r.plainLink
      | _ => .ok r.plainLink }

mutual

/-- A record in the forms in which it is printed. -/
def text (rd : Reader) : Record → RecordText
  | ⟨kind, id, name, flags, value, docs, parameters, children, type, typeParameters, resolvedType,
      tsconfig⟩ =>
    rd.assemble
      ⟨kind, id, name, flags, value, docs, parameters, children, type, typeParameters, resolvedType,
        tsconfig⟩
      (textsIn rd parameters) (textsIn rd children) (textsIn rd typeParameters) (typeTextIn rd type)

/-- The records of a list that may be absent. -/
def textsIn (rd : Reader) : Option (List Record) → Option (List RecordText)
  | none => none
  | some rs => some (texts rd rs)

/-- The records of a list. -/
def texts (rd : Reader) : List Record → List RecordText
  | [] => []
  | r :: rs => text rd r :: texts rd rs

/-- What stands in a type position that may be empty. A reference prints as a link, or as a question
mark when it leads nowhere. -/
def typeTextIn (rd : Reader) : Option (TypeValue Record) → Option (Except Fault String)
  | none => none
  | some (.inline s) => some (.ok s)
  | some (.ref id) =>
    match find? id rd.byId with
    | some r => some (.ok (rd.link r))
    | none => some (.ok "?")
  | some (.embedded r) => some (text rd r).type

end

/-- A type position; an empty one prints as a question mark. -/
def typeText (rd : Reader) (t : Option (TypeValue Record)) : Except Fault String :=
  (rd.typeTextIn t).getD (.ok "?")

/-- What a type position leads to without looking an id up. -/
inductive Peeled where
  /-- Nothing but text. -/
  | nothing
  /-- The declaration with an id. -/
  | ref (id : Scalar)
  /-- A record that is no reference. -/
  | record (r : Record)

mutual

/-- Follows references carried in place. -/
def peel : Record → Peeled
  | ⟨kind, id, name, flags, value, docs, parameters, children, type, typeParameters, resolvedType,
      tsconfig⟩ =>
    if kind == .reference then peelType type
    else .record ⟨kind, id, name, flags, value, docs, parameters, children, type, typeParameters,
      resolvedType, tsconfig⟩

/-- The same from a type position. -/
def peelType : Option (TypeValue Record) → Peeled
  | none => .nothing
  | some (.inline _) => .nothing
  | some (.ref id) => .ref id
  | some (.embedded r) => peel r

end

/-- Follows ids, having passed `seen`, up to a class, an interface, a component or a record that is no
reference. A chain passes each id at most once, so their number bounds it. -/
def followIds (rd : Reader) : Nat → List Scalar → Peeled → Option Record
  | _, _, .nothing => none
  | _, _, .record r => some r
  | 0, _, .ref _ => none
  | fuel + 1, seen, .ref id =>
    if seen.any (·.same id) then none
    else
      match find? id rd.byId with
      | none => none
      | some r =>
        if r.kind.hasHeritage then some r
        else
          followIds rd fuel (id :: seen)
            (peelType (match r.resolvedType with
              | some t => some t
              | none => r.type))

/-- The declaration or structural type that a type position comes to. -/
def typeSummary? (rd : Reader) (t : Option (TypeValue Record)) : Option Record :=
  rd.followIds (rd.byId.length + 1) [] (peelType t)

/-- Adds a record to the group of a title. -/
def addToGroup (title : String) (r : Record) :
    List (String × List Record) → List (String × List Record)
  | [] => [(title, [r])]
  | (t, rs) :: rest => if t = title then (t, rs ++ [r]) :: rest else (t, rs) :: addToGroup title r rest

/-- The members of a record that are shown, by the title of their kind, in the order of titles. -/
def members (r : Record) : List (String × List Record) :=
  let shown := (r.children.getD []).filter fun c =>
    !(c.kind == .constructor || c.kind == .unknown || c.flags.has .internal)
  let groups := shown.foldl (fun gs c => addToGroup c.kind.groupTitle c gs) []
  groups.mergeSort fun a b => decide (a.1 ≤ b.1)

/-- The heritage clause that a type position comes to. -/
def clause? (rd : Reader) (t : Option (TypeValue Record)) : Option Record :=
  match rd.typeSummary? t with
  | some r => if r.kind == .classType then some r else none
  | none => none

/-- Goes through the entries of a heritage clause: the members of ancestors not yet seen, the heritage
clauses of these ancestors with the last one first, and the ids seen. -/
def ancestors (rd : Reader) :
    List Record → List Scalar → List Record → List Record × List Record × List Scalar
  | [], seen, clauses => ([], clauses, seen)
  | entry :: rest, seen, clauses =>
    match rd.refRecord? entry.type with
    | none => ancestors rd rest seen clauses
    | some a =>
      let id := a.id.getD .null
      if seen.any (·.same id) then ancestors rd rest seen clauses
      else
        let clauses :=
          match rd.clause? a.type with
          | some c => c :: clauses
          | none => clauses
        let (found, clauses, seen) := ancestors rd rest (id :: seen) clauses
        (a.children.getD [] ++ found, clauses, seen)

/-- Works off heritage clauses, the first one first. Each clause but the first comes with another id,
so the number of ids bounds the work. -/
def inheritedFrom (rd : Reader) : Nat → List Record → List Scalar → List Record
  | 0, _, _ => []
  | _, [], _ => []
  | fuel + 1, c :: clauses, seen =>
    let (found, clauses, seen) := rd.ancestors (c.children.getD []) seen clauses
    found ++ inheritedFrom rd fuel clauses seen

/-- The members of every ancestor that a record reaches through heritage clauses. -/
def inheritedMembers (rd : Reader) (r : Record) : List Record :=
  if r.kind.hasHeritage then
    rd.inheritedFrom (rd.byId.length + 2) (rd.clause? r.type).toList []
  else []

end Reader

end SymbolDocs
