import SymbolDocs.Members.Order
import SymbolDocs.Page.Name
import SymbolDocs.Session

/-!
# Groups of members

The members of a node are shown in groups, one for each kind that occurs. A group has an index, where
every name is listed once, and a body with a card for each member that is shown on its owner's page.
Members that do not belong to the public surface are left out, and a declaration that takes a value
apart stands for its elements.

* `Graph.shownMembers` are the members that are grouped, each with its owner;
* `MemberPrinter` says how an entry of the index and a card are printed;
* `MemberPrinter.groups` are the groups of a node;
* `MemberPrinter.inherited` are the groups of its ancestors, each visited once.
-/

namespace SymbolDocs

/-- Members of one kind. -/
structure Group where
  /-- The kind. -/
  kind : Kind
  /-- The entries of the index. -/
  index : List String := []
  /-- The cards. -/
  body : List String := []
  /-- The names in the index. -/
  names : List String := []
  deriving Inhabited

/-- The title of a group. -/
def Group.title (group : Group) : String :=
  group.kind.groupTitle

/-- The groups that a heritage entry contributes. -/
structure InheritedSection where
  /-- The entry. -/
  heritage : Place
  /-- The groups of the ancestor it names. -/
  groups : List Group
  deriving Inhabited

/-- Is a declaration of a module part of the public surface? -/
def Node.isPublic (n : Node) : Bool :=
  !n.has .internal && n.hasAny [.exported, .ambient, .declarationMerge]

/-- Does the node hold declarations of a file or of a named group? -/
def Kind.isContainer (k : Kind) : Bool :=
  k == .moduleFile || k == .namespaceDecl

/-- Can the node take a value apart into elements? -/
def Kind.isBinding (k : Kind) : Bool :=
  k == .constant || k == .variable

/-- Is it shown what the node inherits from? -/
def Kind.isInheritable (k : Kind) : Bool :=
  k == .classDecl || k == .component

/-- The kind under which a member is grouped. -/
def Kind.grouped (k : Kind) : Kind :=
  if k == .importType then .reExport else k

namespace Graph

/-- Is the node an import that leads to nothing with members? -/
def isEmptyImport (g : Graph) (p : Place) : Bool :=
  match (g.node p).type with
  | some t =>
    (g.node t).kind == .importType &&
      (match (g.node t).type with
        | some target => (g.node target).members.isEmpty
        | none => true)
  | none => false

/-- Is a child of a node of the given kind shown? -/
def isShown (g : Graph) (owner : Kind) (p : Place) : Bool :=
  let n := g.node p
  !(owner.isContainer && !n.isPublic) && !n.has .internal && n.kind != .unknown && !g.isEmptyImport p

/-- A member with its owner, or the elements it stands for with the member as theirs. -/
def expandMember (g : Graph) (owner p : Place) : List (Place × Place) :=
  let n := g.node p
  if n.kind.isBinding && !n.members.isEmpty then n.members.map fun e => (p, e) else [(owner, p)]

/-- The members that are grouped, each after its owner. -/
def shownMembers (g : Graph) (owner : Place) : List (Place × Place) :=
  ((g.sortMembers (g.node owner).members).filter (g.isShown (g.node owner).kind)).flatMap
    (g.expandMember owner)

/-- Does a declaration of the node come from one of the files? -/
def isExcluded (g : Graph) (o : Options) (p : Place) : Bool :=
  (g.node p).source.any fun source => o.excludes source.name

end Graph

/-- How members are printed. -/
structure MemberPrinter where
  /-- An entry of the index, seen from the page of a node when one is given. -/
  entry : Place → Option Place → Work String
  /-- A card. -/
  card : Place → Work String

namespace Group

/-- The group of a kind among groups; a new one when there is none yet. -/
def ofKind (kind : Kind) (groups : List Group) : Group :=
  (groups.find? fun group => group.kind == kind).getD { kind }

/-- Sets a group in the place of the one of its kind, or at the end. -/
def put (group : Group) : List Group → List Group
  | [] => [group]
  | first :: rest => if first.kind == group.kind then group :: rest else first :: put group rest

/-- Groups in the order of their titles. -/
def sortByTitle (groups : List Group) : List Group :=
  groups.mergeSort fun a b => decide (a.title ≤ b.title)

end Group

namespace MemberPrinter

/-- Adds a member: to the index when its name is new, and to the body when it is shown here. -/
def addMember (mp : MemberPrinter) (g : Graph) (indexOnly : Bool) (groups : List Group)
    (owner p : Place) : Work (List Group) := do
  let n := g.node p
  let group := Group.ofKind n.kind.grouped groups
  let group ←
    if group.names.contains n.name then pure group
    else do
      let entry ← mp.entry p (if indexOnly then none else some owner)
      pure { group with index := group.index ++ [entry], names := group.names ++ [n.name] }
  let group ←
    if indexOnly || n.hasOwnPage || n.kind == .reExport then pure group
    else do
      let card ← mp.card p
      pure { group with body := group.body ++ [card] }
  return group.put groups

/-- Adds members in turn. -/
def addMembers (mp : MemberPrinter) (g : Graph) (indexOnly : Bool) :
    List Group → List (Place × Place) → Work (List Group)
  | groups, [] => pure groups
  | groups, (owner, p) :: rest => do
    let groups ← mp.addMember g indexOnly groups owner p
    addMembers mp g indexOnly groups rest

/-- Prints each in its turn. -/
def printEach (print : Place → Work String) : List Place → Work (List String)
  | [] => pure []
  | p :: rest => do
    let s ← print p
    let ss ← printEach print rest
    return s :: ss

/-- The single group of an enumeration: its index by name, its body by value. -/
def enumGroups (mp : MemberPrinter) (g : Graph) (indexOnly : Bool) (owner : Place) :
    Work (List Group) := do
  let members := (g.node owner).members.filter fun p => !(g.node p).has .internal
  if members.isEmpty then return []
  let listed := g.sortMembers members
  let index ← printEach (fun p => mp.entry p (if indexOnly then none else some owner)) listed
  let body ← if indexOnly then pure [] else printEach mp.card (g.sortByValue members)
  let names := (listed.map fun p => (g.node p).name).eraseDups
  return [{ kind := .enumMember, index, body, names }]

/-- The groups of a node. -/
def groups (mp : MemberPrinter) (g : Graph) (owner : Place) (indexOnly : Bool := false)
    (sorted : Bool := true) : Work (List Group) := do
  if (g.node owner).members.isEmpty then return []
  else if (g.node owner).kind == .enumDecl then mp.enumGroups g indexOnly owner
  else
    let groups ← mp.addMembers g indexOnly [] (g.shownMembers owner)
    return if sorted then Group.sortByTitle groups else groups

/-- The ancestor a heritage entry names, when what it has can be inherited and nothing is excluded. -/
def ancestor? (g : Graph) (o : Options) (entry : Place) : Option Place :=
  (g.node entry).type.bind fun target =>
    if (g.node target).kind.isInheritable && !g.isExcluded o entry && !g.isExcluded o target then
      some target
    else none

mutual

/-- The sections of the ancestors that a heritage clause leads to, nearest first, and the ancestors
visited. A step goes to an ancestor that has not been visited, so the number of nodes bounds it. -/
def inheritedFrom (mp : MemberPrinter) (g : Graph) (o : Options) :
    Nat → Place → List Place → Work (List InheritedSection × List Place)
  | 0, _, visited => pure ([], visited)
  | fuel + 1, clause, visited => inheritedEntries mp g o fuel (g.node clause).members visited

/-- The same for the entries of a clause, in turn. -/
def inheritedEntries (mp : MemberPrinter) (g : Graph) (o : Options) :
    Nat → List Place → List Place → Work (List InheritedSection × List Place)
  | _, [], visited => pure ([], visited)
  | fuel, entry :: rest, visited => do
    match ancestor? g o entry with
    | none => inheritedEntries mp g o fuel rest visited
    | some target =>
      if target ∈ visited then inheritedEntries mp g o fuel rest visited
      else
        let groups ← mp.groups g target true
        let own := if groups.isEmpty then [] else [{ heritage := entry, groups }]
        let (above, visited) ←
          match (g.node target).type with
          | some clause => inheritedFrom mp g o fuel clause (target :: visited)
          | none => pure ([], target :: visited)
        let (later, visited) ← inheritedEntries mp g o fuel rest visited
        return (own ++ above ++ later, visited)

end

/-- The sections of the ancestors that a heritage clause leads to. -/
def inherited (mp : MemberPrinter) (g : Graph) (o : Options) (clause : Place) :
    Work (List InheritedSection) := do
  let (sections, _) ← mp.inheritedFrom g o (g.size + 1) clause []
  return sections

end MemberPrinter

end SymbolDocs
