import SymbolDocs.Link.Href
import SymbolDocs.Members.Group

/-!
# The navigation

Every page shows the modules and named groups of the site with the pages in them. The index module
comes first and named groups come last; inside a section static declarations come first and names
decide. A section without public declarations is left out.

* `NavItem` and `NavSection` are what is shown;
* `navRank` orders the sections;
* `Site.navigation` makes them.
-/

namespace SymbolDocs

/-- An entry of the navigation. -/
structure NavItem where
  /-- What it says. -/
  title : String
  /-- Where it leads. -/
  href : String
  /-- Its icon. -/
  icon : Option String
  /-- Does it stand for a declaration without a name? -/
  italic : Bool
  deriving DecidableEq, Inhabited

/-- A module or named group with the pages in it. -/
structure NavSection where
  /-- Its own page. -/
  page : NavItem
  /-- The pages in it. -/
  entries : List NavItem
  deriving Inhabited

/-- The file names of a module that opens its directory. -/
def indexModules : List String :=
  ["index", "index.ts", "index.d.ts", "index.tsx", "index.js"]

/-- The part of a path after the last slash. -/
def lastPart (name : String) : String :=
  String.ofList (name.toList.reverse.takeWhile (· != '/')).reverse

/-- Index modules come first, named groups last. -/
def navRank (kind : Kind) (name : String) : Nat :=
  if kind == .moduleFile && indexModules.contains (lastPart name) then 0
  else if kind == .namespaceDecl then 2
  else 1

/-- May a section come before another? The rank decides, then the name. -/
def navPrecedes (kind₁ : Kind) (name₁ : String) (kind₂ : Kind) (name₂ : String) : Bool :=
  if navRank kind₁ name₁ = navRank kind₂ name₂ then decide (name₁ ≤ name₂)
  else decide (navRank kind₁ name₁ < navRank kind₂ name₂)

namespace Site

/-- The entry of a node; it has to lead somewhere. -/
def navItem (site : Site) (p : Place) (withIcon : Bool := true) : Work NavItem := do
  let n := site.graph.node p
  let href ← site.href p
  if href = "" then throw (.noHref n.name)
  return {
    title := if n.name = "" then "default" else n.name
    href
    icon := if withIcon then some n.kind.icon else none
    italic := n.name = "" }

/-- Entries in turn. -/
def navItems (site : Site) : List Place → Work (List NavItem)
  | [] => pure []
  | p :: rest => do
    let item ← site.navItem p
    let items ← navItems site rest
    return item :: items

/-- The section of a module or named group, if it has public declarations. -/
def navSection? (site : Site) (p : Place) : Work (Option NavSection) := do
  let g := site.graph
  let children := (g.node p).members.filter fun c => (g.node c).isPublic && !(g.node c).has .overload
  if children.isEmpty then return none
  let entries ← site.navItems ((g.sortMembers children).filter fun c => (g.node c).hasOwnPage)
  let page ← site.navItem p false
  return some { page, entries }

/-- Sections in turn. -/
def navSections (site : Site) : List Place → Work (List NavSection)
  | [] => pure []
  | p :: rest => do
    let own ← site.navSection? p
    let others ← navSections site rest
    return own.toList ++ others

/-- The navigation of the site. -/
def navigation (site : Site) : Work (List NavSection) :=
  let g := site.graph
  let containers := site.plan.emitted.filter fun p => (g.node p).kind.isContainer
  site.navSections (containers.mergeSort fun a b =>
    navPrecedes (g.node a).kind (g.node a).name (g.node b).kind (g.node b).name)

end Site

end SymbolDocs
