import SymbolDocs.Graph.Reach
import SymbolDocs.Options
import SymbolDocs.Page.Name
import SymbolDocs.Warning

/-!
# The page plan

Before anything is printed every node that owns a page gets its file name. The modules are walked in
order; a name that is taken gets a suffix from the id of its node, and a counter if that is taken
too. Modules that are left out still have their pages planned, so that links to them have a target,
but these are not emitted.

* `PagePlan` holds the names and the pages to emit;
* `PagePlan.pageOf` answers the name of a node's page;
* `planPages` makes the plan and reports names that were taken.
-/

namespace SymbolDocs

/-- The file names of pages, and the pages to emit. -/
structure PagePlan where
  /-- The nodes that own a page with its name, in the order planned. -/
  names : List (Place × String)
  /-- The nodes whose pages are emitted, in the order planned. -/
  emitted : List Place
  /-- Is `index.html` taken by a landing page? -/
  hasReadme : Bool
  deriving Inhabited

namespace PagePlan

/-- The plan of nothing. -/
def empty (hasReadme : Bool) : PagePlan := ⟨[], [], hasReadme⟩

/-- The planned name of a page. -/
def name? (plan : PagePlan) (p : Place) : Option String :=
  plan.names.lookup p

/-- Is the name planned for some page? -/
def isTaken (plan : PagePlan) (name : String) : Bool :=
  plan.names.any fun e => e.2 == name

/-- The name of a node's page: as planned, or derived when it is not in the plan. -/
def pageOf (plan : PagePlan) (g : Graph) (p : Place) : Except Fault String :=
  match plan.name? p with
  | some name => .ok name
  | none => (g.node p).pageName plan.hasReadme

/-- Adds a page. -/
def add (plan : PagePlan) (p : Place) (name : String) (emit : Bool) : PagePlan :=
  { plan with
    names := plan.names ++ [(p, name)]
    emitted := if emit then plan.emitted ++ [p] else plan.emitted }

/-- The first free name among `stem-suffix-counter.html`, `stem-suffix-(counter+1).html`, … -/
def freeNumbered (plan : PagePlan) (stem suffix : String) : Nat → Nat → String
  | 0, counter => stem ++ "-" ++ suffix ++ "-" ++ Text.natText counter ++ ".html"
  | fuel + 1, counter =>
    let candidate := stem ++ "-" ++ suffix ++ "-" ++ Text.natText counter ++ ".html"
    if plan.isTaken candidate then freeNumbered plan stem suffix fuel (counter + 1) else candidate

/-- The name without its extension. -/
def stemOf (name : String) : String :=
  if Text.endsWith name.toList ".html".toList then
    String.ofList (name.toList.take (name.length - 5))
  else name

/-- A name for a node whose page name is taken. -/
def disambiguate (plan : PagePlan) (name : String) (n : Node) : String :=
  let suffix :=
    match n.id with
    | some id => "s" ++ id.plain
    | none => "dup"
  let candidate := stemOf name ++ "-" ++ suffix ++ ".html"
  if plan.isTaken candidate then plan.freeNumbered (stemOf name) suffix plan.names.length 2
  else candidate

end PagePlan

/-- Does a module contribute no pages? -/
def isSkippedModule (n : Node) (o : Options) : Bool :=
  o.excludes n.name || n.members.isEmpty || n.has .internal

/-- The nodes in the order of planning, each with whether its module's pages are emitted. -/
def planningOrder (g : Graph) (o : Options) : List (Place × Bool) :=
  g.modules.flatMap fun m =>
    (g.membersFrom m).map fun p => (p, !isSkippedModule (g.node m) o)

/-- Plans the pages of the listed nodes after those already planned. -/
def planFrom (g : Graph) (hasReadme : Bool) :
    List (Place × Bool) → PagePlan → List Warning → Except Fault PagePlan × List Warning
  | [], plan, warnings => (.ok plan, warnings)
  | (p, emit) :: rest, plan, warnings =>
    if !(g.node p).hasOwnPage || (plan.name? p).isSome then planFrom g hasReadme rest plan warnings
    else
      match (g.node p).pageName hasReadme with
      | .error e => (.error e, warnings)
      | .ok name =>
        if plan.isTaken name then
          let used := plan.disambiguate name (g.node p)
          planFrom g hasReadme rest (plan.add p used emit)
            (warnings ++ [.pageCollision name (g.node p).name used])
        else planFrom g hasReadme rest (plan.add p name emit) warnings

/-- Gives every node that owns a page its file name. -/
def planPages (g : Graph) (o : Options) : Except Fault PagePlan × List Warning :=
  planFrom g o.hasReadme (planningOrder g o) (.empty o.hasReadme) []

end SymbolDocs
