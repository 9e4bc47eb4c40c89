import SymbolDocs.Printing.Rules

/-!
# Rendering types

Types are rendered by their rules, and what has been rendered is kept in the session, so that each
node is rendered once. A node that is met while it is itself being rendered prints as its bare name;
that is what makes cyclic types end.

* `Site.renderNode` renders one node, with the nodes in progress around it;
* `Site.render` renders a type position, `Site.renderText` its visible text;
* `Site.print` prints any layout, and `Printer` stands for any effects in which that can be done.
-/

namespace SymbolDocs.Site

/-- What a node prints as while it is being rendered. -/
def bareName (n : Node) : String :=
  if n.name = "" then "?" else Markup.escape n.name

/-- Dots in front of a node that takes the remaining items. -/
def restDots (n : Node) (m : String) : String :=
  if n.has .rest then "..." ++ m else m

/-- Renders a node while the nodes `active` are in progress. The budget is one more than the number
of nodes: every step puts another node in progress. -/
def renderNode (site : Site) : Nat → List Place → Place → Work String
  | 0, _, _ => throw .unbounded
  | budget + 1, active, p => do
    match ← Work.markup? p with
    | some m => return m
    | none =>
      if p ∈ active then return bareName (site.graph.node p)
      else
        let m ← (site.graph.typeRule p).print
          (fun q => do
            let m ← renderNode site budget (p :: active) q
            return restDots (site.graph.node q) m)
          (fun q => site.link q)
        Work.rememberMarkup p m
        return m

/-- Renders a node in a type position. -/
def renderType (site : Site) (p : Place) : Work String := do
  let m ← site.renderNode (site.graph.size + 1) [] p
  return restDots (site.graph.node p) m

/-- Prints a layout. -/
def print (site : Site) (l : Layout) : Work String :=
  l.print site.renderType (fun q => site.link q)

/-- Renders a type position, which may be empty. -/
def render (site : Site) : Option Place → Work String
  | some p => site.renderType p
  | none => pure ""

/-- The visible text of a type position. -/
def renderText (site : Site) (p : Option Place) : Work String := do
  return Markup.visible (← site.render p)

end SymbolDocs.Site

namespace SymbolDocs

/-- Effects in which a layout can be printed. -/
class Printer (μ : Type → Type) where
  /-- Prints a layout. -/
  printLayout : Site → Layout → μ String

/-- In a session layouts are printed with its tables. -/
instance : Printer Work := ⟨Site.print⟩

/-- The visible text of a node in a type position, printed as part of other work. -/
def Site.text {μ : Type → Type} [Monad μ] [Printer μ] (site : Site) (p : Place) : μ String := do
  return Markup.visible (← Printer.printLayout site (.type p))

end SymbolDocs
