import SymbolDocs.Link.Target
import SymbolDocs.Markup.Escape
import SymbolDocs.Session

/-!
# Addresses and links

The address of a node is the file of its page when it has one, and otherwise an anchor on the page
of its owner. Seen from a page that bears the owner's name the file part is left out.

* `Site.href` is the address;
* `displayName` is the label of a node;
* `Site.link` is the label as a link.
-/

namespace SymbolDocs

/-- The label of a node, as markup; nodes without a name get a placeholder. -/
def displayName (n : Node) : String :=
  if n.name != "" then Markup.escape n.name
  else if n.has .defaultExport then "<i>default</i>"
  else "(Unknown)"

/-- The anchor of a node on its owner's page. -/
def anchor (n : Node) : String :=
  match n.id with
  | some id => "#s" ++ id.plain
  | none => ""

namespace Site

/-- Where the wrappers from a node lead; a circle is reported. -/
def target (site : Site) (p : Place) : Work Place := do
  let (q, circular) := site.graph.target p
  if circular then Work.warn (.referenceCycle (site.graph.node q).name)
  return q

/-- The address of a node seen from a page. Each step goes to the owner of what the node stands
for; as long as no wrapper owns what it stands for, no node is met twice. -/
def hrefFrom (site : Site) : Nat → Place → Option Place → Work String
  | 0, _, _ => throw .unbounded
  | fuel + 1, p, page => do
    let q ← site.target p
    let n := site.graph.node q
    if n.hasOwnPage then Work.ofExcept (site.plan.pageOf site.graph q)
    else
      let base ←
        match n.parent with
        | none => pure ""
        | some owner =>
          match page with
          | none => hrefFrom site fuel owner none
          | some page =>
            if (site.graph.node owner).name != (site.graph.node page).name then
              hrefFrom site fuel owner none
            else pure ""
      return base ++ anchor n

/-- The address of a node, seen from a page when one is given. -/
def href (site : Site) (p : Place) (page : Option Place := none) : Work String :=
  site.hrefFrom (site.graph.size + 1) p page

/-- What a link to a node leads to: references and import types lead to what they name. -/
def linkTarget (site : Site) (p : Place) : Place :=
  let n := site.graph.node p
  if n.kind == .reference || n.kind == .importType then n.type.getD p else p

/-- A node as a link with the given label, or its own when that is empty; a node without an id is
the label alone. -/
def link (site : Site) (p : Place) (content : Option String := none)
    (page : Option Place := none) : Work String := do
  let label :=
    match content with
    | some c => if c != "" then c else displayName (site.graph.node p)
    | none => displayName (site.graph.node p)
  let q := site.linkTarget p
  if (site.graph.node q).id.isNone then return label
  let address ← site.href q page
  if site.options.spa && address.toList.head? != some '#' then
    return "<doc-a href=\"" ++ Markup.escape address ++ "\">" ++ label ++ "</doc-a>"
  else return "<a href=\"" ++ Markup.escape address ++ "\">" ++ label ++ "</a>"

end Site

end SymbolDocs
