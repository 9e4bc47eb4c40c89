import SymbolDocs.Documentation.Render
import SymbolDocs.Members.Group
import SymbolDocs.Printing.Render

/-!
# The body of a page

What a page says about its node: a title with badges, what extends it, its documentation, where its
source is, its members in groups, and what it inherits. Members without a page of their own are shown
on cards.

* `Site.card` is the card of a member;
* `Site.title`, `Site.extensions`, `Site.inheritedParts` are parts of a page;
* `Site.pageBody` is the body.
-/

namespace SymbolDocs

/-- Is the kind of the node shown as a badge? -/
def Kind.hasTitleBadge (k : Kind) : Bool :=
  k == .moduleFile || k == .classDecl || k == .interfaceDecl || k == .component ||
    k == .namespaceDecl || k == .enumDecl

namespace Site

/-- Text of a mark of the documentation, when it is set and not empty. -/
def docMark (n : Node) (mark : Documentation → Option String) : Option String :=
  (n.docs.bind mark).bind fun s => if s = "" then none else some s

/-- The link to the source, as a list of at most one part. -/
def sourceParts (site : Site) (n : Node) : Except Fault (List String) :=
  match n.firstSource? with
  | none => .ok []
  | some source => do
    match ← site.sourceLink source with
    | some href =>
      return ["<a class=\"source\" href=\"" ++ Markup.escape href ++ "\">View source</a>"]
    | none => return []

/-- Documentation as a list of at most one part. -/
def docParts [Packages] (site : Site) (n : Node) : Work (List String) := do
  let docs ← site.documentation n
  return if docs = "" then [] else [docs]

/-- A parameter with its documentation. -/
def parameterItem [Packages] (site : Site) (p : Place) : Work String := do
  let code ← site.print (site.graph.parameter p)
  let docs ← site.documentation (site.graph.node p)
  let tail := if docs = "" then "" else " " ++ docs
  return "<li><code>" ++ code ++ "</code>" ++ tail ++ "</li>"

/-- The list of parameters. -/
def parameterParts [Packages] (site : Site) (n : Node) : Work (List String) := do
  match n.parameters.getD [] with
  | [] => return []
  | ps =>
    let items ← MemberPrinter.printEach site.parameterItem ps
    return ["<h6>Parameters</h6>", "<ul class=\"parameters\">"] ++ items ++ ["</ul>"]

/-- The card of a member. -/
def card [Packages] (site : Site) (p : Place) : Work String := do
  let n := site.graph.node p
  let anchorParts :=
    match n.id with
    | some id => ["<a name=\"s" ++ id.plain ++ "\"></a>"]
    | none => []
  let heading ← site.print (site.graph.signature p)
  let docs ← site.docParts n
  let parameters ← site.parameterParts n
  let source ← Work.ofExcept (site.sourceParts n)
  return Text.joinWith "\n"
    (anchorParts ++ ["<div class=\"member\">", "<h4>" ++ heading ++ "</h4>"] ++ docs ++ parameters ++
      source ++ ["</div>"])

/-- The badges of a title. -/
def titleBadges (n : Node) : Layout :=
  let kind := if n.kind.hasTitleBadge then
    chip (String.ofList (n.kind.label.toList.map Char.toLower)) else .empty
  let role := match docMark n Documentation.role with
    | some role => chip ("role: " ++ role)
    | none => .empty
  let merged := if n.has .declarationMerge then chip "declaration merge" else .empty
  nodeChips n ++ (kind ++ (role ++ merged))

/-- The title of a page, and the element that a component defines. -/
def title (site : Site) (p : Place) : Work (List String) := do
  let n := site.graph.node p
  let heading ← site.print (titleBadges n ++ site.graph.signatureText p)
  let element :=
    match docMark n Documentation.tagName with
    | some name => ["<p><code>&lt;" ++ Markup.escape name ++ "&gt;</code></p>"]
    | none => []
  return ("<h1>" ++ heading ++ "</h1>") :: element

/-- What extends the node. -/
def extensions (site : Site) (p : Place) : Work (List String) := do
  match (site.graph.node p).extendedBy.getD [] with
  | [] => return []
  | ps =>
    let links ← MemberPrinter.printEach (fun q => site.link q) ps
    return ["<p class=\"extended-by\"><b>Extended By:</b> " ++ Text.joinWith ", " links ++ "</p>"]

/-- How members are printed on pages. -/
def memberPrinter [Packages] (site : Site) : MemberPrinter where
  entry p page := site.link p none page
  card p := site.card p

/-- The index of a group. -/
def indexPart (group : Group) : String :=
  "<p class=\"index\">" ++ Text.joinWith " " group.index ++ "</p>"

/-- The groups of a page. -/
def groupParts (groups : List Group) : List String :=
  groups.flatMap fun group => ["<h3>" ++ group.title ++ "</h3>", indexPart group] ++ group.body

/-- The sections of ancestors in turn. -/
def sectionParts (site : Site) : List InheritedSection → Work (List String)
  | [] => pure []
  | s :: rest => do
    let link ← site.link s.heritage
    let own := s.groups.flatMap fun group => ["<h6>" ++ group.title ++ "</h6>", indexPart group]
    let others ← sectionParts site rest
    return ("<h3>Inherited from " ++ link ++ "</h3>") :: own ++ others

/-- What the node inherits. -/
def inheritedParts [Packages] (site : Site) (p : Place) : Work (List String) := do
  match (site.graph.node p).type with
  | some clause =>
    if (site.graph.node clause).kind == .classType then
      let sections ← site.memberPrinter.inherited site.graph site.options clause
      site.sectionParts sections
    else return []
  | none => return []

/-- The body of the page of a node. -/
def pageBody [Packages] (site : Site) (p : Place) : Work String := do
  let n := site.graph.node p
  let title ← site.title p
  let extensions ← site.extensions p
  let docs ← site.docParts n
  let source ← Work.ofExcept (site.sourceParts n)
  let groups ← site.memberPrinter.groups site.graph p
  let inherited ← site.inheritedParts p
  let parts := title ++ extensions ++ docs ++ (if n.kind.isContainer then [] else source) ++
    groupParts groups ++ inherited
  return Text.stripEnd (Text.joinWith "\n" parts) ++ "\n"

end Site

end SymbolDocs
