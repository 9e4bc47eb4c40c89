import SymbolDocs.Documentation.Markup
import SymbolDocs.Link.Href
import SymbolDocs.Path

/-!
# Documentation as markup

The items of a documentation block are printed in order: prose, samples, links and results, and at the
end the related items in one line. Items with other tags are left out. A link names a node of the
graph; one that names nothing is reported and leads to the name as an address.

Links inside prose are set aside before the prose is rendered. A mark stands in their place, and the
marks are replaced one after the other when the rendering is done.

* `Site.docLink` prints a link, `Site.prose` running text;
* `Site.documentation` prints the documentation of a node;
* `Site.sourceLink` is the address of a declaration in the repository.
-/

namespace SymbolDocs

/-- The mark that stands for a link while the prose around it is rendered. -/
def linkMark (i : Nat) : String :=
  "DOCGRAPHLINK" ++ Text.natText i ++ "END"

/-- Replaces the marks from number `i` on by the links, each in its turn. -/
def replaceMarks : Nat → List String → List Char → List Char
  | _, [], cs => cs
  | i, link :: links, cs =>
    replaceMarks (i + 1) links (Text.replaceAll (linkMark i).toList link.toList cs)

/-- Does text without the blanks around it fit on one line? -/
def fitsLine (s : String) : Bool :=
  !(Text.trim s.toList).contains '\n'

namespace Site

/-- A link to an address, labelled by a title or by itself. -/
def externalLink (site : Site) (url : String) (title : Option String := none) : Work String := do
  let href ← Work.ofExcept (site.options.rebase url)
  let label :=
    match title with
    | some t => if t = "" then url else t
    | none => url
  return "<a href=\"" ++ Markup.escape href ++ "\">" ++ Markup.escape label ++ "</a>"

/-- A documentation link. -/
def docLink (site : Site) (value : String) : Work String := do
  let (name, title) := parseDocLink value
  match site.graph.findByName? name with
  | some p => site.link p (title.map Markup.escape)
  | none =>
    Work.warn (.unresolvedLink name)
    site.externalLink name title

/-- The text of spans with a mark for each link, and the links. `count` links have been met. -/
def markSpans (site : Site) : Nat → List DocSpan → Work (String × List String)
  | _, [] => pure ("", [])
  | count, span :: rest => do
    if span.tag = some "link" then
      let link ← site.docLink span.value
      let (text, links) ← markSpans site (count + 1) rest
      return (linkMark count ++ text, link :: links)
    else
      let (text, links) ← markSpans site count rest
      return (span.value ++ text, links)

/-- Prints each in its turn. -/
def eachText {α : Type} (f : α → Work String) : List α → Work (List String)
  | [] => pure []
  | a :: rest => do
    let s ← f a
    let ss ← eachText f rest
    return s :: ss

section

variable [Packages]

/-- Renders the text of prose. -/
def proseText (site : Site) (inLine : Bool) (source : String) : Except Fault String :=
  if site.options.markdown then site.options.renderMarkdown source inLine
  else if inLine then .ok (Markup.escape (Text.strip source))
  else .ok (formatContent (Markup.escape source))

/-- Running text. Without a wish it is set in a line when it fits one. -/
def prose (site : Site) (value : DocText) (inLine : Option Bool := none) : Work String := do
  let (source, links) ←
    match value with
    | .plain s => pure (s, [])
    | .spans items => site.markSpans 0 items
  let body ← Work.ofExcept (site.proseText (inLine.getD (fitsLine source)) source)
  return String.ofList (replaceMarks 0 links body.toList)

/-- A sample under its caption; samples of components are markup, others are code. -/
def sample (item : DocItem) : String :=
  let (caption, code) := parseExample item.value.joined
  let title :=
    match caption with
    | some t => if t = "" then "Example" else t
    | none => "Example"
  let language :=
    if item.tag = some "demo" || item.tag = some "demoonly" then "html" else "typescript"
  "<h6>" ++ Markup.escape title ++ "</h6>" ++ highlightCode code (some language)

/-- A related item: a node of the graph, an address, or prose. -/
def relatedEntry (site : Site) (value : DocText) : Work String :=
  match value with
  | .spans _ => site.prose value (some true)
  | .plain s =>
    match site.graph.findByName? (Text.strip s) with
    | some p => site.link p
    | none =>
      if looksLikeAddress (Text.strip s) then site.externalLink (Text.strip s)
      else site.prose value (some true)

/-- The related items in one line. -/
def related (site : Site) (values : List DocText) : Work String := do
  let entries ← eachText site.relatedEntry values
  return "<p class=\"related\"><b>Related:</b> " ++ Text.joinWith ", " entries ++ "</p>"

/-- Prose as a block of its own. -/
def block (site : Site) (value : DocText) : Work String := do
  let inLine := fitsLine value.joined
  let body ← site.prose value (some inLine)
  return if inLine then "<p>" ++ body ++ "</p>" else body

/-- An item in its place; related items and items with other tags print nothing there. -/
def item (site : Site) (item : DocItem) : Work String :=
  match item.tag, item.value with
  | none, value => site.block value
  | some "param", value => site.block value
  | some "example", _ => pure (sample item)
  | some "demo", _ => pure (sample item)
  | some "demoonly", _ => pure (sample item)
  | some "link", .plain s => site.docLink s
  | some "return", value => do
    let body ← site.block value
    return "<h6>Returns</h6>" ++ body
  | _, _ => pure ""

/-- The documentation of a node. -/
def documentation (site : Site) (n : Node) : Work String :=
  match n.docs with
  | none => pure ""
  | some docs => do
    let parts ← eachText site.item docs.content
    let others := docs.content.filter fun item => item.tag == some "see"
    let body := String.join parts
    if others.isEmpty then return body
    else
      let line ← site.related (others.map DocItem.value)
      return body ++ line

end

/-- The line a location leads to, counted from one. -/
def lineText : Value → Except Fault String
  | .scalar .null => .ok ""
  | .scalar (.bool b) => .ok (if b then "#L2" else "#L1")
  | .scalar (.int n) => .ok ("#L" ++ Text.intText (n + 1))
  | _ => .error .wrongShape

/-- The address of a location in the repository; none without a repository, and none for files that only
declare. -/
def sourceLink (site : Site) (source : Source) : Except Fault (Option String) :=
  if !site.options.repository.truthy || source.isDeclarationFile then .ok none
  else do
    let path := Path.ofString source.name
    let path := (path.relativeTo? (Path.ofString site.options.packageRoot)).getD path
    let line ← lineText source.line
    match site.options.repository with
    | .scalar (.text s) =>
      return some (Text.stripEndMarks (· == '/') s ++ "/" ++ path.text ++ line)
    | _ => .error .notMapping

end Site

end SymbolDocs
