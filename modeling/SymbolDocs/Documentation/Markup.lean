import SymbolDocs.Documentation.Grammar
import SymbolDocs.Options
import SymbolDocs.Packages

/-!
# Markdown and code in documentation

Markdown is rendered and code is highlighted by packages. Headings are demoted below those of the page,
and relative addresses of links and images are read from the base address.

* `Options.rebase` reads an address, `Options.rewrite` changes an element;
* `Options.renderMarkdown` renders Markdown;
* `highlightCode` highlights a sample.
-/

namespace SymbolDocs

/-- An address read from the base. -/
def Options.rebase (o : Options) (url : String) : Except Fault String :=
  match o.baseHref with
  | .scalar (.text s) => readLink url s
  | base =>
    if !base.truthy || isAbsoluteLink url.toList then .ok url else .error .wrongShape

/-- The headings that take the place of others. -/
def demotedHeadings : List (String × String) :=
  [("h1", "h4"), ("h2", "h5"), ("h3", "h6"), ("h4", "h6"), ("h5", "h6")]

/-- An element with an attribute changed, unless it is absent or empty. -/
def Markup.OpenTag.change (tag : Markup.OpenTag) (key : String) (f : String → Except Fault String) :
    Except Fault Markup.OpenTag :=
  match tag.attributes.lookup key with
  | none => .ok tag
  | some value =>
    if value = "" then .ok tag
    else do
      let value ← f value
      let attributes := tag.attributes.map fun (k, v) => (k, if k = key then value else v)
      return { tag with attributes }

namespace Options

/-- An element of a document as documentation shows it. -/
def rewrite (o : Options) (tag : Markup.OpenTag) : Except Fault Markup.OpenTag :=
  match demotedHeadings.lookup tag.name with
  | some name => .ok { tag with name }
  | none =>
    if tag.name = "a" then tag.change "href" o.rebase
    else if tag.name = "img" then tag.change "src" o.rebase
    else .ok tag

/-- Markdown as markup; inside a line a single paragraph loses its tags. -/
def renderMarkdown [Packages] (o : Options) (source : String) (inLine keepTags : Bool := false) :
    Except Fault String := do
  let markup ← Packages.markdown keepTags o.rewrite source
  return if inLine then (onlyParagraph? markup).getD markup else markup

end Options

/-- A highlighted sample; in a language without a lexer it is plain text. -/
def highlightCode [Packages] (code : String) (language : Option String := none) : String :=
  Packages.highlight (language.filter fun name => name != "" && Packages.hasLexer name) code

end SymbolDocs
