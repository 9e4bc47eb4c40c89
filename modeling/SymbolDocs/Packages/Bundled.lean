import SymbolDocs.Code.Highlight
import SymbolDocs.Code.Stylesheet
import SymbolDocs.Documentation.Markup
import SymbolDocs.Markdown.Render
import SymbolDocs.Template
import SymbolDocs.Yaml.Reader

/-!
# The bundled packages

Packages that are at hand: small ones for the Markdown, the code, the templates and the YAML that sites
are usually made with. The command runs with them.

* `Packages.bundled` are the packages;
* `Markdown.render` and `Markdown.renderInline` render a source by itself with them.
-/

namespace SymbolDocs

/-- The packages that are at hand. -/
instance Packages.bundled : Packages where
  markdown := Markdown.convert
  hasLexer name := Code.Language.ofName name != .plain
  highlight lexer code := Code.highlight code ((lexer.map Code.Language.ofName).getD .plain)
  stylesheet := Code.stylesheet
  fill := Template.fill
  yaml? := Yaml.read?

namespace Markdown

/-- How a source is rendered. -/
structure Style where
  /-- Are raw tags kept? -/
  allowHtml : Bool := false
  /-- The address that relative ones are read from; none when empty. -/
  base : String := ""

/-- The options of a style. -/
def Style.options (style : Style) : Options :=
  { baseHref := .text style.base }

/-- A source as markup; nothing when an address in it cannot be read. -/
def render (style : Style) (source : String) : String :=
  (style.options.renderMarkdown source false style.allowHtml).toOption.getD ""

/-- A source as markup inside a line; nothing when an address in it cannot be read. -/
def renderInline (style : Style) (source : String) : String :=
  (style.options.renderMarkdown source true style.allowHtml).toOption.getD ""

end Markdown

end SymbolDocs
