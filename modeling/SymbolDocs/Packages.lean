import SymbolDocs.Fault

/-!
# Packages

What is not done here is asked of packages: rendering Markdown, highlighting code, filling in templates
and reading YAML. Nothing is known of their answers but that they depend on what they are asked only,
so whatever is proved holds with any packages.

* `Markup.OpenTag` is what opens an element of a document;
* `Packages` are the packages.
-/

namespace SymbolDocs

/-- The tag that opens an element: the name of the element, and its attributes with their values. -/
structure Markup.OpenTag where
  /-- The name. -/
  name : String
  /-- The attributes, in order. -/
  attributes : List (String × String) := []
  deriving DecidableEq, Inhabited

/-- The packages that are asked. -/
class Packages where
  /-- Renders Markdown. Raw tags are kept if wished. Every element is rewritten before it is printed,
  and the rendering fails when that does. -/
  markdown : (keepTags : Bool) → (rewrite : Markup.OpenTag → Except Fault Markup.OpenTag) →
    (source : String) → Except Fault String
  /-- Is there a lexer of this name? -/
  hasLexer : (name : String) → Bool
  /-- Highlights code with a lexer, or as plain text without one. -/
  highlight : (lexer : Option String) → (code : String) → String
  /-- The style rules of highlighted code. -/
  stylesheet : String
  /-- Fills in a template. -/
  fill : (template : String) → (context : Value) → String
  /-- Reads YAML; no answer where it is malformed. -/
  yaml? : (text : String) → Option Value

end SymbolDocs
