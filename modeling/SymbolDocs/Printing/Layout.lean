import SymbolDocs.Link.Href
import SymbolDocs.Markup.Strip

/-!
# Layouts

How a declaration or a type is printed is first laid out: fixed signs, text of the graph, elements,
and the places where another node's type or a link to it goes. A layout is a plain tree, so the rules
that make it, one for each kind of node, are ordinary functions, and there can be more than one
printer for it. `Layout.print` prints markup, given what to print for a type and for a link.
-/

namespace SymbolDocs

/-- The elements a layout can hold. -/
inductive Tag where
  /-- A stretch of text with a style. -/
  | span
  /-- Content that is shown on demand. -/
  | details
  /-- What is shown until then. -/
  | summary
  deriving DecidableEq

/-- The word for an element. -/
def Tag.word : Tag → String
  | .span => "span"
  | .details => "details"
  | .summary => "summary"

/-- The colours of badges. -/
inductive Color where
  /-- For most modifiers. -/
  | primary
  /-- For what is still being tried out. -/
  | warning
  /-- For what is not to be used. -/
  | error
  deriving DecidableEq

/-- The word for a colour. -/
def Color.word : Color → String
  | .primary => "primary"
  | .warning => "warning"
  | .error => "error"

/-- The styles an element can have. -/
inductive Style where
  /-- No style of its own. -/
  | plain
  /-- Content that is shown on demand. -/
  | more
  /-- A heritage clause. -/
  | heritage
  /-- The heading of a declaration. -/
  | signature
  /-- A badge. -/
  | chip (color : Color)
  deriving DecidableEq

/-- The attribute for a style, with a blank in front. -/
def Style.attribute : Style → String
  | .plain => ""
  | .more => " class=\"doc-more\""
  | .heritage => " class=\"heritage\""
  | .signature => " class=\"signature\""
  | .chip color => " class=\"chip chip-" ++ color.word ++ "\""

/-- An element around markup. -/
def Tag.wrap (tag : Tag) (style : Style) (body : String) : String :=
  "<" ++ tag.word ++ style.attribute ++ ">" ++ body ++ "</" ++ tag.word ++ ">"

/-- What is to be printed. -/
inductive Layout where
  /-- Nothing. -/
  | empty
  /-- Text of the graph. -/
  | text (s : String)
  /-- A sign of the printer, whose closing brackets are escaped too. -/
  | sign (s : String)
  /-- One after the other. -/
  | append (a b : Layout)
  /-- A node in a type position. -/
  | type (p : Place)
  /-- A blank and a node in a type position, or nothing if the node prints as nothing. -/
  | spaced (p : Place)
  /-- A link to a node. -/
  | link (p : Place)
  /-- An element with a style. -/
  | element (tag : Tag) (style : Style) (body : Layout)
  /-- The entries of a heritage clause in the order written, each with whether it is extended rather
  than implemented. -/
  | heritage (entries : List (Place × Bool))
  /-- The members of an object type, shown on demand when there is too much of them. -/
  | members (body : Layout)
  /-- A node that lacks the children its kind needs. -/
  | broken (kind : Kind) (name : String)
  deriving Inhabited

namespace Layout

/-- Layouts are put one after the other with `++`. -/
instance : Append Layout := ⟨Layout.append⟩

/-- Layouts with text between them. -/
def separated (sep : Layout) : List Layout → Layout
  | [] => .empty
  | [l] => l
  | l :: ls => l ++ (sep ++ separated sep ls)

/-- A node in a type position, or nothing. -/
def optional : Option Place → Layout
  | some p => .type p
  | none => .empty

/-- How many visible characters of an object type are shown at once. -/
def collapseThreshold : Nat := 300

/-- The members of an object type between braces, behind a fold when they are too long. -/
def membersMarkup (m : String) : String :=
  let body := "\x7b " ++ m ++ " \x7d"
  if collapseThreshold < (Markup.visible m).length then
    Tag.details.wrap .more (Tag.summary.wrap .plain "\x7b ... \x7d" ++ body)
  else body

/-- The two lists of a heritage clause, or nothing when both are empty. -/
def heritageMarkup (entries : List (String × Bool)) : String :=
  let extended := (entries.filter Prod.snd).map Prod.fst
  let implemented := (entries.filter fun e => !e.2).map Prod.fst
  let parts :=
    (if extended.isEmpty then [] else ["extends " ++ Text.joinWith ", " extended]) ++
    (if implemented.isEmpty then [] else ["implements " ++ Text.joinWith ", " implemented])
  if parts.isEmpty then "" else Tag.span.wrap .heritage (Text.joinWith " " parts)

/-- Prints a list of entries, each in its turn. -/
def printEntries {μ : Type → Type} [Monad μ] (type : Place → μ String) :
    List (Place × Bool) → μ (List (String × Bool))
  | [] => pure []
  | (p, extended) :: rest => do
    let m ← type p
    let ms ← printEntries type rest
    return (m, extended) :: ms

/-- Prints a layout as markup from left to right, with any effects that types and links have. -/
def print {μ : Type → Type} [Monad μ] [MonadExceptOf Fault μ] (type link : Place → μ String) :
    Layout → μ String
  | .empty => pure ""
  | .text s => pure (Markup.escape s)
  | .sign s => pure (Markup.sign s)
  | .append a b => do
    let x ← print type link a
    let y ← print type link b
    return x ++ y
  | .type p => type p
  | .spaced p => do
    let m ← type p
    return if m = "" then "" else " " ++ m
  | .link p => link p
  | .element tag style body => do
    let m ← print type link body
    return tag.wrap style m
  | .heritage entries => do
    let ms ← printEntries type entries
    return heritageMarkup ms
  | .members body => do
    let m ← print type link body
    return membersMarkup m
  | .broken kind name => throw (.missingChildren kind name)

end Layout

end SymbolDocs
