/-!
# Documentation blocks

The documentation attached to a node: tagged items, each of them plain text or a sequence of spans
of which some are links, and a few marks that concern the node as a whole.
-/

namespace SymbolDocs

/-- A stretch of documentation text; the tag `link` makes it a link. -/
structure DocSpan where
  /-- The text, or what the link leads to. -/
  value : String
  /-- What the span is, when it is not plain text. -/
  tag : Option String
  deriving DecidableEq, Inhabited

/-- What a documentation item says. -/
inductive DocText where
  /-- Text without links. -/
  | plain (s : String)
  /-- Text with spans of its own. -/
  | spans (items : List DocSpan)
  deriving DecidableEq, Inhabited

/-- One item of a documentation block. An item without a tag is prose. -/
structure DocItem where
  /-- What it says. -/
  value : DocText
  /-- What it is about. -/
  tag : Option String
  deriving DecidableEq, Inhabited

/-- The documentation of a node. -/
structure Documentation where
  /-- The items, in the order written. -/
  content : List DocItem
  /-- Is the node still being tried out? -/
  beta : Bool
  /-- The element a component defines. -/
  tagName : Option String
  /-- The role of a component. -/
  role : Option String
  deriving DecidableEq, Inhabited

/-- The text of an item, spans joined. -/
def DocText.joined : DocText → String
  | .plain s => s
  | .spans items => items.foldl (fun s span => s ++ span.value) ""

end SymbolDocs
