import SymbolDocs.Markdown.Source

/-!
# The tree of a Markdown document

Blocks are read in order into a tree, and a block may belong to the last list, item, quotation or code
already read; so reading a block means changing the last branch of the tree.

* `Element` is a node of the tree, `Shape` says what it is;
* `Element.mapLast` changes the last branch;
* `Mode` is what the reader is inside of, `BlockReader` and `Outcome` are the types of the rules.
-/

namespace SymbolDocs.Markdown

/-- Which side the text of a column stands on. -/
inductive Alignment where
  /-- No side in particular. -/
  | none
  /-- The left. -/
  | left
  /-- The right. -/
  | right
  /-- The middle. -/
  | center
  deriving DecidableEq, Inhabited

/-- What an element is. -/
inductive Shape where
  /-- The whole document. -/
  | document
  /-- A paragraph. -/
  | paragraph
  /-- A heading of a level from one to six. -/
  | heading (level : Nat)
  /-- Indented code. -/
  | code
  /-- A rule across the page. -/
  | rule
  /-- A list with bullets. -/
  | bullets
  /-- A list with numbers. -/
  | numbers
  /-- An item of a list. -/
  | item
  /-- A quotation. -/
  | quote
  /-- A table. -/
  | table
  /-- The head of a table. -/
  | tableHead
  /-- The body of a table. -/
  | tableBody
  /-- A row of a table. -/
  | row
  /-- A cell in the head of a table. -/
  | headCell (side : Alignment)
  /-- A cell in the body of a table. -/
  | cell (side : Alignment)
  /-- Finished markup. -/
  | html
  deriving DecidableEq, Inhabited

/-- Is it a list? -/
def Shape.isList (s : Shape) : Bool :=
  s == .bullets || s == .numbers

/-- An element: its text stands before its children, its tail after its end. -/
structure Element where
  /-- What it is. -/
  shape : Shape
  /-- The text in front of its children. -/
  text : List Char := []
  /-- Its children. -/
  children : List Element := []
  /-- The text that follows it. -/
  tail : List Char := []
  deriving Inhabited

namespace Element

/-- The last child. -/
def last? (e : Element) : Option Element :=
  e.children.getLast?

/-- With one more child. -/
def push (e child : Element) : Element :=
  { e with children := e.children ++ [child] }

/-- With the last child changed. -/
def mapLast (f : Element → Element) (e : Element) : Element :=
  match e.children.getLast? with
  | some child => { e with children := e.children.dropLast ++ [f child] }
  | none => e

/-- With the element changed that going to the last child so many times leads to. -/
def mapLastAt (f : Element → Element) : Nat → Element → Element
  | 0, e => f e
  | n + 1, e => e.mapLast (mapLastAt f n)

/-- Is the last child a list? -/
def endsInList (e : Element) : Bool :=
  e.last?.any fun child => child.shape.isList

/-- With its text, if any, moved into a paragraph in front of its children. -/
def loosen (e : Element) : Element :=
  if e.text.isEmpty then e
  else { e with text := [], children := { shape := .paragraph, text := e.text } :: e.children }

end Element

/-- What the reader is inside of; it decides what becomes of plain text. -/
inductive Mode where
  /-- Nothing in particular. -/
  | plain
  /-- The items of a list written without empty lines. -/
  | tightList
  /-- An item after an empty line. -/
  | looseList
  /-- Indented text whose indent has been taken away. -/
  | unindented
  /-- A quotation. -/
  | quoted
  deriving DecidableEq

/-- A reader of blocks into an element. -/
abbrev BlockReader := Mode → Element → List (List Char) → Element

/-- What a rule answers: the element with the block read into it, and the lines given back. -/
abbrev Outcome := Element × List (List Char)

/-- Lines given back, if there are any. -/
def giveBack (cs : List Char) : List (List Char) :=
  if cs.isEmpty then [] else [cs]

end SymbolDocs.Markdown
