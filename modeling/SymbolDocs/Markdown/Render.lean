import SymbolDocs.Code.Highlight
import SymbolDocs.Link.Join
import SymbolDocs.Markdown.Block
import SymbolDocs.Markdown.Inline
import SymbolDocs.Markup.Escape
import SymbolDocs.Packages

/-!
# Markdown as markup

The tree of a document printed. Every element is rewritten before it is printed, as the one who asks for
the rendering wishes, and every block ends its line.

* `escapeText` escapes text and leaves entities alone;
* `printInline` prints running text, `printElement` a block;
* `convert` prints a source.
-/

namespace SymbolDocs.Markdown

open Markup (OpenTag)

/-! ## Text -/

/-- Does an entity stand in front? -/
def startsEntity (cs : List Char) : Bool :=
  let closes (body : List Char) (p : Char → Bool) : Bool :=
    let word := body.takeWhile p
    !word.isEmpty && (body.drop word.length).head? == some ';'
  match cs with
  | '&' :: '#' :: rest =>
    closes rest Text.isAsciiDigit ||
      (match rest with
        | x :: digits => (x == 'x' || x == 'X') && closes digits fun c => (Text.hexValue? c).isSome
        | [] => false)
  | '&' :: rest => closes rest fun c => isLetterAnyCase c || Text.isAsciiDigit c
  | _ => false

/-- Text as markup: ampersands that start no entity and brackets are escaped. -/
def escapeText : List Char → List Char
  | [] => []
  | '&' :: cs => if startsEntity ('&' :: cs) then '&' :: escapeText cs else "&amp;".toList ++ escapeText cs
  | '<' :: cs => "&lt;".toList ++ escapeText cs
  | '>' :: cs => "&gt;".toList ++ escapeText cs
  | c :: cs => c :: escapeText cs

/-- A value inside quotes. -/
def escapeQuoted (cs : List Char) : List Char :=
  Text.replaceAll ['"'] "&quot;".toList (escapeText cs)

/-- An attribute with its value. -/
def attributeText (field : String × String) : List Char :=
  ' ' :: field.1.toList ++ '=' :: '"' :: escapeQuoted field.2.toList ++ ['"']

/-- A title as an attribute, if there is one. -/
def titleAttribute : Option (List Char) → List (String × String)
  | some t => [("title", String.ofList t)]
  | none => []

/-- How elements are changed before they are printed. -/
abbrev Rewrite := OpenTag → Except Fault OpenTag

/-- An element around markup. -/
def wrap (rewrite : Rewrite) (tag : OpenTag) (body : List Char) : Except Fault (List Char) := do
  let tag ← rewrite tag
  let name := tag.name.toList
  return '<' :: name ++ tag.attributes.flatMap attributeText ++ '>' :: body ++ '<' :: '/' :: name ++ ['>']

/-- An element without content. -/
def alone (rewrite : Rewrite) (tag : OpenTag) : Except Fault (List Char) := do
  let tag ← rewrite tag
  return '<' :: tag.name.toList ++ tag.attributes.flatMap attributeText ++ " />".toList

/-- The characters passed, last one first, as markup; blanks alone right after a line break are left
out. -/
def flush (afterBreak : Bool) (run : List Char) : List Char :=
  if afterBreak && run.all Text.isBlank then [] else escapeText run.reverse

/-- Is the node a line break? -/
def Inline.isBreak : Inline → Bool
  | .lineBreak => true
  | _ => false

/-- Is the node markup that is kept? -/
def Inline.isRaw : Inline → Bool
  | .raw _ => true
  | _ => false

mutual

/-- A node of running text as markup. -/
def printNode (rewrite : Rewrite) : Inline → Except Fault (List Char)
  | .char c => .ok (escapeText [c])
  | .literal c => .ok (escapeText [c])
  | .raw s => .ok s
  | .code s =>
    wrap rewrite ⟨"code", []⟩ (s.flatMap fun c => if c = '"' then [c] else Markup.signChar c)
  | .lineBreak => do
    let tag ← alone rewrite ⟨"br", []⟩
    return tag ++ ['\n']
  | .emphasis body => do
    let body ← printNodes rewrite false [] body
    wrap rewrite ⟨"em", []⟩ body
  | .strong body => do
    let body ← printNodes rewrite false [] body
    wrap rewrite ⟨"strong", []⟩ body
  | .link href title body => do
    let body ← printNodes rewrite false [] body
    wrap rewrite ⟨"a", ("href", String.ofList href) :: titleAttribute title⟩ body
  | .image src title alt =>
    alone rewrite ⟨"img", ("alt", String.ofList alt) :: ("src", String.ofList src) ::
      titleAttribute title⟩

/-- Running text as markup. `run` holds the characters since the last node, last one first, and
`afterBreak` says whether that node is a line break. -/
def printNodes (rewrite : Rewrite) : Bool → List Char → List Inline → Except Fault (List Char)
  | afterBreak, run, [] => .ok (flush afterBreak run)
  | afterBreak, run, .char c :: xs => printNodes rewrite afterBreak (c :: run) xs
  | afterBreak, run, .literal c :: xs => printNodes rewrite afterBreak (c :: run) xs
  | afterBreak, run, x :: xs => do
    let own ← printNode rewrite x
    let others ← printNodes rewrite x.isBreak [] xs
    return flush (afterBreak && !x.isRaw) run ++ own ++ others

end

/-! ## Blocks -/

/-- How a document is printed. -/
structure Printing where
  /-- Are raw tags kept? -/
  keepTags : Bool
  /-- How elements are changed. -/
  rewrite : Rewrite

/-- Running text as markup. -/
def printInline (p : Printing) (cs : List Char) : Except Fault (List Char) :=
  printNodes p.rewrite false [] (parseInline p.keepTags cs)

/-- The element that prints a shape. -/
def Shape.elementName : Shape → String
  | .document => ""
  | .paragraph => "p"
  | .heading level => "h" ++ Text.natText level
  | .code => "pre"
  | .rule => "hr"
  | .bullets => "ul"
  | .numbers => "ol"
  | .item => "li"
  | .quote => "blockquote"
  | .table => "table"
  | .tableHead => "thead"
  | .tableBody => "tbody"
  | .row => "tr"
  | .headCell _ => "th"
  | .cell _ => "td"
  | .html => ""

/-- The style of a column. -/
def Alignment.attributes : Alignment → List (String × String)
  | .none => []
  | .left => [("style", "text-align: left;")]
  | .right => [("style", "text-align: right;")]
  | .center => [("style", "text-align: center;")]

/-- The attributes of a shape. -/
def Shape.attributes : Shape → List (String × String)
  | .headCell side => side.attributes
  | .cell side => side.attributes
  | _ => []

/-- Is the markup a tag of an element that stands on lines of its own? -/
def isBlockMarkup (cs : List Char) : Bool :=
  match cs with
  | '<' :: '!' :: _ => true
  | '<' :: '/' :: rest => isBlockElement (tagName rest)
  | '<' :: rest => isBlockElement (tagName rest)
  | _ => false

/-- A paragraph; one that is only a tag of a block is printed as the tag. -/
def printParagraph (p : Printing) (cs : List Char) : Except Fault (List Char) := do
  match parseInline p.keepTags cs with
  | [.raw s] => if isBlockMarkup s then return s else wrap p.rewrite ⟨"p", []⟩ s
  | nodes =>
    let body ← printNodes p.rewrite false [] nodes
    wrap p.rewrite ⟨"p", []⟩ body

/-- What follows an element: its tail, or the end of the line. -/
def printTail (p : Printing) (tail : List Char) : Except Fault (List Char) :=
  if tail.all Text.isBlank then .ok ['\n'] else printInline p tail

mutual

/-- An element with what follows it. -/
def printElement (p : Printing) : Element → Except Fault (List Char)
  | ⟨shape, text, children, tail⟩ => do
    let body ←
      match shape with
      | .document => printElements p children
      | .paragraph => printParagraph p text
      | .code => pure (Code.highlightBlock (String.ofList text) .plain).toList
      | .html => pure text
      | .rule => alone p.rewrite ⟨"hr", []⟩
      | shape => do
        let front ← if text.isEmpty && !children.isEmpty then pure ['\n'] else printInline p text
        let parts ← printElements p children
        wrap p.rewrite ⟨shape.elementName, shape.attributes⟩ (front ++ parts)
    let tail ← printTail p tail
    return body ++ tail

/-- Elements one after the other. -/
def printElements (p : Printing) : List Element → Except Fault (List Char)
  | [] => .ok []
  | e :: es => do
    let own ← printElement p e
    let others ← printElements p es
    return own ++ others

end

/-- A source as markup. -/
def convert (keepTags : Bool) (rewrite : Rewrite) (source : String) : Except Fault String :=
  if source.toList.all Text.isBlank then .ok ""
  else do
    let markup ← printElement ⟨keepTags, rewrite⟩ (parse keepTags source)
    return String.ofList (Text.trim markup)

end SymbolDocs.Markdown
