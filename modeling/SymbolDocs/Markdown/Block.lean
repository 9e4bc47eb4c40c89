import SymbolDocs.Markdown.Element
import SymbolDocs.Markdown.Table
import SymbolDocs.Text.Digit

/-!
# Markdown blocks

A source falls into blocks at empty lines. What a block is, is decided by the first rule that fits it:
indented text under a list, code, a table, a heading, a rule, a list, a quotation, and a paragraph when
nothing else does. A rule that takes only some lines of a block reads the lines before them first and
gives the lines after them back.

* `readBlock` reads one block, `readBlocks` all of them;
* `parse` reads a source.
-/

namespace SymbolDocs.Markdown

/-- Four blanks. -/
def indentation : List Char :=
  [' ', ' ', ' ', ' ']

/-- Does the text start with four blanks? -/
def isIndented (cs : List Char) : Bool :=
  Text.startsWith cs indentation

/-! ## Blank lines, code and paragraphs -/

/-- An empty line. Between lines of code it is kept. -/
def readEmpty (parent : Element) (block : List Char) : Outcome :=
  let filler := if block.isEmpty then ['\n', '\n'] else ['\n']
  let parent :=
    if parent.last?.any fun e => e.shape == .code then
      parent.mapLast fun e => { e with text := e.text ++ filler }
    else parent
  (parent, giveBack (block.drop 1))

/-- The indented lines in front, without their indent, and the lines after them. -/
def unindentFront : List (List Char) → List (List Char) × List (List Char)
  | [] => ([], [])
  | line :: rest =>
    let (front, back) := unindentFront rest
    if isIndented line then (line.drop 4 :: front, back)
    else if line.all Text.isBlank then ([] :: front, back)
    else ([], line :: rest)

/-- Indented code. It continues code that stands before it. -/
def readCode (parent : Element) (block : List Char) : Outcome :=
  let (front, back) := unindentFront (Text.lines block)
  let code := Text.trimEnd (Text.join ['\n'] front) ++ ['\n']
  let parent :=
    if parent.last?.any fun e => e.shape == .code then
      parent.mapLast fun e => { e with text := e.text ++ '\n' :: code }
    else parent.push { shape := .code, text := code }
  (parent, giveBack (Text.join ['\n'] back))

/-- Text added to text on a line of its own. -/
def addLine (before line : List Char) : List Char :=
  before ++ '\n' :: line

/-- A paragraph. In a list without empty lines its text belongs to the item itself. -/
def readParagraph (mode : Mode) (parent : Element) (block : List Char) : Outcome :=
  if block.all Text.isBlank then (parent, [])
  else if mode = .tightList then
    if parent.children.isEmpty then
      let text :=
        if parent.text.isEmpty then Text.trimStart block else addLine parent.text block
      ({ parent with text }, [])
    else (parent.mapLast fun e => { e with tail := addLine e.tail block }, [])
  else (parent.push { shape := .paragraph, text := Text.trimStart block }, [])

/-! ## Headings and rules -/

/-- The text of a heading: the marks at its end do not count, and no single backslash ends it. -/
def headingText? : List Char → Option (List Char)
  | [] => some []
  | ['\\'] => none
  | '\\' :: c :: cs => (headingText? cs).map fun t => '\\' :: c :: t
  | c :: cs => if (c :: cs).all (· == '#') then some [] else (headingText? cs).map (c :: ·)

/-- A line that is a heading: its level and its text. -/
def heading? (line : List Char) : Option (Nat × List Char) :=
  let level := min 6 (line.takeWhile (· == '#')).length
  if level = 0 then none else (headingText? (line.drop level)).map fun t => (level, Text.trim t)

/-- The lines before the first that `f` accepts, its answer, and the lines after it. -/
def firstLine? {α : Type} (f : List Char → Option α) :
    List (List Char) → Option (List (List Char) × α × List (List Char))
  | [] => none
  | line :: rest =>
    match f line with
    | some a => some ([], a, rest)
    | none => (firstLine? f rest).map fun (before, a, after) => (line :: before, a, after)

/-- A heading marked in front, with other lines before and after it. -/
def readHeading? (read : BlockReader) (mode : Mode) (parent : Element) (block : List Char) :
    Option Outcome :=
  (firstLine? heading? (Text.lines block)).map fun (before, (level, text), after) =>
    let before := Text.join ['\n'] before
    let parent := if before.isEmpty then parent else read mode parent [before]
    let after := after.map fun line =>
      if mode = .looseList && isIndented line then line.drop 4 else line
    (parent.push { shape := .heading level, text }, giveBack (Text.join ['\n'] after))

/-- Does the line underline a heading? -/
def isUnderline (line : List Char) : Bool :=
  let marks := line.takeWhile fun c => c == '=' || c == '-'
  !marks.isEmpty && (line.drop marks.length).all (· == ' ')

/-- A heading that the second line underlines. -/
def readUnderlined? (parent : Element) (block : List Char) : Option Outcome :=
  match Text.lines block with
  | title :: underline :: rest =>
    if isUnderline underline then
      let level := if underline.head? = some '=' then 1 else 2
      some (parent.push { shape := .heading level, text := Text.trim title },
        giveBack (Text.join ['\n'] rest))
    else none
  | _ => none

/-- Are these three marks or more with at most two blanks between neighbours? -/
def isRuleOf (mark : Char) : Nat → Nat → List Char → Bool
  | count, _, [] => 3 ≤ count
  | count, gap, c :: cs =>
    if c = mark then gap ≤ 2 && isRuleOf mark (count + 1) 0 cs
    else c = ' ' && isRuleOf mark count (gap + 1) cs

/-- Is the line a rule? -/
def isRule (line : List Char) : Bool :=
  let indent := (line.takeWhile (· == ' ')).length
  match line.drop indent with
  | c :: cs =>
    indent ≤ 3 && (c == '-' || c == '_' || c == '*') && isRuleOf c 1 0 cs
  | [] => false

/-- A rule, with other lines before and after it. -/
def readRule? (read : BlockReader) (mode : Mode) (parent : Element) (block : List Char) :
    Option Outcome :=
  (firstLine? (fun line => if isRule line then some () else none) (Text.lines block)).map
    fun (before, _, after) =>
      let before := ((Text.join ['\n'] before).reverse.dropWhile (· == '\n')).reverse
      let parent := if before.isEmpty then parent else read mode parent [before]
      (parent.push { shape := .rule },
        giveBack ((Text.join ['\n'] after).dropWhile (· == '\n')))

/-! ## Lists -/

/-- The mark of an item in front: is it a number, and what follows the mark and its blanks? -/
def itemMark? (cs : List Char) : Option (Bool × List Char) :=
  let afterMark (numbered : Bool) (rest : List Char) : Option (Bool × List Char) :=
    if rest.head? = some ' ' then some (numbered, rest.dropWhile (· == ' ')) else none
  match cs with
  | c :: rest =>
    if c = '*' || c = '+' || c = '-' then afterMark false rest
    else
      let digits := cs.takeWhile fun d => (Text.digitValue? d).isSome
      match cs.drop digits.length with
      | '.' :: rest => if digits.isEmpty then none else afterMark true rest
      | _ => none
  | [] => none

/-- A line that starts an item with an indent in the given range. -/
def itemLine? (least most : Nat) (line : List Char) : Option (Bool × List Char) :=
  let indent := (line.takeWhile (· == ' ')).length
  if least ≤ indent && indent ≤ most then itemMark? (line.drop indent) else none

/-- A line added to the items read so far, the last of which stands first. -/
def addItemLine (items : List (List Char)) (line : List Char) : List (List Char) :=
  let continueLast :=
    match items with
    | last :: before => addLine last line :: before
    | [] => [line]
  match itemLine? 0 3 line with
  | some (_, text) => text :: items
  | none =>
    if (itemLine? 4 7 line).isSome then
      if items.head?.any isIndented then continueLast else line :: items
    else continueLast

/-- The items of a block. -/
def itemsOf (block : List Char) : List (List Char) :=
  ((Text.lines block).foldl addItemLine []).reverse

/-- The tail of the last child of an item, if any, in a paragraph of its own. -/
def loosenTail (item : Element) : Element :=
  match item.last? with
  | some child =>
    if child.tail.isEmpty then item
    else
      (item.mapLast fun e => { e with tail := [] }).push
        { shape := .paragraph, text := Text.trimStart child.tail }
  | none => item

/-- Adds the items of a block without empty lines to a list: an indented one belongs to the item
before it. -/
def addItems (read : BlockReader) (list : Element) (items : List (List Char)) : Element :=
  items.foldl (fun list item =>
    if isIndented item then list.mapLast fun last => read .tightList last [item]
    else list.push (read .tightList { shape := .item } [item])) list

/-- A list. After another list it continues it, and the items on both sides of the empty line are
loosened. -/
def readList (read : BlockReader) (numbered : Bool) (parent : Element) (block : List Char) : Outcome :=
  let items := itemsOf block
  if parent.endsInList then
    let parent := parent.mapLast fun list =>
      let list := list.mapLast fun item => loosenTail item.loosen
      let list := list.push (read .looseList { shape := .item } (items.take 1))
      addItems read list (items.drop 1)
    (parent, [])
  else if parent.shape.isList then (addItems read parent items, [])
  else
    let list : Element := { shape := if numbered then .numbers else .bullets }
    (parent.push (addItems read list items), [])

/-- How deep below an element text indented by `wanted` levels belongs: the levels to take away and the
steps to the last child. Lists and items alternate, so two steps a level are enough. -/
def indentLevel (wanted : Nat) : Nat → Element → Nat → Nat → Nat × Nat
  | 0, _, level, steps => (level, steps)
  | fuel + 1, e, level, steps =>
    if wanted ≤ level then (level, steps)
    else
      match e.last? with
      | some child =>
        if child.shape.isList then indentLevel wanted fuel child (level + 1) (steps + 1)
        else if child.shape == .item then indentLevel wanted fuel child level (steps + 1)
        else (level, steps)
      | none => (level, steps)

/-- Lines with so many levels of indent taken away where they have them. -/
def unindentLoose (level : Nat) (block : List Char) : List Char :=
  let indent := List.replicate (4 * level) ' '
  Text.join ['\n'] ((Text.lines block).map fun line =>
    if Text.startsWith line indent then line.drop indent.length else line)

/-- The pieces of a text between empty lines. -/
def splitBlocks : List Char → List (List Char)
  | [] => [[]]
  | '\n' :: '\n' :: cs => [] :: splitBlocks cs
  | c :: cs =>
    match splitBlocks cs with
    | [] => [[c]]
    | w :: ws => (c :: w) :: ws

/-- Indented text that belongs to the last item of a list, or to the item itself. -/
def readIndented (read : BlockReader) (mode : Mode) (parent : Element) (block : List Char) : Outcome :=
  let wanted := (block.takeWhile (· == ' ')).length / 4
  let start := if mode = .tightList then 1 else 0
  let (level, steps) := indentLevel wanted (2 * wanted + 2) parent start 0
  let block := unindentLoose level block
  let readInto (e : Element) : Element := read .unindented e [block]
  if parent.shape == .item then
    (if parent.endsInList then parent.mapLast readInto else readInto parent, [])
  else
    let belongs (e : Element) : Element :=
      if e.shape == .item then readInto e
      else if e.last?.any fun child => child.shape == .item then
        e.mapLast fun item => read .unindented item.loosen (splitBlocks block)
      else e.push (readInto { shape := .item })
    (parent.mapLastAt belongs steps, [])

/-! ## Quotations -/

/-- What a line of a quotation says, if it is marked as one. -/
def quotedLine? (line : List Char) : Option (List Char) :=
  let indent := (line.takeWhile (· == ' ')).length
  match line.drop indent with
  | '>' :: ' ' :: rest => if indent ≤ 3 then some rest else none
  | '>' :: rest => if indent ≤ 3 then some rest else none
  | _ => none

/-- A line of a quotation without its mark. -/
def unquote (line : List Char) : List Char :=
  if Text.trim line = ['>'] then [] else (quotedLine? line).getD line

/-- A quotation, with other lines before it. It continues a quotation that stands before. -/
def readQuote? (read : BlockReader) (mode : Mode) (parent : Element) (block : List Char) :
    Option Outcome :=
  (firstLine? quotedLine? (Text.lines block)).map fun (before, _, _) =>
    let quoted := ((Text.lines block).drop before.length).map unquote
    let quoted := if before.isEmpty then quoted else [] :: quoted
    let blocks := splitBlocks (Text.join ['\n'] quoted)
    let parent := read mode parent [Text.join ['\n'] before]
    if parent.last?.any fun e => e.shape == .quote then
      (parent.mapLast fun e => read .quoted e blocks, [])
    else (parent.push (read .quoted { shape := .quote } blocks), [])

/-! ## All rules -/

/-- Reads one block by the first rule that fits. -/
def readBlock (read : BlockReader) (mode : Mode) (parent : Element) (block : List Char) : Outcome :=
  if block.isEmpty || block.head? = some '\n' then readEmpty parent block
  else if isIndented block && mode ≠ .unindented && (parent.shape == .item || parent.endsInList) then
    readIndented read mode parent block
  else if isIndented block then readCode parent block
  else
    let found : Option Outcome :=
      ((table? block).map fun table => (parent.push table, [])) <|>
      readHeading? read mode parent block <|>
      readUnderlined? parent block <|>
      readRule? read mode parent block <|>
      ((itemLine? 0 3 block).map fun mark => readList read mark.1 parent block) <|>
      readQuote? read mode parent block
    found.getD (readParagraph mode parent block)

/-- Reads blocks into an element. Each step takes a block or some of its lines away, so the length of
the text bounds the steps. -/
def readBlocks : Nat → BlockReader
  | 0, _, parent, _ => parent
  | _, _, parent, [] => parent
  | fuel + 1, mode, parent, block :: rest =>
    let (parent, back) := readBlock (readBlocks fuel) mode parent block
    readBlocks fuel mode parent (back ++ rest)

/-- Reads a chunk of a source. -/
def readChunk (doc : Element) : Chunk → Element
  | .html markup => doc.push { shape := .html, text := markup }
  | .text cs => readBlocks (2 * cs.length + 4) .plain doc (splitBlocks cs)

/-- Reads a source. -/
def parse (allowHtml : Bool) (source : String) : Element :=
  (chunks (pieces allowHtml source)).foldl readChunk { shape := .document }

end SymbolDocs.Markdown
