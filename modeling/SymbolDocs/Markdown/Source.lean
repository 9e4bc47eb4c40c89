import SymbolDocs.Code.Highlight
import SymbolDocs.Text.Blank
import SymbolDocs.Text.Search

/-!
# The pieces of a Markdown source

Before the blocks of a source are read it is made regular, and what is not Markdown is taken out of
it: fenced code, which becomes markup at once, and, where raw markup is allowed, elements that stand
on lines of their own. The rest are characters.

* `Piece` is a character or finished markup;
* `regularize` makes line ends, tabs and blank lines regular;
* `pieces` takes the markup out;
* `chunks` gathers the characters between markup again.
-/

namespace SymbolDocs.Markdown

/-- A character of a source, or markup that is finished. -/
inductive Piece where
  /-- A character. -/
  | char (c : Char)
  /-- Finished markup. -/
  | html (markup : List Char)
  deriving Inhabited

/-! ## Regular text -/

/-- Tabs as blanks up to the next column that four divides; `column` is the place on the line. -/
def expandTabs : Nat → List Char → List Char
  | _, [] => []
  | column, c :: cs =>
    if c = '\t' then
      let width := 4 - column % 4
      List.replicate width ' ' ++ expandTabs (column + width) cs
    else if c = '\n' then c :: expandTabs 0 cs
    else c :: expandTabs (column + 1) cs

/-- Lines of blanks become empty, the first line and one without an end excepted. -/
def emptyBlankLines : List (List Char) → List (List Char)
  | [] => []
  | [last] => [last]
  | line :: rest => (if line.all (· == ' ') then [] else line) :: emptyBlankLines rest

/-- A source with regular line ends, two of them at its end, no tabs and no blanks on blank lines. -/
def regularize (cs : List Char) : List Char :=
  let cs := cs.filter fun c => !(c.toNat == 2 || c.toNat == 3)
  let cs := expandTabs 0 (Text.normalizeBreaks cs ++ ['\n', '\n'])
  match Text.lines cs with
  | [] => []
  | first :: rest => Text.join ['\n'] (first :: emptyBlankLines rest)

/-! ## Fenced code -/

/-- The fence that opens a line: three or more backticks or tildes. -/
def fence? (line : List Char) : Option (List Char) :=
  match line with
  | c :: _ =>
    let run := line.takeWhile (· == c)
    if (c = '\x60' || c = '~') && 3 ≤ run.length then some run else none
  | [] => none

/-- A character of the name of a language. -/
def isLanguageChar (c : Char) : Bool :=
  c.isAlphanum || c == '_' || c == '#' || c == '.' || c == '+' || c == '-' ||
    (127 < c.toNat && !Text.isBlank c)

/-- A line that opens fenced code: its fence and the name of the language, which may be empty. -/
def openFence? (line : List Char) : Option (List Char × List Char) :=
  (fence? line).bind fun fence =>
    let info := Text.trimWhile (· == ' ') (line.drop fence.length)
    let name := match info with
      | '.' :: rest => rest
      | info => info
    if name.all isLanguageChar then some (fence, name) else none

/-- Does the line close the fence? -/
def closesFence (fence line : List Char) : Bool :=
  match Text.afterPrefix? fence line with
  | some rest => rest.all (· == ' ')
  | none => false

/-- The lines up to the one that closes the fence, and those after it. -/
def fencedLines? (fence : List Char) : List (List Char) → Option (List (List Char) × List (List Char))
  | [] => none
  | line :: rest =>
    if closesFence fence line then some ([], rest)
    else (fencedLines? fence rest).map fun (a, b) => (line :: a, b)

/-- A line with its end. -/
def linePieces (line : List Char) : List Piece :=
  line.map .char ++ [.char '\n']

/-- Fenced code as markup, set apart from the lines around it. -/
def fencedPieces (language : List Char) (code : List (List Char)) : List Piece :=
  let sample := String.ofList (Text.join ['\n'] code)
  let markup := Code.highlightBlock sample (Code.Language.ofName (String.ofList language))
  [.char '\n', .html markup.toList, .char '\n', .char '\n']

/-- Takes fenced code out of the lines of a source. Each step passes over one line or more. -/
def takeFences : Nat → List (List Char) → List Piece
  | 0, lines => lines.flatMap linePieces
  | _, [] => []
  | fuel + 1, line :: rest =>
    match openFence? line with
    | some (fence, language) =>
      match fencedLines? fence rest with
      | some (code, after) => fencedPieces language code ++ takeFences fuel after
      | none => linePieces line ++ takeFences fuel rest
    | none => linePieces line ++ takeFences fuel rest

/-! ## Raw markup -/

/-- The elements that stand on lines of their own. -/
def blockElements : List String :=
  ["address", "article", "aside", "blockquote", "details", "div", "dl", "fieldset", "figcaption",
    "figure", "footer", "form", "h1", "h2", "h3", "h4", "h5", "h6", "header", "hgroup", "hr", "main",
    "menu", "nav", "ol", "p", "pre", "search", "section", "table", "ul", "canvas", "colgroup", "dd",
    "dt", "group", "html", "iframe", "legend", "li", "map", "math", "noscript", "object", "output",
    "progress", "script", "style", "summary", "tbody", "td", "textarea", "tfoot", "th", "thead", "tr",
    "video", "center"]

/-- Does an element stand on lines of its own? -/
def isBlockElement (name : String) : Bool :=
  blockElements.contains name

/-- The characters in front, up to finished markup. -/
def frontChars : List Piece → List Char
  | .char c :: xs => c :: frontChars xs
  | _ => []

/-- How many characters of a tag lie before its closing bracket; brackets inside quotes do not count. -/
def tagBody : Option Char → List Char → Option (List Char)
  | _, [] => none
  | some q, c :: cs => (tagBody (if c = q then none else some q) cs).map (c :: ·)
  | none, c :: cs =>
    if c = '>' then some []
    else if c = '"' || c = '\x27' then (tagBody (some c) cs).map (c :: ·)
    else (tagBody none cs).map (c :: ·)

/-- What stands between angle brackets. -/
inductive Tag where
  /-- An opening tag. -/
  | opening (name : String)
  /-- A tag that opens and closes. -/
  | single (name : String)
  /-- A closing tag. -/
  | closing (name : String)
  /-- A comment. -/
  | comment

/-- The name at the front of a tag, in small letters. -/
def tagName (cs : List Char) : String :=
  String.ofList ((cs.takeWhile fun c => !(Text.isBlank c || c == '/' || c == '>')).map Char.toLower)

/-- The tag in front and its length. -/
def tag? (cs : List Char) : Option (Tag × Nat) :=
  match cs with
  | '<' :: '!' :: '-' :: '-' :: rest =>
    (Text.cutAt? "-->".toList rest).map fun (body, _) => (.comment, body.length + 7)
  | '<' :: '/' :: c :: rest =>
    if c.isAlpha then
      (tagBody none (c :: rest)).map fun body => (.closing (tagName body), body.length + 3)
    else none
  | '<' :: c :: rest =>
    if c.isAlpha then
      (tagBody none (c :: rest)).map fun body =>
        let name := tagName body
        let alone := body.getLast? == some '/' || name == "hr"
        (if alone then .single name else .opening name, body.length + 2)
    else none
  | _ => none

/-- Does at least one empty line follow the rest of this one, which is blank? -/
def blankLineFollows (cs : List Char) : Bool :=
  match cs.dropWhile (· == ' ') with
  | '\n' :: rest => (rest.dropWhile (· == ' ')).head? == some '\n'
  | _ => false

/-- The open elements after a closing tag: those up to the innermost of its name are closed. -/
def closeElement (name : String) (stack : List String) : List String :=
  if stack.contains name then (stack.dropWhile (· != name)).drop 1 else stack

/-- Finished markup, set apart from the lines around it; a blank line after it stays part of it. -/
def rawPieces (markup : List Char) (after : List Char) : List Piece :=
  let markup := if blankLineFollows after then markup ++ ['\n'] else markup
  [.char '\n', .html markup, .char '\n', .char '\n']

/-- Where the reader of raw markup is. -/
structure RawPosition where
  /-- The elements open, the innermost first; none outside raw markup. -/
  stack : List String := []
  /-- The raw markup read, last character first. -/
  raw : List Char := []
  /-- Does raw markup stand before on this line? -/
  inTail : Bool := false
  /-- The blanks since the line started, if there is nothing else and at most three. -/
  indent : Option Nat := some 0

/-- The indent after a character. -/
def indentAfter (indent : Option Nat) (c : Char) : Option Nat :=
  if c = '\n' then some 0
  else if c = ' ' then
    match indent with
    | some n => if n < 3 then some (n + 1) else none
    | none => none
  else none

/-- Takes raw markup out of a source; `skip` characters of a tag already judged are passed over. -/
def takeRaw : Nat → RawPosition → List Piece → List Piece
  | _, pos, [] => if pos.raw.isEmpty then [] else [.char '\n', .html pos.raw.reverse]
  | skip + 1, pos, _ :: xs => takeRaw skip pos xs
  | 0, pos, .html m :: xs =>
    if pos.stack.isEmpty then .html m :: takeRaw 0 { pos with indent := none } xs
    else takeRaw 0 { pos with raw := m.reverse ++ pos.raw } xs
  | 0, pos, .char c :: xs =>
    let cs := c :: frontChars xs
    let copy :=
      if pos.stack.isEmpty then
        .char c :: takeRaw 0
          { pos with inTail := pos.inTail && c != '\n', indent := indentAfter pos.indent c } xs
      else takeRaw 0 { pos with raw := c :: pos.raw } xs
    match tag? cs with
    | none => copy
    | some (tag, n) =>
      let text := cs.take n
      let raw := text.reverse ++ pos.raw
      if !pos.stack.isEmpty then
        match tag with
        | .opening name =>
          takeRaw (n - 1) { pos with stack := name :: pos.stack, raw } xs
        | .closing name =>
          let stack := closeElement name pos.stack
          if stack.isEmpty then
            rawPieces raw.reverse (cs.drop n) ++ takeRaw (n - 1)
              { inTail := !blankLineFollows (cs.drop n), indent := none } xs
          else takeRaw (n - 1) { pos with stack, raw } xs
        | _ => takeRaw (n - 1) { pos with raw } xs
      else
        let standalone (block : Bool) :=
          if block && pos.indent.isSome then
            rawPieces text (cs.drop n) ++ takeRaw (n - 1)
              { inTail := !blankLineFollows (cs.drop n), indent := none } xs
          else copy
        match tag with
        | .opening name =>
          if isBlockElement name && (pos.inTail || pos.indent.isSome) then
            takeRaw (n - 1) { pos with stack := [name], raw } xs
          else copy
        | .closing _ => copy
        | .single name => standalone (isBlockElement name)
        | .comment => standalone true

/-! ## Chunks -/

/-- The pieces of a source. -/
def pieces (allowHtml : Bool) (source : String) : List Piece :=
  let lines := Text.lines (regularize source.toList)
  let fenced := takeFences (lines.length + 1) lines
  if allowHtml then takeRaw 0 {} fenced else fenced

/-- A stretch of text, or finished markup. -/
inductive Chunk where
  /-- Text. -/
  | text (cs : List Char)
  /-- Finished markup. -/
  | html (markup : List Char)

/-- Gathers the characters between markup. -/
def chunks : List Piece → List Chunk
  | [] => []
  | .html m :: xs => .html m :: chunks xs
  | .char c :: xs =>
    match chunks xs with
    | .text cs :: rest => .text (c :: cs) :: rest
    | rest => .text [c] :: rest

end SymbolDocs.Markdown
