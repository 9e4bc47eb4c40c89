import SymbolDocs.Markup.Escape
import SymbolDocs.Text.Blank
import SymbolDocs.Text.Digit
import SymbolDocs.Text.Search

/-!
# Highlighted code

Code samples are shown with a style for each kind of token. The code is cut into classed characters;
in each line the neighbouring characters of one class make one element, so no element spans a line end.

* `Language` is what can be told apart, `Language.ofName` finds it by name;
* `tokenize` gives every character its class;
* `highlight` is the markup of a sample.
-/

namespace SymbolDocs.Code

/-- What a sample is written in. -/
inductive Language where
  /-- Nothing in particular. -/
  | plain
  /-- TypeScript. -/
  | typescript
  /-- HTML. -/
  | html
  deriving DecidableEq

/-- The language with a name, in any casing. -/
def Language.ofName (name : String) : Language :=
  let key := String.ofList (name.toList.map Char.toLower)
  if key == "typescript" || key == "ts" then .typescript
  else if key == "html" then .html
  else .plain

/-- Letters and other characters a name of the language can start with. -/
def startsName (c : Char) : Bool :=
  c.isAlpha || c == '_' || c == '$' || 127 < c.toNat

/-- Characters a name can hold. -/
def isNameChar (c : Char) : Bool :=
  startsName c || Text.isAsciiDigit c

/-- A quoted text from its opening quote to its closing one; a backslash keeps the next character. -/
def quotedLength (q : Char) : List Char → Option Nat
  | [] => none
  | '\\' :: _ :: rest => (quotedLength q rest).map (· + 2)
  | c :: rest => if c = q then some 1 else (quotedLength q rest).map (· + 1)

/-- The class of a word. -/
def wordStyle (w : List Char) : String :=
  if w == "const".toList || w == "let".toList then "kd"
  else if w == "new".toList then "ow"
  else "nx"

/-- The length of a number: digits, a point with digits, an exponent. -/
def numberLength (cs : List Char) : Nat :=
  let whole := (cs.takeWhile Text.isAsciiDigit).length
  match cs.drop whole with
  | '.' :: rest => whole + 1 + (rest.takeWhile Text.isAsciiDigit).length
  | _ => whole

/-- The first token of TypeScript code: its class and its length. -/
def scriptToken (cs : List Char) : String × Nat :=
  match cs with
  | [] => ("", 0)
  | c :: rest =>
    if Text.isBlank c then ("w", (cs.takeWhile Text.isBlank).length)
    else if startsName c then
      let w := cs.takeWhile isNameChar
      (wordStyle w, w.length)
    else if Text.isAsciiDigit c then ("mf", numberLength cs)
    else if c = '/' && rest.head? = some '/' then ("c1", (cs.takeWhile (· != '\n')).length)
    else if c = '"' || c = '\x27' then
      match quotedLength c rest with
      | some n => (if c = '"' then "s2" else "s1", n + 1)
      | none => ("err", 1)
    else if ['(', ')', ',', ';', '.', '[', ']', '\x7b', '\x7d'].contains c then ("p", 1)
    else ("o", 1)

/-- Cuts TypeScript code; `skip` characters belong to a token of class `style` already opened. -/
def scriptTokens : Nat → String → List Char → List (String × Char)
  | _, _, [] => []
  | skip + 1, style, c :: cs => (style, c) :: scriptTokens skip style cs
  | 0, _, c :: cs =>
    let (style, n) := scriptToken (c :: cs)
    (style, c) :: scriptTokens (n - 1) style cs

/-- Where in HTML code the reader is. -/
inductive Position where
  /-- Between elements. -/
  | text
  /-- At the name of an element. -/
  | name
  /-- Among the attributes of an element. -/
  | attributes
  /-- At the value of an attribute. -/
  | value
  deriving DecidableEq

/-- Characters of element and attribute names. -/
def isTagChar (c : Char) : Bool :=
  c.isAlphanum || c == '_' || c == ':' || c == '-' || c == '.' || 127 < c.toNat

/-- The first token of HTML code at a position: its class, its length, and the position after it. -/
def markupToken (pos : Position) (cs : List Char) : String × Nat × Position :=
  match pos, cs with
  | _, [] => ("", 0, pos)
  | .text, '<' :: '/' :: c :: _ => if isTagChar c then ("p", 2, .name) else ("", 1, .text)
  | .text, '<' :: c :: _ => if isTagChar c then ("p", 1, .name) else ("", 1, .text)
  | .text, _ => ("", 1, .text)
  | .name, _ => ("nt", (cs.takeWhile isTagChar).length, .attributes)
  | .attributes, '>' :: _ => ("p", 1, .text)
  | .attributes, '/' :: '>' :: _ => ("p", 2, .text)
  | .attributes, '=' :: _ => ("o", 1, .value)
  | .attributes, c :: _ =>
    if Text.isBlank c then ("", 1, .attributes)
    else if isTagChar c then ("na", (cs.takeWhile isTagChar).length, .attributes)
    else ("err", 1, .attributes)
  | .value, c :: rest =>
    if Text.isBlank c then ("", 1, .value)
    else if c = '"' || c = '\x27' then
      ("s", min cs.length ((rest.takeWhile (· != c)).length + 2), .attributes)
    else ("s", (cs.takeWhile fun c => !(Text.isBlank c || c == '>')).length, .attributes)

/-- Cuts HTML code; `skip` characters belong to a token of class `style` already opened. -/
def markupTokens : Nat → String → Position → List Char → List (String × Char)
  | _, _, _, [] => []
  | skip + 1, style, pos, c :: cs => (style, c) :: markupTokens skip style pos cs
  | 0, _, pos, c :: cs =>
    let (style, n, pos) := markupToken pos (c :: cs)
    (style, c) :: markupTokens (n - 1) style pos cs

/-- Every character of a sample with its class. -/
def tokenize (lang : Language) (cs : List Char) : List (String × Char) :=
  match lang with
  | .plain => cs.map fun c => ("", c)
  | .typescript => scriptTokens 0 "" cs
  | .html => markupTokens 0 "" .text cs

/-- A sample without line ends around it and with one at its end. -/
def prepare (code : String) : List Char :=
  let cs := Text.normalizeBreaks code.toList
  let cs := if cs.head? = some '\uFEFF' then cs.tail else cs
  Text.trimWhile (· == '\n') cs ++ ['\n']

/-- A run of characters of one class as markup. -/
def runMarkup (style : String) (run : List Char) : String :=
  let code := Markup.escapeCode (String.ofList run)
  if style = "" then code else "<span class=\"" ++ style ++ "\">" ++ code ++ "</span>"

/-- Prints classed characters; `run` is the run being collected, last character first. -/
def printTokens : String → List Char → List (String × Char) → String
  | style, run, [] => if run.isEmpty then "" else runMarkup style run.reverse
  | style, run, (s, c) :: rest =>
    if c = '\n' then
      (if run.isEmpty then "" else runMarkup style run.reverse) ++ "\n" ++ printTokens "" [] rest
    else if run.isEmpty then printTokens s [c] rest
    else if s = style then printTokens style (c :: run) rest
    else runMarkup style run.reverse ++ printTokens s [c] rest

/-- The code of a sample as markup, lines and all. -/
def codeMarkup (code : String) (lang : Language) : String :=
  printTokens "" [] (tokenize lang (prepare code))

/-- A highlighted sample. -/
def highlight (code : String) (lang : Language) : String :=
  "<div class=\"highlight\"><pre><span></span>" ++ codeMarkup code lang ++ "</pre></div>\n"

/-- A highlighted sample inside running text. -/
def highlightBlock (code : String) (lang : Language) : String :=
  "<div class=\"highlight\"><pre><span></span><code>" ++ codeMarkup code lang ++
    "</code></pre></div>\n"

end SymbolDocs.Code
