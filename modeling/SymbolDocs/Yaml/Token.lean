import SymbolDocs.Text.Digit
import SymbolDocs.Text.Search

/-!
# The tokens of YAML

YAML text is cut into tokens. Outside brackets the columns count: a line further to the right opens a
list or a mapping, a line further to the left closes what it leaves. Whether a scalar is the key of a
mapping is known only at the colon after it, so places where a key may start are remembered and the
token of the key is set in front of it later.

* `Cursor` is a place in the text;
* `Token` is what the text is cut into;
* `scan?` cuts it; there is no answer where the text is malformed.
-/

namespace SymbolDocs.Yaml

/-! ## Characters and places -/

/-- The end of a line. -/
def isBreak (c : Char) : Bool :=
  let n := c.toNat
  n == 10 || n == 13 || n == 0x85 || n == 0x2028 || n == 0x2029

/-- The character read behind the end of the text; it does not occur in it. -/
def endMark : Char := '\x00'

/-- The end of a line or of the text. -/
def isBreakOrEnd (c : Char) : Bool :=
  isBreak c || c == endMark

/-- A blank, a tab, or an end. -/
def isGap (c : Char) : Bool :=
  isBreakOrEnd c || c == ' ' || c == '\t'

/-- The characters that can occur. -/
def isAllowed (c : Char) : Bool :=
  let n := c.toNat
  n == 9 || n == 10 || n == 13 || (0x20 ≤ n && n ≤ 0x7E) || n == 0x85 ||
    (0xA0 ≤ n && n ≤ 0xFFFD) || 0x10000 ≤ n

/-- A place in the text. -/
structure Cursor where
  /-- What follows. -/
  rest : List Char
  /-- How many characters lie before. -/
  index : Nat := 0
  /-- How many lines lie before. -/
  line : Nat := 0
  /-- How many characters of the line lie before. -/
  column : Nat := 0

namespace Cursor

/-- The character `k` places ahead. -/
def peek (c : Cursor) (k : Nat := 0) : Char :=
  c.rest.getD k endMark

/-- One character on. -/
def step (c : Cursor) : Cursor :=
  match c.rest with
  | [] => c
  | x :: rest =>
    if isBreak x && !(x == '\r' && rest.head? == some '\n') then
      ⟨rest, c.index + 1, c.line + 1, 0⟩
    else ⟨rest, c.index + 1, c.line, if x.toNat == 0xFEFF then c.column else c.column + 1⟩

/-- So many characters on. -/
def forward : Nat → Cursor → Cursor
  | 0, c => c
  | n + 1, c => forward n c.step

/-- The characters in front that satisfy `p`. -/
def front (p : Char → Bool) (c : Cursor) : List Char :=
  c.rest.takeWhile p

/-- Past the characters in front that satisfy `p`. -/
def skip (p : Char → Bool) (c : Cursor) : Cursor :=
  c.forward (c.front p).length

/-- The end of a line in front, as it is written in a value, and the place after it. -/
def takeBreak (c : Cursor) : List Char × Cursor :=
  let x := c.peek
  if x == '\r' && c.peek 1 == '\n' then (['\n'], c.forward 2)
  else if x.toNat == 0x2028 || x.toNat == 0x2029 then ([x], c.step)
  else if isBreak x then (['\n'], c.step)
  else ([], c)

/-- Does the mark between documents stand in front? -/
def atSeparator (c : Cursor) : Bool :=
  let mark := c.rest.take 3
  (mark == ['-', '-', '-'] || mark == ['.', '.', '.']) && isGap (c.peek 3)

end Cursor

/-! ## Quoted scalars -/

/-- The character that a letter after a backslash stands for. -/
def escapeLetter? (c : Char) : Option Char :=
  match c with
  | '0' => some '\x00'
  | 'a' => some '\x07'
  | 'b' => some '\x08'
  | 't' => some '\t'
  | '\t' => some '\t'
  | 'n' => some '\n'
  | 'v' => some '\x0b'
  | 'f' => some '\x0c'
  | 'r' => some '\r'
  | 'e' => some '\x1b'
  | ' ' => some ' '
  | '"' => some '"'
  | '\\' => some '\\'
  | '/' => some '/'
  | 'N' => some '\u0085'
  | '_' => some '\u00a0'
  | 'L' => some '\u2028'
  | 'P' => some '\u2029'
  | _ => none

/-- How many digits follow a letter after a backslash. -/
def escapeWidth? (c : Char) : Option Nat :=
  match c with
  | 'x' => some 2
  | 'u' => some 4
  | 'U' => some 8
  | _ => none

/-- Empty lines inside a quoted scalar; a mark between documents may not stand there. -/
def quotedBreaks : Nat → Cursor → Option (List Char × Cursor)
  | 0, _ => none
  | fuel + 1, c =>
    if c.atSeparator then none
    else
      let c := c.skip fun x => x == ' ' || x == '\t'
      if isBreak c.peek then
        let (b, c) := c.takeBreak
        (quotedBreaks fuel c).map fun (bs, c) => (b ++ bs, c)
      else some ([], c)

/-- What a line end, with the empty lines after it, stands for: a blank when there are none. -/
def foldBreak (b breaks : List Char) : List Char :=
  if b ≠ ['\n'] then b ++ breaks else if breaks.isEmpty then [' '] else breaks

/-- The rest of a quoted scalar after its opening quote. Each step passes over a character. -/
def quotedText (double : Bool) : Nat → Cursor → Option (List Char × Cursor)
  | 0, _ => none
  | fuel + 1, c =>
    let x := c.peek
    let more (text : List Char) (c : Cursor) : Option (List Char × Cursor) :=
      (quotedText double fuel c).map fun (t, c) => (text ++ t, c)
    if x == endMark then none
    else if x == ' ' || x == '\t' then
      let blanks := c.front fun y => y == ' ' || y == '\t'
      let c := c.forward blanks.length
      if isBreak c.peek then more [] c else more blanks c
    else if isBreak x then
      let (b, c) := c.takeBreak
      (quotedBreaks (c.rest.length + 1) c).bind fun (breaks, c) => more (foldBreak b breaks) c
    else if double then
      if x == '"' then some ([], c.step)
      else if x == '\\' then
        let y := c.peek 1
        match escapeLetter? y with
        | some z => more [z] (c.forward 2)
        | none =>
          match escapeWidth? y with
          | some width =>
            let digits := (c.rest.drop 2).take width
            if digits.length = width && digits.all fun d => (Text.hexValue? d).isSome then
              let n := digits.foldl (fun n d => 16 * n + (Text.hexValue? d).getD 0) 0
              if n < 0x110000 then
                let z := if n.isValidChar then Char.ofNat n else '\uFFFD'
                more [z] (c.forward (2 + width))
              else none
            else none
          | none =>
            if isBreak y then
              let (_, c) := c.step.takeBreak
              (quotedBreaks (c.rest.length + 1) c).bind fun (breaks, c) => more breaks c
            else none
      else more [x] c.step
    else if x == '\x27' then
      if c.peek 1 == '\x27' then more ['\x27'] (c.forward 2) else some ([], c.step)
    else more [x] c.step

/-! ## Block scalars -/

/-- What becomes of the line ends behind a block scalar. -/
inductive Chomping where
  /-- One is kept. -/
  | clip
  /-- All are kept. -/
  | keep
  /-- None is kept. -/
  | strip
  deriving DecidableEq

/-- The header of a block scalar: what becomes of its end, and its indent when that is given. -/
def blockHeader? (c : Cursor) : Option (Chomping × Option Nat × Cursor) :=
  let chomping? (x : Char) : Option Chomping :=
    if x == '+' then some .keep else if x == '-' then some .strip else none
  let digit? (x : Char) : Option Nat :=
    if Text.isAsciiDigit x then some (Text.natOfDigits [x]) else none
  let found : Chomping × Option Nat × Cursor :=
    match chomping? c.peek with
    | some ch =>
      match digit? (c.peek 1) with
      | some d => (ch, some d, c.forward 2)
      | none => (ch, none, c.step)
    | none =>
      match digit? c.peek with
      | some d =>
        match chomping? (c.peek 1) with
        | some ch => (ch, some d, c.forward 2)
        | none => (.clip, some d, c.step)
      | none => (.clip, none, c)
  let (ch, width, c) := found
  if width = some 0 || !(isBreakOrEnd c.peek || c.peek == ' ') then none
  else
    let c := c.skip (· == ' ')
    let c := if c.peek == '#' then c.skip (fun x => !isBreakOrEnd x) else c
    if isBreakOrEnd c.peek then some (ch, width, c.takeBreak.2) else none

/-- Past blanks up to a column. -/
def skipIndent (indent : Nat) (c : Cursor) : Cursor :=
  c.forward (min (c.front (· == ' ')).length (indent - c.column))

/-- Empty lines before a line with the given indent. -/
def blockBreaks (indent : Nat) : Nat → Cursor → List Char × Cursor
  | 0, c => ([], c)
  | fuel + 1, c =>
    let c := skipIndent indent c
    if isBreak c.peek then
      let (b, c) := c.takeBreak
      let (bs, c) := blockBreaks indent fuel c
      (b ++ bs, c)
    else ([], c)

/-- Empty lines before the first line of a block scalar, and the widest indent met. -/
def blockIndentation : Nat → Nat → Cursor → List Char × Nat × Cursor
  | 0, widest, c => ([], widest, c)
  | fuel + 1, widest, c =>
    if c.peek == ' ' then
      let c := c.step
      blockIndentation fuel (max widest c.column) c
    else if isBreak c.peek then
      let (b, c) := c.takeBreak
      let (bs, widest, c) := blockIndentation fuel widest c
      (b ++ bs, widest, c)
    else ([], widest, c)

/-- The lines of a block scalar; `breaks` are the empty lines before this one. The answer has the line
end of the last line and the empty lines after it apart. -/
def blockLines (folded : Bool) (indent : Nat) :
    Nat → List Char → List Char → Cursor → List Char × List Char × List Char × Cursor
  | 0, last, breaks, c => ([], last, breaks, c)
  | fuel + 1, last, breaks, c =>
    if c.column = indent && c.peek != endMark then
      let text := c.front fun x => !isBreakOrEnd x
      let flush := !(c.peek == ' ' || c.peek == '\t')
      let (b, next) := (c.forward text.length).takeBreak
      let (breaks', next) := blockBreaks indent (next.rest.length + 1) next
      if next.column = indent && next.peek != endMark then
        let glue :=
          if folded && b == ['\n'] && flush && !(next.peek == ' ' || next.peek == '\t') then
            if breaks'.isEmpty then [' '] else []
          else b
        let (more, last, breaks'', next) := blockLines folded indent fuel b breaks' next
        (breaks ++ text ++ glue ++ more, last, breaks'', next)
      else (breaks ++ text, b, breaks', next)
    else ([], last, breaks, c)

/-- A block scalar after its mark, inside something indented by `outer`. -/
def blockText? (folded : Bool) (outer : Int) (c : Cursor) : Option (List Char × Cursor) :=
  (blockHeader? c).map fun (chomping, width, c) =>
    let least := (max 1 (outer + 1)).toNat
    let (breaks, indent, c) :=
      match width with
      | none =>
        let (breaks, widest, c) := blockIndentation (c.rest.length + 1) 0 c
        (breaks, max least widest, c)
      | some w =>
        let indent := least + w - 1
        let (breaks, c) := blockBreaks indent (c.rest.length + 1) c
        (breaks, indent, c)
    let (text, last, breaks, c) := blockLines folded indent (c.rest.length + 1) [] breaks c
    let text :=
      match chomping with
      | .clip => text ++ last
      | .keep => text ++ last ++ breaks
      | .strip => text
    (text, c)

/-! ## Plain scalars -/

/-- How many characters of a plain scalar stand in front. -/
def plainRun (inFlow : Bool) : List Char → List Char
  | [] => []
  | x :: rest =>
    let next := rest.headD endMark
    let closes := isGap next || (inFlow && [',', '[', ']', '\x7b', '\x7d'].contains next)
    if isGap x || (x == ':' && closes) ||
        (inFlow && [',', '?', '[', ']', '\x7b', '\x7d'].contains x) then []
    else x :: plainRun inFlow rest

/-- Empty lines inside a plain scalar; none before a mark between documents. -/
def plainBreaks : Nat → Cursor → Option (List Char) × Cursor
  | 0, c => (none, c)
  | fuel + 1, c =>
    if c.peek == ' ' then plainBreaks fuel c.step
    else if isBreak c.peek then
      let (b, c) := c.takeBreak
      if c.atSeparator then (none, c)
      else
        let (bs, c) := plainBreaks fuel c
        (bs.map (b ++ ·), c)
    else (some [], c)

/-- What stands between two words of a plain scalar, nothing where it ends, and whether a line ends
there. -/
def plainSpaces (c : Cursor) : Option (List Char) × Bool × Cursor :=
  let blanks := c.front (· == ' ')
  let c := c.forward blanks.length
  if isBreak c.peek then
    let (b, c) := c.takeBreak
    if c.atSeparator then (none, true, c)
    else
      let (breaks, c) := plainBreaks (c.rest.length + 1) c
      (breaks.map (foldBreak b), true, c)
  else (if blanks.isEmpty then none else some blanks, false, c)

/-- A plain scalar inside something indented up to `indent`; `spaces` stand before the next word. The
answer tells whether a line end was passed after the last word. -/
def plainText (inFlow : Bool) (indent : Int) :
    Nat → List Char → Bool → Cursor → List Char × Bool × Cursor
  | 0, _, newLine, c => ([], newLine, c)
  | fuel + 1, spaces, newLine, c =>
    let word := plainRun inFlow c.rest
    if c.peek == '#' || word.isEmpty then ([], newLine, c)
    else
      let (gap, newLine, c) := plainSpaces (c.forward word.length)
      match gap with
      | none => (spaces ++ word, newLine, c)
      | some gap =>
        if c.peek == '#' || (!inFlow && (c.column : Int) < indent) then (spaces ++ word, newLine, c)
        else
          let (more, newLine, c) := plainText inFlow indent fuel gap newLine c
          (spaces ++ word ++ more, newLine, c)

/-! ## Tokens -/

/-- What YAML text is cut into. -/
inductive Token where
  /-- The mark that opens a document. -/
  | documentStart
  /-- The mark that closes a document. -/
  | documentEnd
  /-- A list by columns opens. -/
  | blockList
  /-- A mapping by columns opens. -/
  | blockMap
  /-- A list or mapping by columns closes. -/
  | blockEnd
  /-- A list in brackets opens. -/
  | listStart
  /-- A list in brackets closes. -/
  | listEnd
  /-- A mapping in braces opens. -/
  | mapStart
  /-- A mapping in braces closes. -/
  | mapEnd
  /-- The dash before an item. -/
  | item
  /-- The comma between items. -/
  | comma
  /-- A key follows. -/
  | key
  /-- A value follows. -/
  | value
  /-- A value given a name elsewhere. -/
  | alias (name : String)
  /-- A name for the value that follows. -/
  | anchor (name : String)
  /-- A scalar, plain or not. -/
  | scalar (plain : Bool) (text : String)
  deriving DecidableEq, Inhabited

/-- A place where a key may have started. -/
structure KeyPlace where
  /-- How many tokens stand before it. -/
  position : Nat
  /-- Has it to be a key? -/
  required : Bool
  /-- The place in the text. -/
  index : Nat
  /-- Its line. -/
  line : Nat
  /-- Its column. -/
  column : Nat

/-- What the scanner knows. -/
structure Scanner where
  /-- The place in the text. -/
  cursor : Cursor
  /-- The tokens so far. -/
  tokens : Array Token := #[]
  /-- How many brackets are open. -/
  depth : Nat := 0
  /-- The column of the innermost list or mapping by columns. -/
  indent : Int := -1
  /-- The columns of those around it. -/
  indents : List Int := []
  /-- May a key start here? -/
  allowKey : Bool := true
  /-- The place where a key may have started, by the number of open brackets. -/
  keys : List (Nat × KeyPlace) := []

namespace Scanner

/-- Adds a token. -/
def push (s : Scanner) (t : Token) : Scanner :=
  { s with tokens := s.tokens.push t }

/-- Sets a token in front of the one at a position. -/
def insert (s : Scanner) (position : Nat) (t : Token) : Scanner :=
  { s with tokens := s.tokens.insertIdxIfInBounds position t }

/-- So many characters on. -/
def forward (s : Scanner) (n : Nat) : Scanner :=
  { s with cursor := s.cursor.forward n }

/-- Forgets the place of a key at this depth; one that has to be a key may not be forgotten. -/
def dropKey? (s : Scanner) : Option Scanner :=
  match s.keys.lookup s.depth with
  | some key =>
    if key.required then none else some { s with keys := s.keys.filter fun e => e.1 != s.depth }
  | none => some s

/-- Remembers that a key may start here. -/
def saveKey? (s : Scanner) : Option Scanner :=
  if s.allowKey then
    (s.dropKey?).map fun s =>
      let required := s.depth = 0 && s.indent = (s.cursor.column : Int)
      let key := ⟨s.tokens.size, required, s.cursor.index, s.cursor.line, s.cursor.column⟩
      { s with keys := (s.depth, key) :: s.keys }
  else some s

/-- Can a place no longer be that of a key? A key stands on one line and is not long. -/
def isStale (s : Scanner) (key : KeyPlace) : Bool :=
  key.line != s.cursor.line || 1024 < s.cursor.index - key.index

/-- Forgets the places that can no longer be those of keys. -/
def dropStale? (s : Scanner) : Option Scanner :=
  if s.keys.any fun e => e.2.required && s.isStale e.2 then none
  else some { s with keys := s.keys.filter fun e => !s.isStale e.2 }

/-- Closes what stands further to the right than a column. -/
def unwind (s : Scanner) (column : Int) : List Int → Scanner
  | [] => s
  | outer :: rest =>
    if column < s.indent then
      unwind { s.push .blockEnd with indent := outer, indents := rest } column rest
    else s

/-- Closes what stands further to the right than a column, outside brackets. -/
def unwindTo (s : Scanner) (column : Int) : Scanner :=
  if s.depth = 0 then s.unwind column s.indents else s

/-- Opens a list or mapping at a column further to the right; the token goes to a position. -/
def openAt (s : Scanner) (column : Nat) (position : Nat) (t : Token) : Scanner :=
  if s.indent < (column : Int) then
    { s.insert position t with indents := s.indent :: s.indents, indent := column }
  else s

/-- Past blanks, comments and line ends. -/
def skipToToken : Nat → Scanner → Scanner
  | 0, s => s
  | fuel + 1, s =>
    let c := s.cursor.skip (· == ' ')
    let c := if c.peek == '#' then c.skip (fun x => !isBreakOrEnd x) else c
    if isBreak c.peek then
      skipToToken fuel
        { s with cursor := c.takeBreak.2, allowKey := s.allowKey || s.depth = 0 }
    else { s with cursor := c }

/-- A mark of three characters between documents. -/
def documentMark? (s : Scanner) (t : Token) : Option Scanner :=
  ((s.unwindTo (-1)).dropKey?).map fun s =>
    { (s.forward 3).push t with allowKey := false }

/-- An opening bracket. -/
def openBracket? (s : Scanner) (t : Token) : Option Scanner :=
  (s.saveKey?).map fun s =>
    { (s.forward 1).push t with depth := s.depth + 1, allowKey := true }

/-- A closing bracket. -/
def closeBracket? (s : Scanner) (t : Token) : Option Scanner :=
  if s.depth = 0 then none
  else
    (s.dropKey?).map fun s =>
      { (s.forward 1).push t with depth := s.depth - 1, allowKey := false }

/-- A comma. -/
def comma? (s : Scanner) : Option Scanner :=
  (s.dropKey?).map fun s => { (s.forward 1).push .comma with allowKey := true }

/-- The dash before an item. -/
def item? (s : Scanner) : Option Scanner :=
  if s.depth = 0 && !s.allowKey then none
  else
    let s := if s.depth = 0 then s.openAt s.cursor.column s.tokens.size .blockList else s
    (s.dropKey?).map fun s => { (s.forward 1).push .item with allowKey := true }

/-- The question mark before a key. -/
def keyMark? (s : Scanner) : Option Scanner :=
  if s.depth = 0 && !s.allowKey then none
  else
    let s := if s.depth = 0 then s.openAt s.cursor.column s.tokens.size .blockMap else s
    (s.dropKey?).map fun s => { (s.forward 1).push .key with allowKey := s.depth = 0 }

/-- The colon before a value. -/
def colon? (s : Scanner) : Option Scanner :=
  match s.keys.lookup s.depth with
  | some key =>
    let s := { s with keys := s.keys.filter fun e => e.1 != s.depth }
    let s := s.insert key.position .key
    let s := if s.depth = 0 then s.openAt key.column key.position .blockMap else s
    some { (s.forward 1).push .value with allowKey := false }
  | none =>
    if s.depth = 0 && !s.allowKey then none
    else
      let s := if s.depth = 0 then s.openAt s.cursor.column s.tokens.size .blockMap else s
      some { (s.forward 1).push .value with allowKey := s.depth = 0 }

/-- The name after an ampersand or an asterisk. -/
def named? (s : Scanner) (make : String → Token) : Option Scanner :=
  (s.saveKey?).bind fun s =>
    let name := s.cursor.step.front fun x => x.isAlphanum || x == '-' || x == '_'
    let after := s.cursor.peek (name.length + 1)
    let closes := isGap after || ['?', ':', ',', ']', '\x7d', '%', '@', '\x60'].contains after
    if name.isEmpty || !closes then none
    else
      some { (s.forward (name.length + 1)).push (make (String.ofList name)) with allowKey := false }

/-- A block scalar. -/
def block? (s : Scanner) (folded : Bool) : Option Scanner :=
  (s.dropKey?).bind fun s =>
    (blockText? folded s.indent s.cursor.step).map fun (text, cursor) =>
      { s.push (.scalar false (String.ofList text)) with cursor, allowKey := true }

/-- A quoted scalar. -/
def quoted? (s : Scanner) (double : Bool) : Option Scanner :=
  (s.saveKey?).bind fun s =>
    (quotedText double (s.cursor.rest.length + 1) s.cursor.step).map fun (text, cursor) =>
      { s.push (.scalar false (String.ofList text)) with cursor, allowKey := false }

/-- A plain scalar. -/
def plain? (s : Scanner) : Option Scanner :=
  (s.saveKey?).map fun s =>
    let (text, newLine, cursor) :=
      plainText (s.depth != 0) (s.indent + 1) (s.cursor.rest.length + 1) [] false s.cursor
    { s.push (.scalar true (String.ofList text)) with cursor, allowKey := newLine }

/-- Can a plain scalar start here? -/
def startsPlain (s : Scanner) : Bool :=
  let x := s.cursor.peek
  let indicators :=
    ['-', '?', ':', ',', '[', ']', '\x7b', '\x7d', '#', '&', '*', '!', '|', '>', '\x27', '"', '%',
      '@', '\x60']
  !(isGap x || indicators.contains x) ||
    (!isGap (s.cursor.peek 1) && (x == '-' || (s.depth = 0 && (x == '?' || x == ':'))))

/-- The next token, somewhere in the text. -/
def token? (s : Scanner) : Option Scanner :=
  let x := s.cursor.peek
  let gapAfter := isGap (s.cursor.peek 1)
  let atMark := s.cursor.column = 0 && s.cursor.atSeparator
  if x == '-' && atMark then s.documentMark? .documentStart
  else if x == '.' && atMark then s.documentMark? .documentEnd
  else if x == '[' then s.openBracket? .listStart
  else if x == '\x7b' then s.openBracket? .mapStart
  else if x == ']' then s.closeBracket? .listEnd
  else if x == '\x7d' then s.closeBracket? .mapEnd
  else if x == ',' then s.comma?
  else if x == '-' && gapAfter then s.item?
  else if x == '?' && (s.depth != 0 || gapAfter) then s.keyMark?
  else if x == ':' && (s.depth != 0 || gapAfter) then s.colon?
  else if x == '*' then s.named? .alias
  else if x == '&' then s.named? .anchor
  else if x == '|' && s.depth = 0 then s.block? false
  else if x == '>' && s.depth = 0 then s.block? true
  else if x == '\x27' then s.quoted? false
  else if x == '"' then s.quoted? true
  else if s.startsPlain then s.plain?
  else none

/-- All tokens. Each passes over a character at least. -/
def run? : Nat → Scanner → Option (List Token)
  | 0, _ => none
  | fuel + 1, s =>
    let s := skipToToken (s.cursor.rest.length + 1) s
    (s.dropStale?).bind fun s =>
      let s := s.unwindTo s.cursor.column
      if s.cursor.rest.isEmpty then
        ((s.unwindTo (-1)).dropKey?).map fun s => s.tokens.toList
      else (s.token?).bind (run? fuel)

end Scanner

/-- The tokens of a text. A mark of the byte order in front does not count. -/
def scan? (text : String) : Option (List Token) :=
  let cs := text.toList
  let cs := if cs.head? = some '\uFEFF' then cs.tail else cs
  if cs.all isAllowed then Scanner.run? (cs.length + 2) { cursor := { rest := cs } } else none

end SymbolDocs.Yaml
