import SymbolDocs.Text.Blank
import SymbolDocs.Text.Digit
import SymbolDocs.Text.Search

/-!
# Markdown inside a line

Running text is read in stages. Each stage goes over the whole text once and turns what it recognises
into a node that later stages step over: code spans, escaped characters, links, images, addresses,
line breaks, raw tags, entities, lone marks, and at last emphasis with asterisks and with underscores.
What stands inside a link or an emphasis goes through the stages after the one that made it.

* `Inline` is a character or a node;
* `parseInline` runs the stages.
-/

namespace SymbolDocs.Markdown

/-- A character of running text, or something recognised in it. -/
inductive Inline where
  /-- A character. -/
  | char (c : Char)
  /-- A character that means nothing but itself. -/
  | literal (c : Char)
  /-- A code span. -/
  | code (s : List Char)
  /-- An entity or a tag kept as it is. -/
  | raw (s : List Char)
  /-- A hard line break. -/
  | lineBreak
  /-- Emphasis. -/
  | emphasis (body : List Inline)
  /-- Strong emphasis. -/
  | strong (body : List Inline)
  /-- A link. -/
  | link (href : List Char) (title : Option (List Char)) (body : List Inline)
  /-- An image. -/
  | image (src : List Char) (title : Option (List Char)) (alt : List Char)
  deriving Inhabited

namespace Inline

/-- Is this the character? -/
def isChar (x : Char) : Inline → Bool
  | .char c => c == x
  | _ => false

/-- A blank character. -/
def isBlank : Inline → Bool
  | .char c => Text.isBlank c
  | _ => false

/-- A character of a word: a letter, a digit, an underscore, or a letter outside ASCII. -/
def isWord : Inline → Bool
  | .char c => c.isAlphanum || c == '_' || (127 < c.toNat && !Text.isBlank c)
  | _ => false

/-- The characters a node was made of, as an address or a description takes them. -/
def plainChars : Inline → List Char
  | .char c => [c]
  | .literal c => [c]
  | .code s => s
  | .raw s => s
  | _ => []

end Inline

open Inline

/-- The characters of a run. -/
def plainText (xs : List Inline) : List Char :=
  xs.flatMap Inline.plainChars

/-- How many of the character stand in front. -/
def runLength (c : Char) (xs : List Inline) : Nat :=
  (xs.takeWhile (isChar c)).length

/-! ## Code spans and escapes -/

/-- The end of a code span opened by `n` backticks: as soon as exactly `n` of them follow each other.
`acc` is the code passed, last character first. -/
def closeCode (n : Nat) : List Inline → List Inline → Option (List Inline × List Inline)
  | _, [] => none
  | acc, x :: xs =>
    let fresh :=
      match acc with
      | [] => false
      | p :: _ => !isChar '\x60' p
    if fresh && runLength '\x60' (x :: xs) = n then some (acc.reverse, (x :: xs).drop n)
    else closeCode n (x :: acc) xs

/-- A code span with at most `n` backticks at the front; as many as possible open it. -/
def codeSpan? (xs : List Inline) : Nat → Option (Inline × List Inline)
  | 0 => none
  | n + 1 =>
    match closeCode (n + 1) [] (xs.drop (n + 1)) with
    | some (body, rest) => some (.code (Text.trim (plainText body)), rest)
    | none => codeSpan? xs n

/-- Recognises code spans. `escaped` says whether a backslash stands before. -/
def codeStage : Nat → Bool → List Inline → List Inline
  | 0, _, xs => xs
  | _, _, [] => []
  | fuel + 1, escaped, x :: xs =>
    let slashes := runLength '\\' (x :: xs)
    if isChar '\x60' x && !escaped then
      match codeSpan? (x :: xs) (runLength '\x60' (x :: xs)) with
      | some (node, rest) => node :: codeStage fuel false rest
      | none => x :: codeStage fuel false xs
    else if isChar '\\' x && !escaped && slashes % 2 = 0 &&
        ((x :: xs).drop slashes).head?.any (isChar '\x60') then
      List.replicate (slashes / 2) (.literal '\\') ++ codeStage fuel false ((x :: xs).drop slashes)
    else x :: codeStage fuel (isChar '\\' x) xs

/-- The characters that a backslash makes literal. -/
def escapable : List Char :=
  ['\\', '\x60', '*', '_', '\x7b', '\x7d', '[', ']', '(', ')', '>', '#', '+', '-', '.', '!', '|']

/-- Recognises escaped characters. -/
def escapeStage : List Inline → List Inline
  | [] => []
  | .char '\\' :: .char c :: xs =>
    if escapable.contains c then .literal c :: escapeStage xs
    else .char '\\' :: .char c :: escapeStage xs
  | x :: xs => x :: escapeStage xs

/-! ## Emphasis -/

/-- Every way to cut before `n` marks in a row with at least `least` items in front, the nearest
first. `acc` is what has been passed, last item first. -/
def cuts (mark : Char) (n least : Nat) :
    List Inline → List Inline → List (List Inline × List Inline)
  | acc, xs =>
    let here :=
      if least ≤ acc.length && n ≤ runLength mark xs then [(acc.reverse, xs.drop n)] else []
    match xs with
    | [] => here
    | x :: rest => here ++ cuts mark n least (x :: acc) rest

/-- The first answer among the ways to cut. -/
def firstCut {α : Type} (f : List Inline × List Inline → Option α) :
    List (List Inline × List Inline) → Option α
  | [] => none
  | c :: cs =>
    match f c with
    | some a => some a
    | none => firstCut f cs

/-- A recognised emphasis: the patterns tried inside it start at the given number. -/
structure Emphasized where
  /-- Makes the node from the parsed parts. -/
  build : (List Inline → List Inline) → Inline
  /-- What follows. -/
  rest : List Inline

/-- Three marks, text, one mark, text, two marks: strong around emphasis. -/
def strongEmphasis? (mark : Char) (xs : List Inline) : Option Emphasized :=
  if 3 ≤ runLength mark xs then
    firstCut (fun (inner, after) =>
      firstCut (fun (outer, rest) =>
        some ⟨fun sub => .strong (.emphasis (sub inner) :: sub outer), rest⟩)
        (cuts mark 2 0 [] after))
      (cuts mark 1 1 [] (xs.drop 3))
  else none

/-- Three marks, text, two marks, text, one mark: emphasis around strong. -/
def emphasisStrong? (mark : Char) (xs : List Inline) : Option Emphasized :=
  if 3 ≤ runLength mark xs then
    firstCut (fun (inner, after) =>
      firstCut (fun (outer, rest) =>
        some ⟨fun sub => .emphasis (.strong (sub inner) :: sub outer), rest⟩)
        (cuts mark 1 0 [] after))
      (cuts mark 2 1 [] (xs.drop 3))
  else none

/-- Two marks, text, one mark, text, three marks: strong that ends in emphasis. -/
def strongThenEmphasis? (xs : List Inline) : Option Emphasized :=
  if runLength '*' xs = 2 then
    let inner := (xs.drop 2).takeWhile fun x => !isChar '*' x
    let after := (xs.drop 2).drop inner.length
    if !inner.isEmpty && runLength '*' after = 1 then
      firstCut (fun (last, rest) =>
        some ⟨fun sub => .strong (sub inner ++ [.emphasis (sub last)]), rest⟩)
        (cuts '*' 3 1 [] (after.drop 1))
    else none
  else none

/-- Two marks around text. -/
def strong? (xs : List Inline) : Option Emphasized :=
  if 2 ≤ runLength '*' xs then
    firstCut (fun (body, rest) => some ⟨fun sub => .strong (sub body), rest⟩)
      (cuts '*' 2 1 [] (xs.drop 2))
  else none

/-- One mark on each side of text without marks. -/
def emphasis? (xs : List Inline) : Option Emphasized :=
  let body := (xs.drop 1).takeWhile fun x => !isChar '*' x
  let rest := (xs.drop 1).drop body.length
  if body.isEmpty || rest.isEmpty then none
  else some ⟨fun sub => .emphasis (sub body), rest.drop 1⟩

/-- `n` underscores on each side of text, not inside a word. -/
def underscored? (n : Nat) (make : List Inline → Inline) (inWord : Bool) (xs : List Inline) :
    Option Emphasized :=
  if !inWord && runLength '_' xs = n then
    firstCut (fun (body, rest) =>
      if body.getLast?.any (isChar '_') || rest.head?.any isWord then none
      else some ⟨fun sub => make (sub body), rest⟩)
      (cuts '_' n 1 [] (xs.drop n))
  else none

/-- The patterns of a mark by number. `inWord` says whether a word character stands before. -/
def emphasisPattern (mark : Char) (inWord : Bool) (xs : List Inline) : Nat → Option Emphasized
  | 0 => strongEmphasis? mark xs
  | 1 => emphasisStrong? mark xs
  | 2 => if mark = '*' then strongThenEmphasis? xs else none
  | 3 => if mark = '*' then strong? xs else underscored? 2 .strong inWord xs
  | 4 => if mark = '*' then emphasis? xs else underscored? 1 .emphasis inWord xs
  | _ => none

/-- The first pattern from number `k` on that fits, with its number; five are left at most. -/
def firstPattern (mark : Char) (inWord : Bool) (xs : List Inline) :
    Nat → Nat → Option (Nat × Emphasized)
  | 0, _ => none
  | left + 1, k =>
    match emphasisPattern mark inWord xs k with
    | some e => some (k, e)
    | none => firstPattern mark inWord xs left (k + 1)

/-- Recognises emphasis by a mark, with the patterns from number `k` on. -/
def emphasisStage (mark : Char) : Nat → Nat → Bool → List Inline → List Inline
  | 0, _, _, xs => xs
  | _, _, _, [] => []
  | fuel + 1, k, inWord, x :: xs =>
    if isChar mark x then
      match firstPattern mark inWord (x :: xs) 5 k with
      | some (used, e) =>
        e.build (emphasisStage mark fuel (used + 1) false) :: emphasisStage mark fuel k false e.rest
      | none => x :: emphasisStage mark fuel k (isWord x) xs
    else x :: emphasisStage mark fuel k (isWord x) xs

mutual

/-- Recognises emphasis by underscores, also inside emphasis by asterisks. -/
def underscoreStage : List Inline → List Inline
  | xs => emphasisStage '_' (2 * xs.length + 2) 0 false (underscoreNodes xs)

/-- The same inside the nodes of a run. -/
def underscoreNodes : List Inline → List Inline
  | [] => []
  | .emphasis body :: xs => .emphasis (underscoreStage body) :: underscoreNodes xs
  | .strong body :: xs => .strong (underscoreStage body) :: underscoreNodes xs
  | x :: xs => x :: underscoreNodes xs

end

/-- Emphasis by asterisks, then by underscores. -/
def emphasisStages (xs : List Inline) : List Inline :=
  underscoreStage (emphasisStage '*' (2 * xs.length + 2) 0 false xs)

/-! ## Lone marks, entities, tags and line breaks -/

/-- Makes one to three marks literal that stand between blanks or at an end. `atStart` says whether
the text starts or a blank stands before. -/
def loneMarkStage : Nat → Bool → List Inline → List Inline
  | 0, _, xs => xs
  | _, _, [] => []
  | fuel + 1, atStart, x :: xs =>
    let mark := if isChar '*' x then '*' else '_'
    let n := runLength mark (x :: xs)
    let after := (x :: xs).drop n
    let closes := after.isEmpty || after.head?.any Inline.isBlank
    if atStart && 1 ≤ n && n ≤ 3 && closes then
      List.replicate n (.literal mark) ++ loneMarkStage fuel false after
    else x :: loneMarkStage fuel (Inline.isBlank x) xs

/-- The characters in front, up to the first node. -/
def leadingChars : List Inline → List Char
  | .char c :: xs => c :: leadingChars xs
  | _ => []

/-- The length of an entity in front. -/
def entityLength? (cs : List Char) : Option Nat :=
  match cs with
  | '&' :: rest =>
    let body :=
      match rest with
      | '#' :: 'x' :: r => (r.takeWhile fun c => (Text.hexValue? c).isSome).length + 2
      | '#' :: r => (r.takeWhile Text.isAsciiDigit).length + 1
      | r => (r.takeWhile Char.isAlphanum).length
    let least :=
      match rest with
      | '#' :: 'x' :: _ => 3
      | '#' :: _ => 2
      | _ => 1
    if least ≤ body && (rest.drop body).head? = some ';' then some (body + 2) else none
  | _ => none

/-- Is the text inside angle brackets a tag? It opens with a letter, after a slash perhaps, and its name
holds neither an at sign nor a blank. -/
def isTagBody (cs : List Char) : Bool :=
  let name := match cs with
    | '/' :: r => r
    | r => r
  match name with
  | c :: r => c.isAlpha && !((r.takeWhile (· != ' ')).contains '@')
  | [] => false

/-- The length of a tag or a comment in front. -/
def tagLength? (cs : List Char) : Option Nat :=
  match cs with
  | '<' :: '!' :: '-' :: '-' :: rest =>
    (Text.cutAt? "-->".toList rest).bind fun (body, _) =>
      if body.contains '\n' then none else some (body.length + 7)
  | '<' :: rest =>
    let body := rest.takeWhile fun c => !(c == '<' || c == '>')
    if (rest.drop body.length).head? = some '>' && isTagBody body then some (body.length + 2) else none
  | _ => none

/-- Keeps stretches of characters that `measure` recognises as they are; `skip` characters of one are
still to be passed over. -/
def rawStage (measure : List Char → Option Nat) : Nat → List Inline → List Inline
  | _, [] => []
  | skip + 1, _ :: xs => rawStage measure skip xs
  | 0, x :: xs =>
    let cs := leadingChars (x :: xs)
    match measure cs with
    | some n => .raw (cs.take n) :: rawStage measure (n - 1) xs
    | none => x :: rawStage measure 0 xs

/-- Recognises two blanks before a line end. -/
def breakStage : List Inline → List Inline
  | [] => []
  | .char ' ' :: .char ' ' :: .char '\n' :: xs => .lineBreak :: breakStage xs
  | x :: xs => x :: breakStage xs

/-! ## Addresses, images and links -/

/-- The length of the scheme of an address that is written out: `ftp` or `http`, secure or not. -/
def schemeLength? (cs : List Char) : Option Nat :=
  ["https://", "http://", "ftps://", "ftp://"].findSome? fun s =>
    if (cs.take s.length).map Char.toLower == s.toList then some s.length else none

/-- The length of an address between angle brackets in front. -/
def autolinkLength? (cs : List Char) : Option Nat :=
  match cs with
  | '<' :: rest =>
    let body := rest.takeWhile fun c => !(c == '<' || c == '>')
    if (schemeLength? body).isSome && (rest.drop body.length).head? = some '>' then
      some (body.length + 2)
    else none
  | _ => none

/-- Recognises addresses between angle brackets. -/
def autolinkStage : Nat → List Inline → List Inline
  | _, [] => []
  | skip + 1, _ :: xs => autolinkStage skip xs
  | 0, x :: xs =>
    let cs := leadingChars (x :: xs)
    match autolinkLength? cs with
    | some n =>
      let address := (cs.take (n - 1)).drop 1
      .link address none (address.map .literal) :: autolinkStage (n - 1) xs
    | none => x :: autolinkStage 0 xs

/-- The text up to the bracket that closes it, and the rest; `depth` brackets are open. -/
def bracketed : Nat → List Inline → Option (List Inline × List Inline)
  | _, [] => none
  | depth, x :: xs =>
    if isChar ']' x then
      if depth = 0 then some ([], xs)
      else (bracketed (depth - 1) xs).map fun (a, b) => (x :: a, b)
    else if isChar '[' x then (bracketed (depth + 1) xs).map fun (a, b) => (x :: a, b)
    else (bracketed depth xs).map fun (a, b) => (x :: a, b)

/-- Where an address in parentheses ends: what stands before the closing parenthesis and after it.
`depth` parentheses are open; a quote opens a title, inside which parentheses do not count unless the
quote is never closed before the end. -/
def parenthesized : Nat → Option Char → List Inline → Option (List Inline × List Inline)
  | _, _, [] => none
  | depth, quote, x :: xs =>
    let go (depth : Nat) (quote : Option Char) :=
      (parenthesized depth quote xs).map fun (a, b) => (x :: a, b)
    match quote with
    | some q => if isChar q x then go depth none else go depth quote
    | none =>
      if isChar '(' x then go (depth + 1) none
      else if isChar ')' x then if depth = 0 then some ([], xs) else go (depth - 1) none
      else if isChar '"' x then go depth (some '"')
      else if isChar '\x27' x then go depth (some '\x27')
      else go depth none

/-- The same when quotes mean nothing. -/
def parenthesizedPlain : Nat → List Inline → Option (List Inline × List Inline)
  | _, [] => none
  | depth, x :: xs =>
    let go (depth : Nat) := (parenthesizedPlain depth xs).map fun (a, b) => (x :: a, b)
    if isChar '(' x then go (depth + 1)
    else if isChar ')' x then if depth = 0 then some ([], xs) else go (depth - 1)
    else go depth

/-- Splits a title in quotes off the end of an address. -/
def splitTitle (cs : List Char) : List Char × Option (List Char) :=
  let body := Text.trimEnd cs
  match body.reverse with
  | q :: before =>
    if q = '"' || q = '\x27' then
      match Text.cutAt? [q] body with
      | some (address, title) =>
        if title.isEmpty || (before.takeWhile (· != q)).length = before.length then (cs, none)
        else
          (address, some ((Text.trim title.dropLast).map fun c => if Text.isBlank c then ' ' else c))
      | none => (cs, none)
    else (cs, none)
  | [] => (cs, none)

/-- The address and title in parentheses right after a bracket, and the rest. -/
def destination? (xs : List Inline) : Option (List Char × Option (List Char) × List Inline) :=
  match xs with
  | .char '(' :: rest =>
    let found :=
      match parenthesized 0 none rest with
      | some r => some r
      | none => parenthesizedPlain 0 rest
    found.map fun (inside, after) =>
      let cs := Text.trim (plainText inside)
      match cs with
      | '<' :: r =>
        match Text.cutAt? ['>'] r with
        | some (address, tail) =>
          if (Text.trim tail).isEmpty then (Text.trim address, none, after)
          else
            let (_, title) := splitTitle tail
            (Text.trim address, title, after)
        | none => (cs, none, after)
      | cs =>
        let (address, title) := splitTitle cs
        (Text.trim address, title, after)
  | _ => none

/-- Recognises images. -/
def imageStage : Nat → List Inline → List Inline
  | 0, xs => xs
  | _, [] => []
  | fuel + 1, .char '!' :: .char '[' :: xs =>
    let found := do
      let (alt, after) ← bracketed 0 xs
      let (src, title, rest) ← destination? after
      return (Inline.image src title (plainText alt), rest)
    match found with
    | some (node, rest) => node :: imageStage fuel rest
    | none => .char '!' :: .char '[' :: imageStage fuel xs
  | fuel + 1, x :: xs => x :: imageStage fuel xs

/-- The stages after links. -/
def stagesAfterLinks (allowHtml : Bool) (xs : List Inline) : List Inline :=
  let xs := imageStage (xs.length + 1) xs
  let xs := autolinkStage 0 xs
  let xs := breakStage xs
  let xs := if allowHtml then rawStage tagLength? 0 xs else xs
  let xs := rawStage entityLength? 0 xs
  let xs := loneMarkStage (xs.length + 1) true xs
  emphasisStages xs

/-- Recognises links. `afterBang` says whether an exclamation mark stands before. -/
def linkStage (allowHtml : Bool) : Nat → Bool → List Inline → List Inline
  | 0, _, xs => xs
  | _, _, [] => []
  | fuel + 1, afterBang, x :: xs =>
    if isChar '[' x && !afterBang then
      let found := do
        let (body, after) ← bracketed 0 xs
        let (href, title, rest) ← destination? after
        return (Inline.link href title (stagesAfterLinks allowHtml body), rest)
      match found with
      | some (node, rest) => node :: linkStage allowHtml fuel false rest
      | none => x :: linkStage allowHtml fuel false xs
    else x :: linkStage allowHtml fuel (isChar '!' x) xs

/-- Reads running text. -/
def parseInline (allowHtml : Bool) (cs : List Char) : List Inline :=
  let xs := codeStage (cs.length + 1) false (cs.map .char)
  let xs := escapeStage xs
  stagesAfterLinks allowHtml (linkStage allowHtml (xs.length + 1) false xs)

end SymbolDocs.Markdown
