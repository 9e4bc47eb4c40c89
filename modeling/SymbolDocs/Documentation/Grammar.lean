import SymbolDocs.Link.Join
import SymbolDocs.Text.Blank

/-!
# The small syntaxes of documentation text

Documentation text carries three small syntaxes of its own: a link names a target and after it,
separated by a bar or blanks, a title; an example may open with a caption; and a related item may be
an address rather than prose. Plain text falls into paragraphs at blank lines.

* `parseDocLink` splits a link, `parseExample` an example;
* `looksLikeAddress` tells an address from prose;
* `paragraphs` cuts text at blank lines, `onlyParagraph?` looks into markup.
-/

namespace SymbolDocs

open Text (isBlank)

namespace DocLink

/-- The title at the front, when nothing but blanks follows the line it stands on. -/
def lineTitle? (cs : List Char) : Option (List Char) :=
  let line := cs.takeWhile (· != '\n')
  if line.isEmpty || !(cs.drop line.length).all isBlank then none else some line

/-- The title after at most `skip` blanks; as many as possible are skipped. -/
def titleAfter? (cs : List Char) : Nat → Option (List Char)
  | 0 => lineTitle? cs
  | skip + 1 =>
    match lineTitle? (cs.drop (skip + 1)) with
    | some t => some t
    | none => titleAfter? cs skip

/-- What may follow the target: a separator with a title, or blanks only. The answer is the title, if
there is one. -/
def ending? (cs : List Char) : Option (Option (List Char)) :=
  let titled :=
    match cs with
    | c :: rest =>
      if c = '|' || isBlank c then titleAfter? rest (rest.takeWhile isBlank).length else none
    | [] => none
  match titled with
  | some t => some (some t)
  | none => if cs.all isBlank then some none else none

/-- The ending after at most `skip` blanks; as many as possible are skipped. -/
def endingAfter? (cs : List Char) : Nat → Option (Option (List Char))
  | 0 => ending? cs
  | skip + 1 =>
    match ending? (cs.drop (skip + 1)) with
    | some e => some e
    | none => endingAfter? cs skip

/-- Looks for the shortest target that a proper ending follows; `target` has been passed, last
character first. -/
def targetFrom? : List Char → List Char → Option (List Char × Option (List Char))
  | _, [] => none
  | target, c :: cs =>
    if c = '|' then none
    else
      match endingAfter? cs (cs.takeWhile isBlank).length with
      | some title => some ((c :: target).reverse, title)
      | none => targetFrom? (c :: target) cs

/-- The target after at most `skip` blanks; as many as possible are skipped. -/
def targetAfter? (cs : List Char) : Nat → Option (List Char × Option (List Char))
  | 0 => targetFrom? [] cs
  | skip + 1 =>
    match targetFrom? [] (cs.drop (skip + 1)) with
    | some r => some r
    | none => targetAfter? cs skip

end DocLink

/-- The target and the title of a documentation link. -/
def parseDocLink (value : String) : String × Option String :=
  let cs := value.toList
  match DocLink.targetAfter? cs (cs.takeWhile isBlank).length with
  | some (target, title) => (String.ofList target, title.map String.ofList)
  | none => (Text.strip value, none)

/-- The caption and the code of an example. The code loses the line ends around it, and after a
caption all blanks in front. -/
def parseExample (value : String) : Option String × String :=
  let isBreak (c : Char) : Bool := c == '\n'
  match Text.afterPrefix? "<caption>".toList (Text.trimStart value.toList) with
  | some rest =>
    match Text.cutAt? "</caption>".toList rest with
    | some (caption, body) =>
      (some (String.ofList (Text.trim caption)),
        String.ofList (Text.trimWhile isBreak (Text.trimStart body)))
    | none => (none, Text.stripMarks isBreak value)
  | none => (none, Text.stripMarks isBreak value)

/-- An address that names a place by itself: with a scheme and two slashes, from the root, to an
anchor, or from a directory. -/
def startsLikeAddress (cs : List Char) : Bool :=
  match cs with
  | '/' :: _ => true
  | '#' :: _ => true
  | '.' :: '/' :: _ => true
  | '.' :: '.' :: '/' :: _ => true
  | cs =>
    match afterSchemeWord? cs with
    | some (':' :: '/' :: '/' :: _) => true
    | _ => false

/-- A page extension that ends the text, or that an anchor on the same line follows. -/
def endsLikeAddress : List Char → Bool
  | [] => false
  | c :: cs =>
    let closes (rest : List Char) : Bool :=
      match rest with
      | [] => true
      | '#' :: anchor => !anchor.contains '\n'
      | _ => false
    let here :=
      c == '.' &&
        (["html".toList, "md".toList].any fun ext =>
          (cs.take ext.length).map Char.toLower == ext && closes (cs.drop ext.length))
    here || endsLikeAddress cs

/-- Is the text an address rather than prose? -/
def looksLikeAddress (s : String) : Bool :=
  startsLikeAddress s.toList || endsLikeAddress s.toList

/-- How many characters of the blanks after a line end lie before the end of their last line; none when
they hold no line end. -/
def blankLines (cs : List Char) : Nat :=
  let run := cs.takeWhile isBlank
  ((run.reverse.dropWhile (· != '\n')).length)

/-- Cuts text where a line end is followed by blanks with another one; `skip` characters of such a
stretch are still to be passed over. -/
def splitParagraphs : Nat → List Char → List (List Char)
  | _, [] => [[]]
  | skip + 1, _ :: cs => splitParagraphs skip cs
  | 0, c :: cs =>
    if c = '\n' && 0 < blankLines cs then [] :: splitParagraphs (blankLines cs) cs
    else
      match splitParagraphs 0 cs with
      | [] => [[c]]
      | w :: ws => (c :: w) :: ws

/-- The paragraphs of a text, without blanks around them. -/
def paragraphs (s : String) : List String :=
  (((splitParagraphs 0 (Text.trim s.toList)).map Text.trim).filter fun p => !p.isEmpty).map
    String.ofList

/-- Escaped text as paragraphs. -/
def formatContent (s : String) : String :=
  String.join ((paragraphs s).map fun p => "<p>" ++ p ++ "</p>")

/-- The content of markup that is a single paragraph. -/
def onlyParagraph? (markup : String) : Option String :=
  (Text.afterPrefix? "<p>".toList markup.toList).bind fun rest =>
    if Text.endsWith rest "</p>".toList then
      let body := rest.take (rest.length - 4)
      if Text.contains body "<p>".toList then none else some (String.ofList body)
    else none

end SymbolDocs
