import SymbolDocs.Markup.Escape
import SymbolDocs.Text.Blank
import SymbolDocs.Value.Text

/-!
# Templates

A template is text with fields in double braces and tags in braces with percent signs. A field names a
value of the context, and parts of it after points; its text is escaped unless it is marked safe. Tags
make a part depend on a value or repeat it for each item of one. The line end right after a tag and the
last one of the template do not count.

* `Piece` is what a template is made of, `parse` reads it;
* `fill` fills a template in.
-/

namespace SymbolDocs.Template

/-- A name with the parts of the value that are followed. -/
abbrev Reference := List String

/-- What a template is made of. -/
inductive Piece where
  /-- Text. -/
  | text (cs : List Char)
  /-- A field. -/
  | field (value : Reference) (safe : Bool)
  /-- One of two parts. -/
  | choice (value : Reference) (yes no : List Piece)
  /-- A part for each item. -/
  | each (name : String) (items : Reference) (body : List Piece)

/-! ## Reading -/

/-- The name and the parts in a reference. -/
def reference (cs : List Char) : Reference :=
  (Text.splitOn (· == '.') (Text.trim cs)).map String.ofList

/-- A field: a reference and the mark for safe text. -/
def fieldPiece (cs : List Char) : Piece :=
  match Text.splitOn (· == '|') cs with
  | value :: marks => .field (reference value) (marks.any fun m => Text.trim m == "safe".toList)
  | [] => .text []

/-- Tags that are open around what is being read, each with the pieces in front of it. -/
inductive Open where
  /-- A choice before its second part. -/
  | choice (value : Reference) (before : List Piece)
  /-- A choice in its second part. -/
  | otherwise (value : Reference) (yes before : List Piece)
  /-- A repetition. -/
  | each (name : String) (items : Reference) (before : List Piece)

/-- What has been read: the pieces, last one first, inside the tags that are open. -/
structure Reading where
  /-- The pieces. -/
  pieces : List Piece := []
  /-- The open tags, the innermost one first. -/
  opened : List Open := []

/-- A piece is read. -/
def Reading.push (r : Reading) (p : Piece) : Reading :=
  { r with pieces := p :: r.pieces }

/-- A tag is read; one that fits nothing is passed over. -/
def Reading.tag (r : Reading) (words : List String) : Reading :=
  let inner := r.pieces.reverse
  match words, r.opened with
  | ["if", value], _ => ⟨[], .choice (reference value.toList) r.pieces :: r.opened⟩
  | ["for", name, "in", items], _ => ⟨[], .each name (reference items.toList) r.pieces :: r.opened⟩
  | ["else"], .choice value before :: rest => ⟨[], .otherwise value inner before :: rest⟩
  | ["endif"], .choice value before :: rest => ⟨.choice value inner [] :: before, rest⟩
  | ["endif"], .otherwise value yes before :: rest => ⟨.choice value yes inner :: before, rest⟩
  | ["endfor"], .each name items before :: rest => ⟨.each name items inner :: before, rest⟩
  | _, _ => r

/-- The words of a tag. -/
def tagWords (cs : List Char) : List String :=
  ((Text.splitOn Text.isBlank cs).filter fun w => !w.isEmpty).map String.ofList

/-- Without one line end in front. -/
def dropBreak : List Char → List Char
  | '\n' :: cs => cs
  | cs => cs

/-- Reads on; each step passes over at least one character, and `text` holds the characters since the
last piece, last one first. -/
def readFrom : Nat → Reading → List Char → List Char → Reading
  | 0, r, _, _ => r
  | fuel + 1, r, text, cs =>
    let pieces := if text.isEmpty then r else r.push (.text text.reverse)
    match cs with
    | [] => pieces
    | '\x7b' :: '\x7b' :: rest =>
      match Text.cutAt? ['\x7d', '\x7d'] rest with
      | some (value, rest) => readFrom fuel (pieces.push (fieldPiece value)) [] rest
      | none => pieces
    | '\x7b' :: '%' :: rest =>
      match Text.cutAt? ['%', '\x7d'] rest with
      | some (words, rest) => readFrom fuel (pieces.tag (tagWords words)) [] (dropBreak rest)
      | none => pieces
    | c :: rest => readFrom fuel r (c :: text) rest

/-- The pieces of a template. -/
def parse (template : String) : List Piece :=
  let cs := template.toList
  let cs := if cs.getLast? = some '\n' then cs.dropLast else cs
  (readFrom (cs.length + 1) {} [] cs).pieces.reverse

/-! ## Filling in -/

/-- The values of names, the innermost one first. -/
abbrev Scope := List (String × Value)

/-- What a reference leads to. -/
def Scope.value (scope : Scope) : Reference → Value
  | [] => .null
  | name :: parts => parts.foldl (fun v part => v.field part) ((scope.lookup name).getD .null)

/-- The items of a list. -/
def itemsOf : Value → List Value
  | .list items => items
  | _ => []

mutual

/-- A piece filled in. -/
def Piece.fill (scope : Scope) : Piece → String
  | .text cs => String.ofList cs
  | .field value safe =>
    let text := (scope.value value).plain
    if safe then text else Markup.escapeField text
  | .choice value yes no =>
    if (scope.value value).truthy then fillAll scope yes else fillAll scope no
  | .each name items body =>
    String.join ((itemsOf (scope.value items)).map fun v => fillAll ((name, v) :: scope) body)

/-- Pieces filled in, in turn. -/
def fillAll (scope : Scope) : List Piece → String
  | [] => ""
  | p :: ps => p.fill scope ++ fillAll scope ps

end

/-- The names of a context. -/
def scopeOf : Value → Scope
  | .map fields => fields.map fun (k, v) => (k.plain, v)
  | _ => []

/-- A template filled in. -/
def fill (template : String) (context : Value) : String :=
  fillAll (scopeOf context) (parse template)

end SymbolDocs.Template
