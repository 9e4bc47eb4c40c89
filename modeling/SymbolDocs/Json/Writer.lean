import SymbolDocs.Decimal.Shortest
import SymbolDocs.Text.Search
import SymbolDocs.Value.Text

/-!
# Writing JSON

Values as JSON text. A `Style` says which separators stand between items and after keys, and
whether characters other than printable ASCII are written by number. A key that is not text is
written as the text of its value, a day as text.

* `Style.compact` writes no blanks and keeps every character;
* `Style.canonical` writes one blank after each separator and ASCII only.
-/

namespace SymbolDocs.Json

/-- How values are laid out. -/
structure Style where
  /-- Between items, and between fields. -/
  itemSeparator : String
  /-- Between a key and its value. -/
  keySeparator : String
  /-- Are characters other than printable ASCII written by number? -/
  asciiOnly : Bool

/-- No blanks, and characters as they are. -/
def Style.compact : Style := ⟨",", ":", false⟩

/-- A blank after each separator, and ASCII only. -/
def Style.canonical : Style := ⟨", ", ": ", true⟩

/-- One code unit by number. -/
def unitText (n : Nat) : List Char :=
  '\\' :: 'u' :: Text.hexDigits 4 n

/-- One character inside quotes. -/
def charText (asciiOnly : Bool) (c : Char) : List Char :=
  if c = '"' then ['\\', '"']
  else if c = '\\' then ['\\', '\\']
  else if c = '\n' then ['\\', 'n']
  else if c = '\r' then ['\\', 'r']
  else if c = '\t' then ['\\', 't']
  else if c = '\x0c' then ['\\', 'f']
  else if c = '\x08' then ['\\', 'b']
  else if c.toNat < 32 then unitText c.toNat
  else if asciiOnly && 126 < c.toNat then
    if c.toNat < 0x10000 then unitText c.toNat
    else
      let n := c.toNat - 0x10000
      unitText (0xD800 + n / 0x400) ++ unitText (0xDC00 + n % 0x400)
  else [c]

/-- Text between quotes. -/
def textLiteral (asciiOnly : Bool) (s : String) : String :=
  String.ofList ('"' :: s.toList.flatMap (charText asciiOnly) ++ ['"'])

/-- A number with a fractional part. -/
def realLiteral : Double → String
  | .nan => "NaN"
  | .infinite negative => if negative then "-Infinity" else "Infinity"
  | d => d.text

/-- A scalar. -/
def scalarLiteral (asciiOnly : Bool) : Scalar → String
  | .null => "null"
  | .bool b => if b then "true" else "false"
  | .int n => Text.intText n
  | .real d => realLiteral d
  | .text s => textLiteral asciiOnly s
  | s => textLiteral asciiOnly s.plain

/-- A key. -/
def keyLiteral (asciiOnly : Bool) : Scalar → String
  | .text s => textLiteral asciiOnly s
  | k => textLiteral asciiOnly (scalarLiteral asciiOnly k)

mutual

/-- A value as JSON text. -/
def write (st : Style) : Value → String
  | .scalar s => scalarLiteral st.asciiOnly s
  | .list items => "[" ++ Text.joinWith st.itemSeparator (writeItems st items) ++ "]"
  | .map fields => "\x7b" ++ Text.joinWith st.itemSeparator (writeFields st fields) ++ "\x7d"

/-- The items of a list. -/
def writeItems (st : Style) : List Value → List String
  | [] => []
  | x :: xs => write st x :: writeItems st xs

/-- The fields of a mapping. -/
def writeFields (st : Style) : List (Scalar × Value) → List String
  | [] => []
  | (k, v) :: rest =>
    (keyLiteral st.asciiOnly k ++ st.keySeparator ++ write st v) :: writeFields st rest

end

end SymbolDocs.Json
