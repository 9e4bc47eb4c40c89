import SymbolDocs.Text.Digit
import SymbolDocs.Text.Printable

/-!
# Quoted text

Messages show text between quotes so that its ends and its odd characters can be seen. The quote
is the single one, unless the text holds a single quote and no double one; a backslash, the chosen
quote and the three common controls are written with a backslash, and a character without a
printed shape by its number, with two, four or eight hexadecimal digits.
-/

namespace SymbolDocs.Text

/-- The quote that encloses a text in messages. -/
def quoteFor (cs : List Char) : Char :=
  if cs.contains '\x27' && !cs.contains '"' then '"' else '\x27'

/-- One character inside the quotes `q`. -/
def quotedChar (q c : Char) : List Char :=
  if c = '\\' || c = q then ['\\', c]
  else if c = '\n' then ['\\', 'n']
  else if c = '\t' then ['\\', 't']
  else if c = '\r' then ['\\', 'r']
  else if isPrintable c then [c]
  else if c.toNat < 0x100 then '\\' :: 'x' :: hexDigits 2 c.toNat
  else if c.toNat < 0x10000 then '\\' :: 'u' :: hexDigits 4 c.toNat
  else '\\' :: 'U' :: hexDigits 8 c.toNat

/-- Text between quotes. -/
def quoted (s : String) : String :=
  let q := quoteFor s.toList
  String.ofList (q :: s.toList.flatMap (quotedChar q) ++ [q])

end SymbolDocs.Text
