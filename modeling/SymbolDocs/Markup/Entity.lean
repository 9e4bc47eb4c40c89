import SymbolDocs.Text.Digit
import SymbolDocs.Text.Search

/-!
# Character references

Markup can name a character by an entity or by its number. Reading markup back replaces references
by the characters they stand for, leniently: the closing semicolon may be missing, an old entity name
is found at the start of a longer word, numbers of the windows-1252 range are mapped to the
characters meant, and numbers that are no characters give the replacement character or nothing.
-/

namespace SymbolDocs.Markup

/-- Entity names and their characters; a name without a semicolon may stand without one. There are many
more, but printed markup has four of them only (`Site.printed_references`). -/
def entities : List (String × Char) :=
  [("amp", '&'), ("lt", '<'), ("gt", '>'), ("quot", '"'), ("AMP", '&'), ("LT", '<'),
    ("nbsp", '\u00A0'), ("copy", '\u00A9'), ("not", '\u00AC'), ("eacute", '\u00E9'),
    ("amp;", '&'), ("lt;", '<'), ("gt;", '>'), ("quot;", '"'), ("AMP;", '&'), ("LT;", '<'),
    ("nbsp;", '\u00A0'), ("copy;", '\u00A9'), ("not;", '\u00AC'), ("notin;", '\u2209'),
    ("eacute;", '\u00E9'), ("hellip;", '\u2026'), ("mdash;", '\u2014')]

/-- The character of an entity name. -/
def entity? (name : List Char) : Option Char :=
  (entities.find? fun e => e.1.toList == name).map Prod.snd

/-- What the numbers from 128 to 159 are read as. -/
def windowsCodes : List Nat :=
  [0x20AC, 0x81, 0x201A, 0x0192, 0x201E, 0x2026, 0x2020, 0x2021, 0x02C6, 0x2030, 0x0160, 0x2039,
    0x0152, 0x8D, 0x017D, 0x8F, 0x90, 0x2018, 0x2019, 0x201C, 0x201D, 0x2022, 0x2013, 0x2014,
    0x02DC, 0x2122, 0x0161, 0x203A, 0x0153, 0x9D, 0x017E, 0x0178]

/-- Numbers of controls and of code points that are no characters. -/
def isNoCharacter (n : Nat) : Bool :=
  (1 ≤ n && n ≤ 8) || n == 11 || (14 ≤ n && n ≤ 31) || n == 127 || (0xFDD0 ≤ n && n ≤ 0xFDEF) ||
    0xFFFE ≤ n % 0x10000

/-- The characters that a number stands for. -/
def codeText (n : Nat) : List Char :=
  if n = 0 then ['\uFFFD']
  else if 0x80 ≤ n && n ≤ 0x9F then [Char.ofNat (windowsCodes.getD (n - 0x80) n)]
  else if (0xD800 ≤ n && n ≤ 0xDFFF) || 0x10FFFF < n then ['\uFFFD']
  else if isNoCharacter n then []
  else [Char.ofNat n]

/-- The number a run of hexadecimal digits spells. -/
def natOfHex (cs : List Char) : Nat :=
  cs.foldl (fun n c => 16 * n + (Text.hexValue? c).getD 0) 0

/-- Drops one semicolon in front. -/
def dropSemicolon : List Char → List Char
  | ';' :: rest => rest
  | rest => rest

/-- A number reference after its mark: the characters it stands for and the rest. -/
def numberReference? (cs : List Char) : Option (List Char × List Char) :=
  let decimal := cs.takeWhile Text.isAsciiDigit
  if !decimal.isEmpty then
    some (codeText (Text.natOfDigits decimal), dropSemicolon (cs.drop decimal.length))
  else
    match cs with
    | x :: rest =>
      let hex := rest.takeWhile fun c => (Text.hexValue? c).isSome
      if (x = 'x' || x = 'X') && !hex.isEmpty then
        some (codeText (natOfHex hex), dropSemicolon (rest.drop hex.length))
      else none
    | [] => none

/-- The characters an entity name is made of. -/
def isNameChar (c : Char) : Bool :=
  !(c == '\t' || c == '\n' || c == '\x0c' || c == ' ' || c == '<' || c == '&' || c == '#' || c == ';')

/-- The longest entity name at the start of `word`, at most `size` and at least two characters long:
the character and how many characters the name has. -/
def longestEntity? (word : List Char) : Nat → Option (Char × Nat)
  | 0 => none
  | size + 1 =>
    if size = 0 then none
    else
      match entity? (word.take (size + 1)) with
      | some c => some (c, size + 1)
      | none => longestEntity? word size

/-- A reference after the ampersand: what it stands for and how many characters it takes. A word that
is no reference stands for itself. -/
def reference (cs : List Char) : List Char × Nat :=
  match cs with
  | '#' :: rest =>
    match numberReference? rest with
    | some (out, after) => (out, cs.length - after.length)
    | none => (['&'], 0)
  | _ =>
    let name := (cs.takeWhile isNameChar).take 32
    if name.isEmpty then (['&'], 0)
    else
      let word := if (cs.drop name.length).head? = some ';' then name ++ [';'] else name
      match entity? word with
      | some c => ([c], word.length)
      | none =>
        match longestEntity? word (word.length - 1) with
        | some (c, n) => (c :: word.drop n, word.length)
        | none => ('&' :: word, word.length)

/-- Replaces references from the left; `skip` characters of one already replaced are passed over. -/
def unescapeFrom : Nat → List Char → List Char
  | _, [] => []
  | skip + 1, _ :: cs => unescapeFrom skip cs
  | 0, c :: cs =>
    if c = '&' then
      let (out, taken) := reference cs
      out ++ unescapeFrom taken cs
    else c :: unescapeFrom 0 cs

/-- The text that markup without tags spells. -/
def unescapeChars (cs : List Char) : List Char :=
  unescapeFrom 0 cs

end SymbolDocs.Markup
