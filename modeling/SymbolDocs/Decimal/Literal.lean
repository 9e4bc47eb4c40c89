import SymbolDocs.Decimal.Double
import SymbolDocs.Text.Blank
import SymbolDocs.Text.Digit

/-!
# Number literals in text

How a number is read from text that may come from anywhere: blanks around it are dropped, digits
of any script count, single underscores may stand between digits, and a sign may stand in front.

* `readInt?` reads an integer;
* `readDouble?` reads a decimal number with optional point and exponent.
-/

namespace SymbolDocs.Literal

open Text (digitValue? isBlank)

/-- The blanks that may stand around a number: all but the information separators. -/
def isMargin (c : Char) : Bool :=
  isBlank c && !(28 ≤ c.toNat && c.toNat ≤ 31)

/-- Digits of every script written with `0` to `9`; other characters are kept. -/
def plainDigits (cs : List Char) : List Char :=
  cs.map fun c =>
    match digitValue? c with
    | some v => Char.ofNat (48 + v)
    | none => c

/-- A leading run of digits with single underscores between digits: the digits, and the rest. -/
def digitRun : List Char → List Char × List Char
  | [] => ([], [])
  | c :: cs =>
    if Text.isAsciiDigit c then
      let (ds, rest) := digitRun cs
      (c :: ds, rest)
    else if c = '_' then
      match cs with
      | d :: _ =>
        if Text.isAsciiDigit d then
          let (ds, rest) := digitRun cs
          if ds.isEmpty then ([], c :: cs) else (ds, rest)
        else ([], c :: cs)
      | [] => ([], c :: cs)
    else ([], c :: cs)

/-- A run that starts with a digit. -/
def digits (cs : List Char) : List Char × List Char :=
  match cs with
  | c :: _ => if Text.isAsciiDigit c then digitRun cs else ([], cs)
  | [] => ([], [])

/-- A sign in front: is it a minus, and what follows. -/
def sign : List Char → Bool × List Char
  | '-' :: cs => (true, cs)
  | '+' :: cs => (false, cs)
  | cs => (false, cs)

/-- An integer. -/
def readInt? (s : String) : Option Int :=
  let (negative, cs) := sign (plainDigits (Text.trimWhile isMargin s.toList))
  match digits cs with
  | ([], _) => none
  | (ds, []) =>
    let n : Int := Text.natOfDigits ds
    some (if negative then -n else n)
  | _ => none

/-- The exponent part: absent, or a mark, a sign and digits up to the end. -/
def exponentPart? : List Char → Option Int
  | [] => some 0
  | c :: cs =>
    if c = 'e' || c = 'E' then
      let (negative, cs) := sign cs
      match digits cs with
      | ([], _) => none
      | (ds, []) =>
        let n : Int := Text.natOfDigits ds
        some (if negative then -n else n)
      | _ => none
    else none

/-- A decimal number; words for what is not finite are not read. -/
def readDouble? (s : String) : Option Double :=
  let (negative, cs) := sign (plainDigits (Text.trimWhile isMargin s.toList))
  let (whole, rest) := digits cs
  let (part, rest) :=
    match rest with
    | '.' :: rest => digits rest
    | rest => ([], rest)
  if whole.isEmpty && part.isEmpty then none
  else
    (exponentPart? rest).map fun e =>
      Double.ofDecimal negative (Text.natOfDigits (whole ++ part)) (e - part.length)

end SymbolDocs.Literal
