import SymbolDocs.Decimal.Literal
import SymbolDocs.Text.Search
import SymbolDocs.Value.Basic

/-!
# Plain scalars of YAML

A scalar written without quotes is a truth value, a number, a day, nothing at all, or text, by the way
it is spelled. Integers may be written to base two, eight, ten, sixteen or sixty, and underscores in
numbers do not count. Two spellings are reserved and stand for no value.

* `readInteger?`, `readReal?`, `readDate?` are the spellings of numbers and days;
* `resolve?` decides.
-/

namespace SymbolDocs.Yaml

/-- The words for truth values. -/
def readBool? (s : String) : Option Bool :=
  if ["yes", "Yes", "YES", "true", "True", "TRUE", "on", "On", "ON"].contains s then some true
  else if ["no", "No", "NO", "false", "False", "FALSE", "off", "Off", "OFF"].contains s then
    some false
  else none

/-- The words for nothing. -/
def isNullWord (s : String) : Bool :=
  ["", "~", "null", "Null", "NULL"].contains s

/-- Without underscores. -/
def dropMarks (cs : List Char) : List Char :=
  cs.filter (· != '_')

/-- The number that digits of a base spell; none when there is no digit. -/
def natOfBase? (base : Nat) (cs : List Char) : Option Nat :=
  if cs.isEmpty then none
  else
    cs.foldlM (fun n c =>
      (Text.hexValue? c).bind fun d => if d < base then some (n * base + d) else none) 0

/-- A part of a number to base sixty: one digit, or two of which the first is below six. -/
def sixtieth? (cs : List Char) : Option Nat :=
  match cs with
  | [a] => if Text.isAsciiDigit a then some (Text.natOfDigits [a]) else none
  | [a, b] =>
    if '0' ≤ a && a ≤ '5' && Text.isAsciiDigit b then some (Text.natOfDigits [a, b]) else none
  | _ => none

/-- An integer without its sign. -/
def readNatural? (cs : List Char) : Option Nat :=
  match cs with
  | '0' :: 'b' :: rest => natOfBase? 2 (dropMarks rest)
  | '0' :: 'x' :: rest => natOfBase? 16 (dropMarks rest)
  | ['0'] => some 0
  | '0' :: rest => natOfBase? 8 ('0' :: dropMarks rest)
  | c :: _ =>
    if Text.isAsciiDigit c then
      match Text.splitOn (· == ':') cs with
      | whole :: parts =>
        (natOfBase? 10 (dropMarks whole)).bind fun n =>
          parts.foldlM (fun n part => (sixtieth? part).map fun d => n * 60 + d) n
      | [] => none
    else none
  | [] => none

/-- An integer. -/
def readInteger? (cs : List Char) : Option Int :=
  let (negative, digits) := Literal.sign cs
  (readNatural? digits).map fun n => if negative then -(n : Int) else n

/-- Does an exponent with a sign stand here, or nothing? -/
def isExponent : List Char → Bool
  | [] => true
  | e :: s :: digits =>
    (e == 'e' || e == 'E') && (s == '-' || s == '+') && !digits.isEmpty &&
      digits.all Text.isAsciiDigit
  | _ => false

/-- A digit or an underscore. -/
def isDigitOrMark (c : Char) : Bool :=
  Text.isAsciiDigit c || c == '_'

/-- Is this a number with a point: digits on its left, or digits on its right and no sign? -/
def isPointed (cs : List Char) : Bool :=
  let digits := (Literal.sign cs).2
  let whole := digits.takeWhile isDigitOrMark
  match digits.drop whole.length with
  | '.' :: rest =>
    let part := rest.takeWhile isDigitOrMark
    isExponent (rest.drop part.length) &&
      (whole.head?.any Text.isAsciiDigit ||
        (cs.head? == some '.' && part.head?.any Text.isAsciiDigit))
  | _ => false

/-- A number with a fractional part, or one that is not finite. -/
def readReal? (cs : List Char) : Option Double :=
  let s := String.ofList cs
  if [".nan", ".NaN", ".NAN"].contains s then some .nan
  else
    let (negative, word) := Literal.sign cs
    if [".inf", ".Inf", ".INF"].contains (String.ofList word) then some (.infinite negative)
    else if isPointed cs then Literal.readDouble? (String.ofList (dropMarks cs))
    else none

/-- The days of a month. -/
def daysOf (year month : Nat) : Nat :=
  if month = 2 then
    if year % 4 = 0 && (year % 100 ≠ 0 || year % 400 = 0) then 29 else 28
  else if month = 4 || month = 6 || month = 9 || month = 11 then 30
  else 31

/-- A day: four digits, two and two with dashes between them, as the calendar has it. -/
def readDate? (cs : List Char) : Option (Nat × Nat × Nat) :=
  match cs with
  | [a, b, c, d, '-', e, f, '-', g, h] =>
    if [a, b, c, d, e, f, g, h].all Text.isAsciiDigit then
      let year := Text.natOfDigits [a, b, c, d]
      let month := Text.natOfDigits [e, f]
      let day := Text.natOfDigits [g, h]
      if 1 ≤ year && 1 ≤ month && month ≤ 12 && 1 ≤ day && day ≤ daysOf year month then
        some (year, month, day)
      else none
    else none
  | _ => none

/-- What a plain scalar stands for; nothing for the two reserved spellings. -/
def resolve? (s : String) : Option Scalar :=
  let cs := s.toList
  if s = "<<" || s = "=" then none
  else if isNullWord s then some .null
  else
    match readBool? s with
    | some b => some (.bool b)
    | none =>
      match readReal? cs with
      | some d => some (.real d)
      | none =>
        match readInteger? cs with
        | some n => some (.int n)
        | none =>
          match readDate? cs with
          | some (year, month, day) => some (.date year month day)
          | none => some (.text s)

end SymbolDocs.Yaml
