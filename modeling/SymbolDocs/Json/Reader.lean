import SymbolDocs.Decimal.Literal
import SymbolDocs.Value.Basic

/-!
# Reading JSON

A reader for JSON text that keeps integers of any size, tells `3` from `3.0`, and keeps the keys of
a mapping in the order written. When a key is written twice its last value counts. The words `NaN`
and `Infinity` are read as numbers.

Each step of the reader takes one unit of `fuel` and consumes at least one character, so the length
of the text is enough; `read?` supplies it.
-/

namespace SymbolDocs.Json

/-- The blanks between tokens. -/
def isSpace (c : Char) : Bool :=
  c == ' ' || c == '\t' || c == '\n' || c == '\r'

/-- Without the blanks in front. -/
def skipSpace (cs : List Char) : List Char :=
  cs.dropWhile isSpace

/-- Four hexadecimal digits. -/
def hex4? (a b c d : Char) : Option Nat := do
  let a ← Text.hexValue? a
  let b ← Text.hexValue? b
  let c ← Text.hexValue? c
  let d ← Text.hexValue? d
  return ((a * 16 + b) * 16 + c) * 16 + d

/-- The character an escape letter stands for. -/
def escapeLetter? : Char → Option Char
  | '"' => some '"'
  | '\\' => some '\\'
  | '/' => some '/'
  | 'b' => some '\x08'
  | 'f' => some '\x0c'
  | 'n' => some '\n'
  | 'r' => some '\r'
  | 't' => some '\t'
  | _ => none

/-- A code unit that opens a pair. -/
def isHighHalf (n : Nat) : Bool := 0xD800 ≤ n && n ≤ 0xDBFF

/-- A code unit that closes a pair. -/
def isLowHalf (n : Nat) : Bool := 0xDC00 ≤ n && n ≤ 0xDFFF

/-- The rest of a quoted text, after its opening quote. `acc` holds the characters read, last
first; `half` is the first half of a pair of code units when the escape just read was one. A half
that stands alone is read as the replacement character. -/
def readText : List Char → Option Nat → List Char → Option (String × List Char)
  | acc, half, '\\' :: 'u' :: a :: b :: c :: d :: rest =>
    let acc' := if half.isSome then '\uFFFD' :: acc else acc
    match hex4? a b c d with
    | none => none
    | some n =>
      if isHighHalf n then readText acc' (some n) rest
      else if isLowHalf n then
        match half with
        | some h => readText (Char.ofNat (0x10000 + (h - 0xD800) * 0x400 + (n - 0xDC00)) :: acc) none rest
        | none => readText ('\uFFFD' :: acc) none rest
      else readText (Char.ofNat n :: acc') none rest
  | acc, half, '\\' :: e :: rest =>
    let acc := if half.isSome then '\uFFFD' :: acc else acc
    match escapeLetter? e with
    | some c => readText (c :: acc) none rest
    | none => none
  | acc, half, c :: rest =>
    let acc := if half.isSome then '\uFFFD' :: acc else acc
    if c = '"' then some (String.ofList acc.reverse, rest)
    else if c = '\\' || c.toNat < 32 then none
    else readText (c :: acc) none rest
  | _, _, [] => none

/-- A character that stands for itself. -/
theorem readText_plain (acc rest : List Char) {c : Char} (hquote : c ≠ '"') (hslash : c ≠ '\\')
    (hcontrol : ¬ c.toNat < 32) :
    readText acc none (c :: rest) = readText (c :: acc) none rest := by
  rw [readText] <;> simp [hquote, hslash, hcontrol]

/-- A character escaped by a letter. -/
theorem readText_letter (acc rest : List Char) {e c : Char} (he : escapeLetter? e = some c) :
    readText acc none ('\\' :: e :: rest) = readText (c :: acc) none rest := by
  have hletter : e ≠ 'u' := by
    rintro rfl
    cases he
  rw [readText] <;> simp [he, hletter]

/-- A fraction part: a point and at least one digit. -/
def fraction (cs : List Char) : List Char × List Char :=
  match cs with
  | '.' :: rest =>
    let ds := rest.takeWhile Text.isAsciiDigit
    if ds.isEmpty then ([], cs) else (ds, rest.dropWhile Text.isAsciiDigit)
  | _ => ([], cs)

/-- An exponent part: a mark, an optional sign and at least one digit. -/
def exponent (cs : List Char) : Option Int × List Char :=
  match cs with
  | c :: rest =>
    if c = 'e' || c = 'E' then
      let (negative, rest) := Literal.sign rest
      let ds := rest.takeWhile Text.isAsciiDigit
      if ds.isEmpty then (none, cs)
      else
        let n : Int := Text.natOfDigits ds
        (some (if negative then -n else n), rest.dropWhile Text.isAsciiDigit)
    else (none, cs)
  | [] => (none, cs)

/-- A number after its sign. -/
def readNumber (negative : Bool) (cs : List Char) : Option (Value × List Char) :=
  let run := cs.takeWhile Text.isAsciiDigit
  let whole := if run.head? = some '0' then ['0'] else run
  if whole.isEmpty then none
  else
    let rest := cs.drop whole.length
    let (part, rest) := fraction rest
    let (e, rest) := exponent rest
    if part.isEmpty && e.isNone then
      let n : Int := Text.natOfDigits whole
      some (.int (if negative then -n else n), rest)
    else
      let d := Double.ofDecimal negative (Text.natOfDigits (whole ++ part)) (e.getD 0 - part.length)
      some (.scalar (.real d), rest)

/-- A word or a number. -/
def readWord (cs : List Char) : Option (Value × List Char) :=
  match cs with
  | 'n' :: 'u' :: 'l' :: 'l' :: rest => some (.null, rest)
  | 't' :: 'r' :: 'u' :: 'e' :: rest => some (.bool true, rest)
  | 'f' :: 'a' :: 'l' :: 's' :: 'e' :: rest => some (.bool false, rest)
  | 'N' :: 'a' :: 'N' :: rest => some (.scalar (.real .nan), rest)
  | 'I' :: 'n' :: 'f' :: 'i' :: 'n' :: 'i' :: 't' :: 'y' :: rest =>
    some (.scalar (.real (.infinite false)), rest)
  | '-' :: 'I' :: 'n' :: 'f' :: 'i' :: 'n' :: 'i' :: 't' :: 'y' :: rest =>
    some (.scalar (.real (.infinite true)), rest)
  | '-' :: rest => readNumber true rest
  | rest => readNumber false rest

mutual

/-- A value and what follows it. -/
def readValue : Nat → List Char → Option (Value × List Char)
  | 0, _ => none
  | fuel + 1, cs =>
    match cs with
    | '"' :: rest => (readText [] none rest).map fun (s, rest) => (.text s, rest)
    | '[' :: rest =>
      match skipSpace rest with
      | ']' :: rest => some (.list [], rest)
      | rest => (readItems fuel rest).map fun (xs, rest) => (.list xs, rest)
    | '\x7b' :: rest =>
      match skipSpace rest with
      | '\x7d' :: rest => some (.map [], rest)
      | rest => (readFields fuel rest).map fun (fs, rest) => (.map (Fields.ofPairs fs), rest)
    | cs => readWord cs

/-- The items of a list up to its closing bracket. -/
def readItems : Nat → List Char → Option (List Value × List Char)
  | 0, _ => none
  | fuel + 1, cs =>
    match readValue fuel cs with
    | none => none
    | some (x, rest) =>
      match skipSpace rest with
      | ',' :: rest => (readItems fuel (skipSpace rest)).map fun (xs, rest) => (x :: xs, rest)
      | ']' :: rest => some ([x], rest)
      | _ => none

/-- The fields of a mapping up to its closing brace. -/
def readFields : Nat → List Char → Option (List (Scalar × Value) × List Char)
  | 0, _ => none
  | fuel + 1, cs =>
    match cs with
    | '"' :: rest =>
      match readText [] none rest with
      | none => none
      | some (key, rest) =>
        match skipSpace rest with
        | ':' :: rest =>
          match readValue fuel (skipSpace rest) with
          | none => none
          | some (v, rest) =>
            match skipSpace rest with
            | ',' :: rest =>
              (readFields fuel (skipSpace rest)).map fun (fs, rest) => ((.text key, v) :: fs, rest)
            | '\x7d' :: rest => some ([(.text key, v)], rest)
            | _ => none
        | _ => none
    | _ => none

end

/-- The value a JSON text spells, when nothing but blanks surrounds it. -/
def read? (s : String) : Option Value :=
  let cs := skipSpace s.toList
  match readValue (cs.length + 1) cs with
  | some (v, rest) => if (skipSpace rest).isEmpty then some v else none
  | none => none

end SymbolDocs.Json
