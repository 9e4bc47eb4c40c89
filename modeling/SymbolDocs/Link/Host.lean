import SymbolDocs.Fault
import SymbolDocs.Text.Digit
import SymbolDocs.Text.Search

/-!
# Hosts of addresses

Taking an address apart looks at its host. Brackets stand around an address of eight numbers or one
with a version, never alone, and no character may be written in another form of a separator.

* `Host.isQuad` and `Host.isEight` recognise the two kinds of numeric addresses;
* `Host.fault?` is what is wrong with a host, if anything is.
-/

namespace SymbolDocs.Host

/-- One of the four numbers of an address: at most three digits, no zero in front, below 256. -/
def isQuadPart (cs : List Char) : Bool :=
  !cs.isEmpty && cs.all Text.isAsciiDigit && cs.length ≤ 3 && (cs == ['0'] || cs.head? != some '0') &&
    Text.natOfDigits cs ≤ 255

/-- Four numbers with points between them. -/
def isQuad (cs : List Char) : Bool :=
  let parts := Text.splitOn (· == '.') cs
  parts.length == 4 && parts.all isQuadPart

/-- One of the eight numbers of an address: at most four hexadecimal digits. -/
def isEightPart (cs : List Char) : Bool :=
  !cs.isEmpty && cs.length ≤ 4 && cs.all fun c => (Text.hexValue? c).isSome

/-- The parts with four numbers at the end read as two parts; no answer when they are not four. -/
def expandQuad? (parts : List (List Char)) : Option (List (List Char)) :=
  match parts.getLast? with
  | some last =>
    if last.contains '.' then if isQuad last then some (parts.dropLast ++ [['0'], ['0']]) else none
    else some parts
  | none => none

/-- Parts around the place where zeros are left out; an end that is empty has to touch it. -/
def isAbridged (before after : List (List Char)) : Bool :=
  let front := if before.head? = some [] then before.tail else before
  let back := if after.getLast? = some [] then after.dropLast else after
  let whole := (front == before || front.isEmpty) && (back == after || back.isEmpty)
  whole && front.length + back.length ≤ 7 && front.all isEightPart && back.all isEightPart

/-- The positions of empty parts that stand neither first nor last. -/
def gaps (parts : List (List Char)) : List Nat :=
  (List.range parts.length).filter fun i =>
    0 < i && i + 1 < parts.length && parts.getD i [] == []

/-- Eight numbers with colons between them; zeros may be left out at one place, and the last two may
be written as four. -/
def isEight (cs : List Char) : Bool :=
  let parts := Text.splitOn (· == ':') cs
  match expandQuad? parts with
  | none => false
  | some expanded =>
    3 ≤ parts.length && expanded.length ≤ 9 &&
      match gaps expanded with
      | [] => expanded.length == 8 && expanded.all isEightPart
      | [i] => isAbridged (expanded.take i) (expanded.drop (i + 1))
      | _ => false

/-- The part of an address before a zone; no answer when the zone is empty or holds its mark. -/
def withoutZone? (cs : List Char) : Option (List Char) :=
  match Text.cutAt? ['%'] cs with
  | some (address, zone) => if zone.isEmpty || zone.contains '%' then none else some address
  | none => some cs

/-- A version: its mark, hexadecimal digits, a point and at least one more character. -/
def isVersion (cs : List Char) : Bool :=
  let digits := (cs.drop 1).takeWhile fun c => (Text.hexValue? c).isSome
  match cs.drop (digits.length + 1) with
  | '.' :: _ :: _ => !digits.isEmpty
  | _ => false

/-- What is wrong with the text in brackets. -/
def bracketFault? (cs : List Char) : Option HostFault :=
  if cs.head? = some 'v' then if isVersion cs then none else some .badVersion
  else if isQuad cs then some .bracketedQuad
  else if (withoutZone? cs).any isEight then none
  else some (.noAddress (String.ofList cs))

/-- The text between the first opening bracket and the first closing one after it. -/
def bracketed (cs : List Char) : List Char :=
  ((cs.dropWhile (· != '[')).drop 1).takeWhile (· != ']')

/-- Characters whose normal form holds a separator. -/
def isHiddenSeparator (c : Char) : Bool :=
  [0x2047, 0x2048, 0x2049, 0x2100, 0x2101, 0x2105, 0x2106, 0x2A74, 0xFE13, 0xFE16, 0xFE55, 0xFE56,
    0xFE5F, 0xFE6B, 0xFF03, 0xFF0F, 0xFF1A, 0xFF1F, 0xFF20].contains c.toNat

/-- What is wrong with a host. -/
def fault? (cs : List Char) : Option HostFault :=
  let brackets :=
    match cs.contains '[', cs.contains ']' with
    | false, false => none
    | true, true => bracketFault? (bracketed cs)
    | _, _ => some .unbalanced
  match brackets with
  | some e => some e
  | none => if cs.any isHiddenSeparator then some (.hiddenSeparator (String.ofList cs)) else none

end SymbolDocs.Host
