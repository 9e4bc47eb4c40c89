import SymbolDocs.Decimal.Double
import SymbolDocs.Text.Digit

/-!
# Shortest decimal text of a double

A double is printed with the fewest digits that read back as the same number, and of the decimals
with that many digits the nearest. `shortest?` finds them by trying one digit, two digits, and so
on, each time the two neighbours of the value on that decimal grid. `Double.text` lays them out:
positionally while the leading digit stands between the fourth place after the point and the
sixteenth before it, with a point always shown, and otherwise with an exponent of at least two
digits and a sign.
-/

namespace SymbolDocs.Double

/-- `num / den < 10 ^ k`. -/
def belowPower (num den : Nat) (k : Int) : Bool :=
  if 0 ≤ k then num < den * Nat.pow 10 k.toNat else num * Nat.pow 10 (-k).toNat < den

/-- The power of ten of the leading digit of `num / den`. -/
def leadingPower (num den : Nat) : Int :=
  let guess : Int := ((Nat.toDigits 10 num).length : Int) - (Nat.toDigits 10 den).length
  if belowPower num den guess then guess - 1 else guess

/-- The integer part of `num / (den · 10 ^ k)`, and whether the integer after it is nearer; from the
middle the even one is. -/
def gridPoint (num den : Nat) (k : Int) : Nat × Bool :=
  let (n, d) :=
    if 0 ≤ k then (num, den * Nat.pow 10 k.toNat) else (num * Nat.pow 10 (-k).toNat, den)
  (n / d, d < 2 * (n % d) || (d = 2 * (n % d) && n / d % 2 = 1))

/-- The decimal with `count` digits nearest to the positive number that reads back as it. -/
def digitsAt? (m : Nat) (e : Int) (count : Nat) : Option (Nat × Int) :=
  let (num, den) := if 0 ≤ e then (m * Nat.pow 2 e.toNat, 1) else (m, Nat.pow 2 (-e).toNat)
  let k := leadingPower num den - ((count : Int) - 1)
  let (d, past) := gridPoint num den k
  let (near, far) := if past then (d + 1, d) else (d, d + 1)
  let reads (n : Nat) : Bool := ofDecimal false n k == .finite false m e
  if reads near then some (near, k) else if reads far then some (far, k) else none

/-- Tries `count`, `count + 1`, … digits, `fuel` times. -/
def shortestFrom? (m : Nat) (e : Int) : Nat → Nat → Option (Nat × Int)
  | 0, _ => none
  | fuel + 1, count =>
    match digitsAt? m e count with
    | some r => some r
    | none => shortestFrom? m e fuel (count + 1)

/-- The shortest decimal `digits · 10 ^ exponent` that reads back; seventeen digits always do. -/
def shortest? (m : Nat) (e : Int) : Option (Nat × Int) :=
  shortestFrom? m e 17 1

/-- Drops trailing zeros, counting them into the exponent. -/
def dropZeros : List Char → Int → List Char × Int
  | ds, k =>
    let kept := (ds.reverse.dropWhile (· == '0')).reverse
    (kept, k + (ds.length - kept.length : Nat))

/-- Digits and an exponent as text. -/
def layOut (ds : List Char) (k : Int) : String :=
  let lead : Int := k + ds.length - 1
  if -4 ≤ lead && lead < 16 then
    if 0 ≤ k then String.ofList (ds ++ List.replicate k.toNat '0') ++ ".0"
    else if 0 ≤ lead then
      let whole := (lead + 1).toNat
      String.ofList (ds.take whole) ++ "." ++ String.ofList (ds.drop whole)
    else "0." ++ String.ofList (List.replicate (-lead - 1).toNat '0' ++ ds)
  else
    let body :=
      match ds with
      | [] => "0"
      | [d] => String.singleton d
      | d :: rest => String.singleton d ++ "." ++ String.ofList rest
    let size := Text.natText lead.natAbs
    body ++ "e" ++ (if lead < 0 then "-" else "+") ++ (if size.length < 2 then "0" ++ size else size)

/-- The text of a double. -/
def text : Double → String
  | .nan => "nan"
  | .infinite negative => if negative then "-inf" else "inf"
  | .finite negative m e =>
    let body :=
      if m = 0 then "0.0"
      else
        match shortest? m e with
        | some (d, k) =>
          let (ds, k) := dropZeros (Nat.toDigits 10 d) k
          layOut ds k
        | none => "0.0"
    if negative then "-" ++ body else body

end SymbolDocs.Double
