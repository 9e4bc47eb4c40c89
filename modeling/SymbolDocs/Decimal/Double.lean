/-!
# Double-precision numbers

Numbers with a fractional part are read to the nearest double: a mantissa below `2 ^ 53` times a
power of two with exponent at least `-1074`. Everything is exact natural-number arithmetic, so
that reading and printing can be reasoned about.

* `Double` is a canonical form: a mantissa has its full 53 bits unless the exponent is the least;
* `Double.ofQuotient` rounds a quotient to the nearest double, a tie to the even mantissa;
* `Double.ofDecimal` reads `digits · 10 ^ exponent`;
* `Double.scaled` is the value in units of `2 ^ -1074`, on which the order of finite numbers is
  the order of the integers.
-/

namespace SymbolDocs

/-- A double-precision number. -/
inductive Double where
  /-- `mantissa · 2 ^ exponent`, negated when `negative`. -/
  | finite (negative : Bool) (mantissa : Nat) (exponent : Int)
  /-- Beyond the largest finite number. -/
  | infinite (negative : Bool)
  /-- No number. -/
  | nan
  deriving DecidableEq, Repr, Inhabited

namespace Double

/-- The least exponent. -/
def minExponent : Int := -1074

/-- The greatest exponent of a full mantissa. -/
def maxExponent : Int := 971

/-- Zero with a sign. -/
def zero (negative : Bool) : Double := .finite negative 0 minExponent

/-- A quotient rounded to the nearest integer, a tie to the even one. -/
def roundDiv (num den : Nat) : Nat :=
  let q := num / den
  let r := num % den
  if 2 * r < den then q else if den < 2 * r then q + 1 else if q % 2 = 0 then q else q + 1

/-- `num / den` in units of `2 ^ e`, rounded. -/
def roundAt (num den : Nat) (e : Int) : Nat :=
  if 0 ≤ e then roundDiv num (den * Nat.pow 2 e.toNat) else roundDiv (num * Nat.pow 2 (-e).toNat) den

/-- The exponent at which the integer part of `num / den` has 53 bits, or the least one. -/
def exponentOf (num den : Nat) : Int :=
  let guess : Int := (Nat.log2 num : Int) - (Nat.log2 den : Int) - 52
  let tooSmall : Bool :=
    if 0 ≤ guess then num < den * Nat.pow 2 (52 + guess.toNat)
    else num * Nat.pow 2 (-guess).toNat < den * Nat.pow 2 52
  max minExponent (if tooSmall then guess - 1 else guess)

/-- The double nearest to `num / den`. -/
def ofQuotient (negative : Bool) (num den : Nat) : Double :=
  if num = 0 then zero negative
  else
    let e := exponentOf num den
    let m := roundAt num den e
    let (m, e) := if m = Nat.pow 2 53 then (Nat.pow 2 52, e + 1) else (m, e)
    if maxExponent < e then .infinite negative
    else if m = 0 then zero negative
    else .finite negative m e

/-- The double nearest to `digits · 10 ^ exponent`. Exponents far outside the range of doubles
are decided without computing the power. -/
def ofDecimal (negative : Bool) (digits : Nat) (exponent : Int) : Double :=
  if digits = 0 then zero negative
  else
    let size : Int := (Nat.toDigits 10 digits).length + exponent
    if 320 < size then .infinite negative
    else if size < -340 then zero negative
    else if 0 ≤ exponent then ofQuotient negative (digits * Nat.pow 10 exponent.toNat) 1
    else ofQuotient negative digits (Nat.pow 10 (-exponent).toNat)

/-- The double nearest to an integer. -/
def ofInt : Int → Double
  | .ofNat n => ofDecimal false n 0
  | .negSucc n => ofDecimal true (n + 1) 0

/-- A finite number in units of `2 ^ -1074`. -/
def scaled? : Double → Option Int
  | .finite negative m e =>
    let n : Int := (m * Nat.pow 2 (e - minExponent).toNat : Nat)
    some (if negative then -n else n)
  | _ => none

/-- A finite number without its fractional part. -/
def truncate? : Double → Option Int
  | .finite negative m e =>
    let n : Int := (if 0 ≤ e then m * Nat.pow 2 e.toNat else m / Nat.pow 2 (-e).toNat : Nat)
    some (if negative then -n else n)
  | _ => none

/-- The integer a finite number is equal to. -/
def integral? : Double → Option Int
  | .finite negative m e =>
    if 0 ≤ e || m % Nat.pow 2 (-e).toNat = 0 then (Double.finite negative m e).truncate? else none
  | _ => none

/-- Zero of either sign. -/
def isZero : Double → Bool
  | .finite _ m _ => m == 0
  | _ => false

end Double

end SymbolDocs
