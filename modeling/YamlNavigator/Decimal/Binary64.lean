/-!
Binary floating point numbers of 64 bits, as exact numbers.

* `Binary64`: a number `± mantissa · 2 ^ exponent`, an infinity, or no number;
* `Binary64.divideEven`: a quotient rounded to a whole number, halves to the even neighbour;
* `Binary64.exponentOf`: the power of two by which a ratio is scaled to 53 binary digits;
* `Binary64.ofRatio`: the number nearest to a ratio;
* `Binary64.ofDecimal`: the number nearest to `digits · 10 ^ exponent`;
* `Binary64.truncate`: the whole part of a finite number.
-/

namespace YamlNavigator

/-- A number with at most 53 binary digits and an exponent of at least `-1074`, an infinity, or the
value that is no number. -/
inductive Binary64 where
  | finite (negative : Bool) (mantissa : Nat) (exponent : Int)
  | infinite (negative : Bool)
  | notANumber
  deriving DecidableEq, Repr, Inhabited

namespace Binary64

/-- The quotient of two numbers rounded to a whole number; a half goes to the even neighbour. -/
def divideEven (num den : Nat) : Nat :=
  let quotient := num / den
  let rest := num % den
  if den < 2 * rest || (2 * rest = den && quotient % 2 = 1) then quotient + 1 else quotient

/-- A power of two as a ratio: `2 ^ e` is the first number over the second. -/
def powerOfTwo (e : Int) : Nat × Nat :=
  if e < 0 then (1, Nat.pow 2 e.natAbs) else (Nat.pow 2 e.natAbs, 1)

/-- The ratio divided by a power of two. -/
def scaleDown (num den : Nat) (e : Int) : Nat × Nat :=
  let p := powerOfTwo e
  (num * p.2, den * p.1)

/-- The smallest mantissa of 53 binary digits. -/
def leastMantissa : Nat := Nat.pow 2 52

/-- The smallest exponent. -/
def minExponent : Int := -1074

/-- The exponent at which a ratio above zero has 53 binary digits before the point, if that is not
below the smallest exponent. -/
def exponentOf (num den : Nat) : Int :=
  let guess : Int := (Nat.log2 num : Int) - Nat.log2 den - 52
  let r := scaleDown num den guess
  max minExponent (if r.1 < r.2 * leastMantissa then guess - 1 else guess)

/-- The number nearest to a ratio; of two equally near ones, the one with the even mantissa. -/
def ofRatio (negative : Bool) (num den : Nat) : Binary64 :=
  if num = 0 then finite negative 0 minExponent
  else
    let e := exponentOf num den
    let r := scaleDown num den e
    let m := divideEven r.1 r.2
    let (m, e) := if m = 2 * leastMantissa then (leastMantissa, e + 1) else (m, e)
    if 971 < e then infinite negative else finite negative m e

/-- The number nearest to `digits · 10 ^ exponent`. Powers so large or so small that the number
overflows or vanishes are not computed. -/
def ofDecimal (negative : Bool) (digits : Nat) (exponent : Int) : Binary64 :=
  if digits = 0 then ofRatio negative 0 1
  else
    let magnitude : Int := (Nat.toDigits 10 digits).length + exponent
    if 310 < magnitude then infinite negative
    else if magnitude < -330 then ofRatio negative 0 1
    else if exponent < 0 then ofRatio negative digits (Nat.pow 10 exponent.natAbs)
    else ofRatio negative (digits * Nat.pow 10 exponent.natAbs) 1

/-- Is the number zero? -/
def isZero : Binary64 → Bool
  | finite _ m _ => m = 0
  | _ => false

/-- The whole part of `± mantissa · 2 ^ exponent`. -/
def truncate (negative : Bool) (mantissa : Nat) (exponent : Int) : Int :=
  let p := powerOfTwo exponent
  let n : Nat := mantissa * p.1 / p.2
  if negative then -(n : Int) else n

end Binary64

end YamlNavigator
