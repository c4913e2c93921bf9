import YamlNavigator.Decimal.Binary64

/-!
The shortest decimal that reads back as a given number.

* `Shortest.Interval`, `Shortest.interval`: the numbers that are nearer to a binary number than to
  its neighbours;
* `Shortest.magnitude`: the place of the first decimal digit;
* `Shortest.onGrid?`: the nearest point of a decimal grid that lies in the interval;
* `Shortest.digits`: the fewest digits that lie in the interval, and of these the nearest;
* `FloatFormat`, `FloatFormat.write`: how digits are laid out as text.
-/

namespace YamlNavigator

namespace Shortest

/-- An interval around `value`, all three numbers over the same denominator. -/
structure Interval where
  low : Nat
  value : Nat
  high : Nat
  den : Nat
  closed : Bool

/-- The numbers that round to `mantissa · 2 ^ exponent`: up to half the distance to either
neighbour. Below a power of two the neighbour is only half as far. The two ends belong to it if the
mantissa is even. -/
def interval (mantissa : Nat) (exponent : Int) : Interval :=
  let p := Binary64.powerOfTwo exponent
  let below := if mantissa = Binary64.leastMantissa && Binary64.minExponent < exponent then 1 else 2
  { low := (4 * mantissa - below) * p.1
    value := 4 * mantissa * p.1
    high := (4 * mantissa + 2) * p.1
    den := 4 * p.2
    closed := mantissa % 2 = 0 }

/-- Does `n / d` lie in the interval? -/
def Interval.contains (i : Interval) (n d : Nat) : Bool :=
  let x := n * i.den
  if i.closed then i.low * d ≤ x && x ≤ i.high * d else i.low * d < x && x < i.high * d

/-- A power of ten as a ratio. -/
def powerOfTen (e : Int) : Nat × Nat :=
  if e < 0 then (1, Nat.pow 10 e.natAbs) else (Nat.pow 10 e.natAbs, 1)

/-- The least `k` with `num / den < 10 ^ k`. -/
def magnitude (num den : Nat) : Int :=
  let whole := num / den
  if whole = 0 then go (den.log2 + 1) 0 else (Nat.toDigits 10 whole).length
where
  /-- Counts the zeros behind the point. -/
  go : Nat → Nat → Int
    | 0, k => -(k : Int)
    | fuel + 1, k => if den ≤ num * 10 ^ (k + 1) then -(k : Int) else go fuel (k + 1)

/-- The multiple of `10 ^ e` nearest to the value of an interval among its two neighbours that lie
in the interval; a tie goes to the even multiple. -/
def onGrid? (i : Interval) (e : Int) : Option Nat :=
  let p := powerOfTen e
  let below := i.value * p.2 / (i.den * p.1)
  let inside (n : Nat) : Bool := i.contains (n * p.1) p.2
  let nearest := Binary64.divideEven (i.value * p.2) (i.den * p.1)
  let other := if nearest = below then below + 1 else below
  if inside nearest then some nearest
  else if inside other then some other
  else none

/-- The fewest decimal digits that read back, with the place of the point behind `0`: the number is
`0.digits · 10 ^ place`. At most 17 digits are needed. -/
def digits (mantissa : Nat) (exponent : Int) : List Char × Int :=
  let i := interval mantissa exponent
  let top := magnitude i.value i.den
  go i top 17 1
where
  /-- Tries one digit more. -/
  go (i : Interval) (top : Int) : Nat → Nat → List Char × Int
    | 0, _ => ([], top)
    | fuel + 1, n =>
        match onGrid? i (top - n) with
        | some 0 => go i top fuel (n + 1)
        | some d =>
            let ds := Nat.toDigits 10 d
            (trimZeros ds, top + ds.length - n)
        | none => go i top fuel (n + 1)
  /-- Zeros at the end are left off. -/
  trimZeros (ds : List Char) : List Char := (ds.reverse.dropWhile (· = '0')).reverse

end Shortest

/-- How the digits of a number are laid out: the places of the point for which the digits are
written with the point among them, and the number of digits of an exponent. -/
structure FloatFormat where
  leastPlace : Int
  greatestPlace : Int
  exponentDigits : Nat

namespace FloatFormat

/-- Digits with the point at a place, and with a zero where no digit would stand beside it. -/
def positional (ds : List Char) (place : Int) : List Char :=
  if place ≤ 0 then '0' :: '.' :: List.replicate place.natAbs '0' ++ ds
  else
    let whole := ds.take place.toNat ++ List.replicate (place.toNat - ds.length) '0'
    let behind := ds.drop place.toNat
    whole ++ '.' :: (if behind.isEmpty then ['0'] else behind)

/-- Digits with the point behind the first one, and an exponent. -/
def scientific (f : FloatFormat) (ds : List Char) (place : Int) : List Char :=
  let e := place - 1
  let es := Nat.toDigits 10 e.natAbs
  let behind := ds.drop 1
  ds.take 1 ++ (if behind.isEmpty then [] else '.' :: behind) ++
    'e' :: (if e < 0 then '-' else '+') ::
    (List.replicate (f.exponentDigits - es.length) '0' ++ es)

/-- Writes a number with the fewest digits that read back. -/
def write (f : FloatFormat) : Binary64 → String
  | .notANumber => "nan"
  | .infinite negative => if negative then "-inf" else "inf"
  | .finite negative m e =>
      let body :=
        if m = 0 then ['0', '.', '0']
        else
          let (ds, place) := Shortest.digits m e
          if f.leastPlace ≤ place && place ≤ f.greatestPlace then positional ds place
          else f.scientific ds place
      String.ofList (if negative then '-' :: body else body)

end FloatFormat

end YamlNavigator
