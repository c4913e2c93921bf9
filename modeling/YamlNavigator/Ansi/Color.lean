import YamlNavigator.Ansi.Palette
import YamlNavigator.Decimal.Binary64
import YamlNavigator.Text.Integer
import YamlNavigator.Text.Lines
import YamlNavigator.Text.LowerCase

/-!
Colours of terminals.

* `ColorSystem`: the colours that a terminal can show;
* `Color`: a colour as it is asked for;
* `Color.Fault`, `Color.ofText`: reads a colour from its name, its number, or its parts;
* `nearest`: the colour of a palette that looks most like a given one;
* `Color.isGrey`, `Color.toExtended`, `Color.toStandard`, `Color.reduce`: the colour that stands for
  another one where fewer can be shown;
* `Color.codes`: the codes that select a colour.
-/

namespace YamlNavigator.Ansi

open Text

/-- The colours that a terminal can show: sixteen, 256, or all. -/
inductive ColorSystem where
  | standard
  | extended
  | full
  deriving DecidableEq, Repr, Inhabited

/-- A colour as it is asked for: the terminal's own, one of sixteen, one of 256, or by its parts. -/
inductive Color where
  | default
  | standard (number : Nat)
  | extended (number : Nat)
  | full (rgb : Rgb)
  deriving DecidableEq, Repr, Inhabited

namespace Color

/-! ### Reading -/

/-- Why a text is not read as a colour. The last cause is kept apart from the others by callers: it
is a part that is no number, and not a colour out of bounds. -/
inductive Fault where
  | unknown (text : String)
  | numberTooLarge (text : String)
  | partCount (text : String)
  | partTooLarge (text : String)
  | part (fault : Integer.Fault)
  deriving DecidableEq, Repr

/-- The wording of a fault. -/
def Fault.message : Fault → String
  | .unknown text => s!"{quoted text} is not a valid color"
  | .numberTooLarge text => s!"color number must be <= 255 in {quoted text}"
  | .partCount text => s!"expected three components in {quoted text}"
  | .partTooLarge text => s!"color components must be <= 255 in {quoted text}"
  | .part fault => fault.message

/-- The colour of a number. -/
def ofNumber (n : Nat) : Color := if n < 16 then .standard n else .extended n

/-- The text inside a function's parentheses. -/
def arguments? (name s : List Char) : Option (List Char) :=
  if name.isPrefixOf s && s.getLast? == some ')' then some (s.drop name.length).dropLast else none

/-- The digits of a colour's number: one to three. -/
def numberDigits? (s : List Char) : Option (List Char) :=
  match arguments? "color(".toList s with
  | some ds => if 1 ≤ ds.length && ds.length ≤ 3 && ds.all isAsciiDigit then some ds else none
  | none => none

/-- The parts of a colour between commas, each of digits and blanks. -/
def parts? (s : List Char) : Option (List (List Char)) :=
  match arguments? "rgb(".toList s with
  | some body =>
      if !body.isEmpty && body.all fun c => isDigit c || isBlank c || c = ',' then
        some (splitOn ',' body)
      else none
  | none => none

/-- The digits of a colour in base sixteen: six behind a number sign. -/
def hexDigits? (s : List Char) : Option (List Char) :=
  match s with
  | '#' :: ds => if ds.length = 6 && ds.all isHexDigit then some ds else none
  | _ => none

/-- Reads a part of a colour. -/
def part (s : List Char) : Except Fault Nat :=
  ((Integer.ofText (String.ofList s)).mapError Fault.part).map Int.toNat

/-- Reads a colour in any case: `default`, a name, `#` with six digits, `color(number)` or
`rgb(red,green,blue)`. -/
def ofText (text : String) : Except Fault Color := do
  let s := strip (lower text.toList)
  if s = "default".toList then return .default
  match colorNames.lookup (String.ofList s) with
  | some n => return ofNumber n
  | none => pure ()
  match hexDigits? s with
  | some ds =>
      let byte (k : Nat) : Nat := numberOf 16 ((ds.drop k).take 2)
      return .full ⟨byte 0, byte 2, byte 4⟩
  | none => pure ()
  match numberDigits? s with
  | some ds =>
      let n := numberOf 10 ds
      if 255 < n then throw (.numberTooLarge (String.ofList s))
      return ofNumber n
  | none => pure ()
  match parts? s with
  | some [r, g, b] =>
      let red ← part r
      let green ← part g
      let blue ← part b
      if 255 < red || 255 < green || 255 < blue then throw (.partTooLarge text)
      return .full ⟨red, green, blue⟩
  | some _ => throw (.partCount text)
  | none => throw (.unknown text)

/-! ### Fewer colours -/

/-- How different two colours look: the parts are weighed by how much red there is. -/
def distance (a b : Rgb) : Nat :=
  let mean := (a.red + b.red) / 2
  let square (x y : Nat) : Nat := (x - y + (y - x)) * (x - y + (y - x))
  (512 + mean) * square a.red b.red / 256 + 4 * square a.green b.green +
    (767 - mean) * square a.blue b.blue / 256

/-- The number of the colour of a palette that looks most like a given one, the first of several. -/
def nearest (palette : List Rgb) (c : Rgb) : Nat :=
  let best := palette.zipIdx.foldl
    (fun best p =>
      let d := distance c p.1
      match best with
      | some (least, _) => if d < least then some (d, p.2) else best
      | none => some (d, p.2))
    none
  (best.map (·.2)).getD 0

/-- The ratio nearest to a given one among those that 53 binary digits can hold. -/
def rounded (num den : Nat) : Nat × Nat :=
  match Binary64.ofRatio false num den with
  | .finite _ m e =>
      let p := Binary64.powerOfTwo e
      (m * p.1, p.2)
  | _ => (num, den)

/-- The sum of two ratios. -/
def plus (a b : Nat × Nat) : Nat × Nat := rounded (a.1 * b.2 + b.1 * a.2) (a.2 * b.2)

/-- The difference of two ratios, of which the first is not the smaller one. -/
def minus (a b : Nat × Nat) : Nat × Nat := rounded (a.1 * b.2 - b.1 * a.2) (a.2 * b.2)

/-- Is a colour with this greatest and this least part so little saturated that it counts as grey?
The bound is a saturation of 0.15, computed with 53 binary digits. -/
def isGrey (greatest least : Nat) : Bool :=
  if greatest = least then true
  else
    let high := rounded greatest 255
    let low := rounded least 255
    let range := minus high low
    let total := plus high low
    let width := if total.1 ≤ total.2 then total else minus (minus (2, 1) high) low
    let saturation := rounded (range.1 * width.2) (range.2 * width.1)
    let bound := rounded 15 100
    saturation.1 * bound.2 < bound.1 * saturation.2

/-- The step of the colour cube nearest to a part, halves to the even step. -/
def cubeStep (part : Nat) : Nat :=
  if part < 95 then Binary64.divideEven part 95 else Binary64.divideEven (part - 95 + 40) 40

/-- The number among 256 of a colour: a grey for little saturation, else a colour of the cube. -/
def toExtended (c : Rgb) : Nat :=
  let greatest := max c.red (max c.green c.blue)
  let least := min c.red (min c.green c.blue)
  if isGrey greatest least then
    let grey := Binary64.divideEven (25 * (greatest + least)) 510
    if grey = 0 then 16 else if grey = 25 then 231 else 231 + grey
  else 16 + 36 * cubeStep c.red + 6 * cubeStep c.green + cubeStep c.blue

/-- The standard colour nearest to a colour. -/
def toStandard (c : Rgb) : Nat := nearest standardPalette c

/-- The colour that stands for another one where only the colours of a system can be shown. -/
def reduce (system : ColorSystem) : Color → Color
  | .full c =>
      match system with
      | .standard => .standard (toStandard c)
      | .extended => .extended (toExtended c)
      | .full => .full c
  | .extended n =>
      match system with
      | .standard => .standard (toStandard (extendedPalette[n]?.getD ⟨0, 0, 0⟩))
      | _ => .extended n
  | c => c

/-- The codes that select a colour for the text, or for the ground behind it. -/
def codes (ground : Bool) : Color → List Nat
  | .default => [if ground then 49 else 39]
  | .standard n =>
      let base := if n < 8 then 30 else 82
      [base + n + if ground then 10 else 0]
  | .extended n => [if ground then 48 else 38, 5, n]
  | .full c => [if ground then 48 else 38, 2, c.red, c.green, c.blue]

end Color

end YamlNavigator.Ansi
