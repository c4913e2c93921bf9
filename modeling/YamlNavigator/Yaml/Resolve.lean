import YamlNavigator.Text.Digit
import YamlNavigator.Text.Lines

/-!
What a plain scalar stands for when it carries no tag.

* `PlainType`: truth values, whole numbers, fractions, nothing, and text;
* `PlainType.isBool`, `PlainType.isNull`, `PlainType.isInteger`, `PlainType.isFloat`: the spellings
  of each;
* `PlainType.ofText`: the type of a spelling.
-/

namespace YamlNavigator.Yaml

open Text

/-- What a plain scalar can stand for. -/
inductive PlainType where
  | bool
  | integer
  | float
  | null
  | text
  deriving DecidableEq, Repr

namespace PlainType

/-- The words for true and false. -/
def boolWords : List String :=
  ["yes", "Yes", "YES", "no", "No", "NO", "true", "True", "TRUE", "false", "False", "FALSE", "on",
    "On", "ON", "off", "Off", "OFF"]

/-- The words for nothing. -/
def nullWords : List String := ["~", "null", "Null", "NULL", ""]

/-- Is the spelling a truth value? -/
def isBool (s : String) : Bool := boolWords.contains s

/-- Is the spelling one of nothing? -/
def isNull (s : String) : Bool := nullWords.contains s

/-- A spelling without its sign. -/
def unsigned : List Char → List Char
  | '-' :: s => s
  | '+' :: s => s
  | s => s

/-- Digits of a class, which low lines may separate. -/
def isRun (p : Char → Bool) (s : List Char) : Bool :=
  s.all fun c => p c || c = '_'

/-- A decimal digit and a run of them. -/
def isDecimal : List Char → Bool
  | [] => false
  | c :: s => isAsciiDigit c && isRun isAsciiDigit s

/-- A digit, or two of which the first is at most five. -/
def isSixtieth : List Char → Bool
  | [c] => isAsciiDigit c
  | [c, d] => '0' ≤ c && c ≤ '5' && isAsciiDigit d
  | _ => false

/-- The parts of a number in base sixty, from the second one on. -/
def areSixtieths (parts : List (List Char)) : Bool :=
  !parts.isEmpty && parts.all isSixtieth

/-- A binary digit. -/
def isBit (c : Char) : Bool := c = '0' || c = '1'

/-- An octal digit. -/
def isOctalDigit (c : Char) : Bool := '0' ≤ c && c ≤ '7'

/-- Is the spelling a whole number: in base two, eight, ten or sixteen, or in base sixty with colons
between the digits? -/
def isInteger (s : List Char) : Bool :=
  match unsigned s with
  | ['0'] => true
  | '0' :: 'b' :: t => !t.isEmpty && isRun isBit t
  | '0' :: 'x' :: t => !t.isEmpty && isRun isHexDigit t
  | '0' :: t => isRun isOctalDigit t
  | t =>
      match splitOn ':' t with
      | [first] => isDecimal first
      | first :: more => isDecimal first && areSixtieths more
      | [] => false

/-- An exponent with its sign, or none. -/
def isExponent : List Char → Bool
  | [] => true
  | e :: sign :: t =>
      (e = 'e' || e = 'E') && (sign = '-' || sign = '+') && !t.isEmpty && t.all isAsciiDigit
  | _ => false

/-- Digits behind a point, then an exponent or none. -/
def isFraction (s : List Char) : Bool :=
  isExponent (s.dropWhile fun c => isAsciiDigit c || c = '_')

/-- Is the spelling a fraction: digits with a point, in base ten or sixty, or infinity, or no number
at all? -/
def isFloat (s : List Char) : Bool :=
  let before := (unsigned s).takeWhile (· != '.')
  match (unsigned s).dropWhile (· != '.') with
  | [] => false
  | _ :: after =>
      if before.isEmpty then
        ([".inf", ".Inf", ".INF"].contains (String.ofList (unsigned s))) ||
          ([".nan", ".NaN", ".NAN"].contains (String.ofList s)) ||
          (s.head? == some '.' && after.head?.any isAsciiDigit && isFraction after)
      else
        match splitOn ':' before with
        | [first] => isDecimal first && isFraction after
        | first :: more => isDecimal first && areSixtieths more && isRun isAsciiDigit after
        | [] => false

/-- The type of a spelling. -/
def ofText (s : String) : PlainType :=
  if isBool s then .bool
  else if isFloat s.toList then .float
  else if isInteger s.toList then .integer
  else if isNull s then .null
  else .text

end PlainType

end YamlNavigator.Yaml
