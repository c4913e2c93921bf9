import YamlNavigator.Text.Digit
import YamlNavigator.Text.Printable
import YamlNavigator.Text.StandIn

/-!
Texts as they are shown inside messages: between quotes, on one line, with every character that
cannot be printed written as an escape.

* `Text.hexDigits`: a number in base sixteen, padded with zeros;
* `Text.quoteMark`: the quote that surrounds a text, the single one unless only it occurs inside;
* `Text.escaped`: what is written for one character;
* `Text.quoted`: the quoted text;
* `Text.unencodable`: what is said of a character that cannot be written.
-/

namespace YamlNavigator.Text

/-- The digit of a value below sixteen, in lower case. -/
def hexDigit (v : Nat) : Char :=
  Char.ofNat (if v < 10 then 48 + v else 87 + v)

/-- The last `width` digits of a number in base sixteen. -/
def hexDigits : Nat → Nat → List Char
  | 0, _ => []
  | width + 1, n => hexDigits width (n / 16) ++ [hexDigit (n % 16)]

/-- The single quote surrounds a text, unless the text holds single quotes and no double ones. -/
def quoteMark (s : List Char) : Char :=
  if s.contains '\x27' && !s.contains '\x22' then '\x22' else '\x27'

/-- What is written for one character between quotes of the given kind. Surrogates are written with
their own numbers. -/
def escaped (quote c : Char) : List Char :=
  if c = quote || c = '\\' then ['\\', c]
  else if c = '\t' then ['\\', 't']
  else if c = '\n' then ['\\', 'n']
  else if c = '\r' then ['\\', 'r']
  else if isStandIn c then '\\' :: 'u' :: hexDigits 4 (c.toNat - 0x50000)
  else if isPrintable c then [c]
  else if c.toNat < 0x100 then '\\' :: 'x' :: hexDigits 2 c.toNat
  else if c.toNat < 0x10000 then '\\' :: 'u' :: hexDigits 4 c.toNat
  else '\\' :: 'U' :: hexDigits 8 c.toNat

/-- A text between quotes. -/
def quotedChars (s : List Char) : List Char :=
  let q := quoteMark s
  q :: s.flatMap (escaped q) ++ [q]

/-- A text between quotes. -/
def quoted (s : String) : String :=
  String.ofList (quotedChars s.toList)

/-- One character between quotes; the end of a text is shown as the null character. -/
def quotedChar (c : Option Char) : String :=
  String.ofList (quotedChars [c.getD '\x00'])

/-- What is said of a character that cannot be written. -/
def unencodable (c : Char) : String :=
  let shown := quotedChar (some c)
  s!"can't encode character {shown}"

end YamlNavigator.Text
