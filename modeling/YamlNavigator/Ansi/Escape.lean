import YamlNavigator.Text.Blank
import YamlNavigator.Text.Integer
import YamlNavigator.Text.Lines

/-!
The text that remains when control sequences are taken away.

* `Ansi.sequenceLength?`: the length of the control sequence at the front of a text;
* `Ansi.Part`, `Ansi.partsFrom`: the characters and the control sequences of a line;
* `Ansi.Part.codes`: the numbers of styles that a control sequence selects;
* `Ansi.plainLine`, `Ansi.plain`: a line, and a text, as they are shown;
* `Ansi.cleanBlank`: a text that shows nothing but blanks loses its control sequences.
-/

namespace YamlNavigator.Ansi

open Text

/-- The escape character, which begins every control sequence. -/
def escape : Char := '\x1b'

/-- Is the character in a range of code points? -/
def inSpan (lo hi : Nat) (c : Char) : Bool := lo ≤ c.toNat && c.toNat ≤ hi

/-- The number of characters of a command up to its terminator, an escape with a backslash, if there
is one on this line. -/
def commandLength? : List Char → Option Nat
  | '\x1b' :: '\\' :: _ => some 2
  | '\n' :: _ => none
  | _ :: s => (commandLength? s).map (· + 1)
  | [] => none

/-- The number of characters after the escape and the bracket of a control sequence: parameters,
intermediates, and a last character. -/
def bracketLength? (s : List Char) : Option Nat :=
  let parameters := s.takeWhile (inSpan 0x30 0x3f)
  let s := s.drop parameters.length
  let intermediates := s.takeWhile (inSpan 0x20 0x2f)
  match s.drop intermediates.length with
  | c :: _ =>
      if inSpan 0x40 0x7e c then some (parameters.length + intermediates.length + 1) else none
  | [] => none

/-- The length of the control sequence at the front of a text that begins behind an escape; the
escape is not counted. -/
def sequenceLength? (s : List Char) : Option Nat :=
  match s with
  | [] => none
  | c :: rest =>
      if inSpan 0x30 0x3f c then some 1
      else
        match (if c = ']' then commandLength? rest else none) with
        | some n => some (n + 1)
        | none =>
            if c = '(' || inSpan 0x40 0x5a c || inSpan 0x5c 0x5f c then some 1
            else if c = '[' then (bracketLength? rest).map (· + 1)
            else none

/-- Characters that are not shown. -/
def isHidden (c : Char) : Bool :=
  c = '\x07' || c = '\x08' || c = '\x0b' || c = '\x0c' || c = '\r'

/-- A part of a line: a character, or a control sequence without its escape. -/
inductive Part where
  | char (c : Char)
  | sequence (body : List Char)
  deriving DecidableEq, Repr

/-- The parts of a line. The number counts the characters of a sequence that are still to be passed
over. -/
def partsFrom (pass : Nat) : List Char → List Part
  | [] => []
  | c :: s =>
      match pass with
      | n + 1 => partsFrom n s
      | 0 =>
          match (if c = escape then sequenceLength? s else none) with
          | some n => .sequence (s.take n) :: partsFrom n s
          | none => .char c :: partsFrom 0 s

/-- The characters of a line that are shown. A sequence that selects a character set is followed by
the name of the set, which is one more character that is not shown. -/
def shownChars (nameFollows : Bool) : List Part → List Char
  | [] => []
  | .sequence body :: ps => shownChars (body == ['(']) ps
  | .char c :: ps =>
      if nameFollows || isHidden c then shownChars false ps else c :: shownChars false ps

/-- The numbers of styles that a sequence selects, as they are written. -/
def Part.codes : Part → List (List Char)
  | .sequence ('[' :: body) =>
      if body.getLast? == some 'm' then
        (splitOn ';' body.dropLast).filter fun code => code.all Char.isDigit
      else []
  | _ => []

/-- Checks that the numbers of styles in a line are not too long to be read. -/
def checkCodes (ps : List Part) : Except Integer.Fault Unit :=
  match (ps.flatMap Part.codes).find? fun code => Integer.digitLimit < code.length with
  | some code => .error (.tooManyDigits code.length)
  | none => .ok ()

/-- A line as it is shown: what follows the last carriage return, without control sequences and
hidden characters. -/
def plainLine (line : List Char) : Except Integer.Fault (List Char) := do
  let parts := partsFrom 0 (line.reverse.takeWhile (· != '\r')).reverse
  checkCodes parts
  return shownChars false parts

/-- A text as it is shown. -/
def plain (s : List Char) : Except Integer.Fault (List Char) :=
  ((lines s).mapM plainLine).map joinLines

/-- A text that shows nothing but blanks, and not nothing, is replaced by what it shows. -/
def cleanBlank (text : String) : Except Integer.Fault String :=
  let s := text.toList
  if !s.contains escape then .ok text
  else
    (plain s).map fun shown =>
      if !shown.isEmpty && isBlankText shown then String.ofList shown else text

end YamlNavigator.Ansi
