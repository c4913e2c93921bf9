import YamlNavigator.Text.StandIn
import YamlNavigator.Yaml.Scan

/-!
Scalars between quotes.

* `Scan.escape`: the character that an escape after a backslash stands for;
* `Scan.foldedBreaks`: the line breaks and blanks between two lines of a scalar;
* `Scan.quotedRun`, `Scan.quotedBlanks`: the text up to the next blank, and the blanks or line
  breaks after it: a single line break becomes a space, of several the first one is left out;
* `Scan.quotedLexeme`: a scalar between single or double quotes.
-/

namespace YamlNavigator.Yaml.Scan

open Text

/-- The characters that the one-letter escapes stand for. -/
def namedEscape? (c : Char) : Option Char :=
  match c with
  | '0' => some '\x00'
  | 'a' => some '\x07'
  | 'b' => some '\x08'
  | 't' => some '\t'
  | '\t' => some '\t'
  | 'n' => some '\n'
  | 'v' => some '\x0b'
  | 'f' => some '\x0c'
  | 'r' => some '\r'
  | 'e' => some '\x1b'
  | ' ' => some ' '
  | '\x22' => some '\x22'
  | '\\' => some '\\'
  | '/' => some '/'
  | 'N' => some '\x85'
  | '_' => some '\xa0'
  | 'L' => some '\u2028'
  | 'P' => some '\u2029'
  | _ => none

/-- The number of digits that a numeric escape takes. -/
def escapeWidth? (c : Char) : Option Nat :=
  match c with
  | 'x' => some 2
  | 'u' => some 4
  | 'U' => some 8
  | _ => none

/-- Reads the digits of a numeric escape. A surrogate that stands alone has a character in its
place. -/
def numericEscape (width : Nat) : Scan Char := do
  let digits := (← ahead).take width
  let valid := digits.takeWhile isHexDigit
  if valid.length < width then fail (.expectedHexEscape width (← peek valid.length))
  let code := numberOf 16 digits
  if 0x7fffffff < code then raise .escapeTooLarge
  if 0x10ffff < code then raise .escapeNoCodePoint
  advance width
  return ofCodePoint code

/-- Moves over the breaks and blanks before the next line that is not empty; answers the breaks. A
scalar cannot go on behind a marker between documents. -/
def foldedBreaks : Scan (List Char) :=
  iterate
    (fun breaks => do
      if ← atSeparator then fail .separatorInQuoted
      skipWhile fun c => c = ' ' || c = '\t'
      match ← lineBreak with
      | some c => return .yield (breaks ++ [c])
      | none => return .done breaks)
    []

/-- Reads an escape, after its backslash. An escaped line break joins two lines. -/
def escape : Scan (List Char) := do
  let c ← peek 0
  if let some r := c.bind namedEscape? then
    advance 1
    return [r]
  else if let some width := c.bind escapeWidth? then
    advance 1
    return [← numericEscape width]
  else if c.any isBreak then
    let _ ← lineBreak
    foldedBreaks
  else fail (.unknownEscape c)

/-- The characters at which a run of plain text inside quotes stops. -/
def stopsQuotedRun (c : Char) : Bool :=
  isBlankOrBreak c || c = '\x27' || c = '\x22' || c = '\\'

/-- Reads the text up to the next blank, line break or closing quote. -/
def quotedRun (double : Bool) : Scan (List Char) :=
  iterate
    (fun s => do
      match ← peek 0 with
      | none => return .done s
      | some c =>
          if !stopsQuotedRun c then
            return .yield (s ++ (← takeWhile fun c => !stopsQuotedRun c))
          else if !double && c = '\x27' && (← peek 1) == some '\x27' then
            advance 2
            return .yield (s ++ ['\x27'])
          else if (double && c = '\x27') || (!double && (c = '\x22' || c = '\\')) then
            advance 1
            return .yield (s ++ [c])
          else if double && c = '\\' then
            advance 1
            return .yield (s ++ (← escape))
          else return .done s)
    []

/-- Reads the blanks and line breaks between two runs. -/
def quotedBlanks : Scan (List Char) := do
  let blanks ← takeWhile fun c => c = ' ' || c = '\t'
  if (← peek 0).isNone then fail .endInQuoted
  match ← lineBreak with
  | some first => return foldBreaks first (← foldedBreaks)
  | none => return blanks

/-- Reads a scalar between quotes. -/
def quotedLexeme (double : Bool) : Scan Lexeme := do
  let start ← here
  let quote := if double then '\x22' else '\x27'
  advance 1
  let first ← quotedRun double
  let text ← iterate
    (fun s => do
      if ← nextIs quote then return .done s
      else
        let blanks ← quotedBlanks
        return .yield (s ++ String.ofList (blanks ++ (← quotedRun double))))
    (String.ofList first)
  advance 1
  let style := if double then ScalarStyle.doubleQuoted else .singleQuoted
  return ⟨.scalar text style, start, ← here⟩

end YamlNavigator.Yaml.Scan
