import YamlNavigator.Yaml.Scan

/-!
Plain scalars: scalars without quotes.

* `Scan.startsPlain`: where a plain scalar can begin;
* `Scan.plainRun`: the text up to a blank or an indicator;
* `Scan.plainBlanks`: the blanks and line breaks after it;
* `Scan.plainLexeme`: a plain scalar, and whether the text behind it was reached across a line
  break.
-/

namespace YamlNavigator.Yaml.Scan

open Text

/-- The characters with which no plain scalar begins, unless text follows directly. -/
def indicators : List Char :=
  ['-', '?', ':', ',', '[', ']', '\x7b', '\x7d', '#', '&', '*', '!', '|', '>', '\x27', '\x22', '%',
    '@', '\x60']

/-- Can a plain scalar begin with the character `c`, which `after` follows? A hyphen can if text
follows directly; so can, outside flow collections, a question mark or a colon. -/
def startsPlain (flow : Bool) (c : Char) (after : Option Char) : Bool :=
  (!isBlankOrBreak c && !indicators.contains c) ||
    (!after.all isBlankOrBreak && (c = '-' || (!flow && (c = '?' || c = ':'))))

/-- The brackets, braces and the comma of flow collections. -/
def isFlowIndicator (c : Char) : Bool :=
  [',', '[', ']', '\x7b', '\x7d'].contains c

/-- The text of a plain scalar up to the next blank or indicator. A colon belongs to the text if it
is followed by text. -/
def plainRun (flow : Bool) : List Char → List Char
  | [] => []
  | c :: s =>
      if isBlankOrBreak c ||
          (c = ':' && s.head?.all fun d => isBlankOrBreak d || (flow && isFlowIndicator d)) ||
          (flow && (c = '?' || isFlowIndicator c)) then
        []
      else c :: plainRun flow s

/-- The blanks between two runs: the text that they stand for, empty where the scalar cannot go on,
and whether they hold a line break. -/
structure PlainGap where
  text : List Char
  broken : Bool

/-- Reads the line breaks after the first one, up to the next text; `none` at a marker between
documents. -/
def plainBreaks : Scan (Option (List Char)) := do
  if ← atSeparator then return none
  iterate
    (fun breaks? => do
      match breaks? with
      | none => return .done none
      | some breaks =>
          if ← nextIs ' ' then
            advance 1
            return .yield (some breaks)
          else
            match ← lineBreak with
            | none => return .done (some breaks)
            | some c =>
                if ← atSeparator then return .done none
                return .yield (some (breaks ++ [c])))
    (some [])

/-- Reads the blanks after a run: a single line break becomes a space, of several the first one is
left out. -/
def plainBlanks : Scan PlainGap := do
  let blanks ← takeWhile (· = ' ')
  match ← lineBreak with
  | none => return ⟨blanks, false⟩
  | some first =>
      match ← plainBreaks with
      | none => return ⟨[], true⟩
      | some more => return ⟨foldBreaks first more, true⟩

/-- The part of a plain scalar that has been read. -/
structure PlainText where
  text : String
  gap : PlainGap
  stop : Mark

/-- Reads a plain scalar; `parent` is the indentation of the collection around it, below which a
scalar outside flow collections does not go on. -/
def plainLexeme (flow : Bool) (parent : Int) : Scan (Lexeme × Bool) := do
  let start ← here
  let s ← iterate
    (fun s => do
      if ← nextIs '#' then return .done s
      let run := plainRun flow (← ahead)
      if run.isEmpty then return .done s
      advance run.length
      let stop ← here
      let gap ← plainBlanks
      let s := ⟨s.text ++ String.ofList (s.gap.text ++ run), gap, stop⟩
      if gap.text.isEmpty || (!flow && (← column) < parent + 1) then return .done s
      return .yield s)
    (PlainText.mk "" ⟨[], false⟩ start)
  return (⟨.scalar s.text .plain, start, s.stop⟩, s.gap.broken)

end YamlNavigator.Yaml.Scan
