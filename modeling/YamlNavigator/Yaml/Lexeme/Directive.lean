import YamlNavigator.Yaml.Lexeme.Name

/-!
Directives: the lines before a document that begin with a percent sign.

* `Scan.versionNumber`, `Scan.versionValue`: the version of the language;
* `Scan.tagHandleValue`: a tag handle and the text that it stands for;
* `Scan.directiveLexeme`: a directive; of an unknown one only the name is taken.
-/

namespace YamlNavigator.Yaml.Scan

open Text

/-- Reads the name of a directive. -/
def directiveName : Scan (List Char) := do
  let name ← takeWhile isNameChar
  let c ← peek 0
  if name.isEmpty || !c.all isSpaceOrBreak then fail (.expectedNameCharacter c)
  return name

/-- Reads one of the two numbers of a version. -/
def versionNumber : Scan Nat := do
  let c ← peek 0
  if !c.any isAsciiDigit then fail (.expectedDigit c)
  let digits := (← ahead).takeWhile isAsciiDigit
  if Integer.digitLimit < digits.length then raise (.versionTooLong digits.length)
  advance digits.length
  return numberOf 10 digits

/-- Reads a version: two numbers with a point between them. -/
def versionValue : Scan Directive := do
  skipWhile (· = ' ')
  let major ← versionNumber
  let c ← peek 0
  if c != some '.' then fail (.expectedDigitOrDot c)
  advance 1
  let minor ← versionNumber
  let c ← peek 0
  if !c.all isSpaceOrBreak then fail (.expectedDigitOrSpace c)
  return .version major minor

/-- Reads a tag handle and the text that it stands for. -/
def tagHandleValue : Scan Directive := do
  skipWhile (· = ' ')
  let handle ← tagHandle
  let c ← peek 0
  if c != some ' ' then fail (.expectedSpace c)
  skipWhile (· = ' ')
  let stem ← tagUri
  let c ← peek 0
  if !c.all isSpaceOrBreak then fail (.expectedSpace c)
  return .tagHandle (String.ofList handle) (String.ofList stem)

/-- Reads a directive and moves over the rest of its line. -/
def directiveLexeme : Scan Lexeme := do
  let start ← here
  advance 1
  let name := String.ofList (← directiveName)
  let d ←
    if name = "YAML" then versionValue
    else if name = "TAG" then tagHandleValue
    else Pure.pure (.unknown name)
  let stop ← here
  if let .unknown _ := d then skipWhile fun c => !isBreak c
  ignoredLine
  return ⟨.directive d, start, stop⟩

end YamlNavigator.Yaml.Scan
