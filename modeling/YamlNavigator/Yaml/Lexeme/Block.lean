import YamlNavigator.Yaml.Scan

/-!
Block scalars: the lines below a vertical bar or a greater-than sign.

* `Chomping`, `Scan.blockHeader`: what the indicators after the sign ask for;
* `Scan.blockIndentation`: the indentation found in front of the first line;
* `Scan.blockBreaks`: the empty lines before the next line of the scalar;
* `Scan.blockLines`: the lines of the scalar, joined as its style asks;
* `Scan.blockLexeme`: a block scalar.
-/

namespace YamlNavigator.Yaml

/-- What happens to the line breaks at the end of a block scalar: all are dropped, one is kept, or
all are kept. -/
inductive Chomping where
  | strip
  | clip
  | keep
  deriving DecidableEq, Repr

namespace Scan

open Text

/-- Reads a chomping indicator, if there is one. -/
def chomping : Scan (Option Chomping) := do
  match ← peek 0 with
  | some '+' => advance 1; return some .keep
  | some '-' => advance 1; return some .strip
  | _ => return none

/-- Reads an indentation indicator, if there is one. -/
def indentationIndicator : Scan (Option Nat) := do
  match ← peek 0 with
  | some c =>
      if !isAsciiDigit c then return none
      if c = '0' then fail .zeroIndentation
      advance 1
      return some (hexValue c)
  | none => return none

/-- Reads the indicators after the sign, in either order. -/
def blockHeader : Scan (Chomping × Option Nat) := do
  let first ← chomping
  let indentation ← indentationIndicator
  let second ← if first.isNone && indentation.isSome then chomping else Pure.pure none
  let c ← peek 0
  if !c.all isSpaceOrBreak then fail (.expectedBlockHeader c)
  return ((first.or second).getD .clip, indentation)

/-- The empty lines read so far and the mark after the last of them. -/
structure Breaks where
  breaks : List Char
  stop : Mark

/-- Reads the empty lines before the first line, with the largest column that a line of spaces
reaches. -/
def blockIndentation : Scan (Breaks × Nat) := do
  iterate
    (fun s => do
      match ← lineBreak with
      | some c => return .yield (⟨s.1.breaks ++ [c], ← here⟩, s.2)
      | none =>
          if ← nextIs ' ' then
            advance 1
            return .yield (s.1, max s.2 (← column))
          else return .done s)
    (⟨[], ← here⟩, 0)

/-- Moves over spaces up to a column. -/
def indentTo (indent : Nat) : Scan Unit := do
  let spaces := ((← ahead).takeWhile (· = ' ')).length
  advance (min spaces (indent - (← column)))

/-- Reads the empty lines before the next line, and that line's indentation. -/
def blockBreaks (indent : Nat) : Scan Breaks := do
  let start ← here
  indentTo indent
  iterate
    (fun s => do
      match ← lineBreak with
      | some c =>
          let stop ← here
          indentTo indent
          return .yield ⟨s.breaks ++ [c], stop⟩
      | none => return .done s)
    ⟨[], start⟩

/-- Is a line of the scalar ahead? -/
def atBlockLine (indent : Nat) : Scan Bool := do
  return (← column) == indent && (← peek 0).isSome

/-- The lines read so far: their text, the break after the last of them, and the empty lines that
follow it. -/
structure BlockText where
  text : String
  lastBreak : Option Char
  after : Breaks

/-- Reads the lines of a block scalar. In a folded one the break between two lines that begin with
no blank becomes a space, or nothing if empty lines follow it. -/
def blockLines (folded : Bool) (indent : Nat) (before : Breaks) : Scan BlockText :=
  iterate
    (fun s => do
      if !(← atBlockLine indent) then return .done s
      let flush := !(← peek 0).any indents
      let line ← takeWhile fun c => !isBreak c
      let last ← lineBreak
      let after ← blockBreaks indent
      let text := s.text ++ String.ofList (s.after.breaks ++ line)
      if !(← atBlockLine indent) then return .done ⟨text, last, after⟩
      else if folded && last == some '\n' && flush && !(← peek 0).any indents then
        let joint := if after.breaks.isEmpty then " " else ""
        return .yield ⟨text ++ joint, last, after⟩
      else return .yield ⟨text ++ String.ofList last.toList, last, after⟩)
    ⟨"", none, before⟩
where
  /-- A blank in front of a line keeps it from being folded. -/
  indents (c : Char) : Bool := c = ' ' || c = '\t'

/-- Reads a block scalar; `parent` is the indentation of the collection around it. -/
def blockLexeme (folded : Bool) (parent : Int) : Scan Lexeme := do
  let start ← here
  advance 1
  let (chomp, indentation) ← blockHeader
  ignoredLine
  let least := max 1 (parent + 1).toNat
  let (before, indent) ←
    match indentation with
    | none => do
        let (before, found) ← blockIndentation
        Pure.pure (before, max least found)
    | some n => do
        let indent := least + n - 1
        Pure.pure (← blockBreaks indent, indent)
  let body ← blockLines folded indent before
  let ending :=
    match chomp with
    | .strip => []
    | .clip => body.lastBreak.toList
    | .keep => body.lastBreak.toList ++ body.after.breaks
  let style := if folded then ScalarStyle.folded else .literal
  return ⟨.scalar (body.text ++ String.ofList ending) style, start, body.after.stop⟩

end Scan

end YamlNavigator.Yaml
