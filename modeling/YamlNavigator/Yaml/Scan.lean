import YamlNavigator.Yaml.Problem

/-!
Reading steps: computations that look at the text ahead of a cursor and move the cursor forward.

* `Scan`: a reading step, which carries the proof that it never moves backwards;
* `Scan.here`, `Scan.peek`, `Scan.advance`, `Scan.fail`: the elementary steps;
* `Scan.takeWhile`, `Scan.lineBreak`, `Scan.atSeparator`: steps for runs of characters, for line
  breaks and for the markers between documents;
* `Scan.foldBreaks`: what line breaks inside a scalar stand for;
* `Scan.iterate`: repetition of a step; a repetition ends at the latest after one round more than
  there are characters ahead, which is never early for rounds that read at least one character.
-/

namespace YamlNavigator.Yaml

/-- A reading step. It answers a value and a cursor further on, or fails. -/
structure Scan (α : Type) where
  run : Cursor → Except Failure (α × Cursor)
  before_of_run : ∀ {c : Cursor} {r : α × Cursor}, run c = .ok r → c.Before r.2

namespace Scan

variable {α β σ : Type}

/-- The step that reads nothing. -/
def pure (a : α) : Scan α where
  run c := .ok (a, c)
  before_of_run h := by cases h; exact Cursor.before_refl _

/-- A step, and a second one that depends on the value of the first. -/
def bind (x : Scan α) (f : α → Scan β) : Scan β where
  run c :=
    match x.run c with
    | .error e => .error e
    | .ok (a, d) => (f a).run d
  before_of_run {c r} h := by
    split at h
    · cases h
    · next a d hx => exact (x.before_of_run hx).trans ((f a).before_of_run h)

instance : Monad Scan where
  pure := pure
  bind := bind

/-- The mark of the cursor. -/
def here : Scan Mark where
  run c := .ok (c.mark, c)
  before_of_run h := by cases h; exact Cursor.before_refl _

/-- The unread text. -/
def ahead : Scan (List Char) where
  run c := .ok (c.rest, c)
  before_of_run h := by cases h; exact Cursor.before_refl _

/-- The unread character `k` places ahead, if the text is that long. -/
def peek (k : Nat) : Scan (Option Char) where
  run c := .ok (c.peek k, c)
  before_of_run h := by cases h; exact Cursor.before_refl _

/-- Moves over `n` characters. -/
def advance (n : Nat) : Scan Unit where
  run c := .ok ((), c.forward n)
  before_of_run h := by cases h; exact Cursor.before_forward _ _

/-- Fails. -/
def raise (e : Failure) : Scan α where
  run _ := .error e
  before_of_run h := by cases h

/-- Fails with a problem at the cursor. -/
def fail (cause : Problem) : Scan α := do
  raise (.problem cause (← here))

/-- The rounds of a repetition: at most one for each character of a text, and one more. -/
def rounds (step : σ → Scan (ForInStep σ)) : List Char → σ → Scan σ
  | [], s => do
      match ← step s with
      | .done s => pure s
      | .yield s => pure s
  | _ :: bound, s => do
      match ← step s with
      | .done s => pure s
      | .yield s => rounds step bound s

/-- Repeats a step until it says that it is done. -/
def iterate (step : σ → Scan (ForInStep σ)) (s : σ) : Scan σ := do
  rounds step (← ahead) s

/-- Reads the longest run of characters of class `p`. -/
def takeWhile (p : Char → Bool) : Scan (List Char) := do
  let run := (← ahead).takeWhile p
  advance run.length
  return run

/-- Moves over the longest run of characters of class `p`. -/
def skipWhile (p : Char → Bool) : Scan Unit := do
  let _ ← takeWhile p

/-- The column of the cursor. -/
def column : Scan Nat := do
  return (← here).column

/-- Is the next character the given one? -/
def nextIs (c : Char) : Scan Bool := do
  return (← peek 0) == some c

end Scan

/-! ### Classes of characters -/

/-- The characters that end a line. -/
def isBreak (c : Char) : Bool :=
  c = '\n' || c = '\r' || c = '\x85' || c = '\u2028' || c = '\u2029'

/-- Spaces and the characters that end a line. -/
def isSpaceOrBreak (c : Char) : Bool := c = ' ' || isBreak c

/-- Spaces, tabs and the characters that end a line. -/
def isBlankOrBreak (c : Char) : Bool := c = ' ' || c = '\t' || isBreak c

/-- The characters of names: ASCII letters and digits, the hyphen and the low line. -/
def isNameChar (c : Char) : Bool :=
  Text.isAsciiDigit c || ('A' ≤ c && c ≤ 'Z') || ('a' ≤ c && c ≤ 'z') || c = '-' || c = '_'

namespace Scan

/-- Reads a line break, if there is one. A carriage return with a line feed is one break, and every
break but the two separators of Unicode counts as a line feed. -/
def lineBreak : Scan (Option Char) := do
  match ← peek 0 with
  | none => return none
  | some c =>
      if c = '\r' && (← peek 1) == some '\n' then
        advance 2
        return some '\n'
      else if c = '\n' || c = '\r' || c = '\x85' then
        advance 1
        return some '\n'
      else if c = '\u2028' || c = '\u2029' then
        advance 1
        return some c
      else return none

/-- The text that a line break inside a scalar and the breaks after it stand for: a single break is
a space, and of several the first one is left out; a separator of Unicode always stays. -/
def foldBreaks (first : Char) (more : List Char) : List Char :=
  if first != '\n' then first :: more
  else if more.isEmpty then [' ']
  else more

/-- Is a marker between documents ahead: three hyphens or three points, with a blank, a line break
or the end of the text after them? -/
def atSeparator : Scan Bool := do
  let s ← ahead
  return (s.take 3 == ['-', '-', '-'] || s.take 3 == ['.', '.', '.']) &&
    (← peek 3).all isBlankOrBreak

/-- Moves over the rest of a line: spaces, a comment and the line break. -/
def ignoredLine : Scan Unit := do
  skipWhile (· = ' ')
  if ← nextIs '#' then skipWhile fun c => !isBreak c
  let c ← peek 0
  if !c.all isBreak then fail (.expectedCommentOrBreak c)
  let _ ← lineBreak

end Scan

end YamlNavigator.Yaml
