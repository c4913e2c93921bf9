import YamlNavigator.Render.Category
import YamlNavigator.Text.Lines

/-!
The pieces of which a rendered document is made.

* `Piece`: a stretch of text that is written as it is, or painted;
* `cutLine`: the pieces of one line of a token;
* `tokenLines`: the lines of a token;
* `glueLines`, `layoutLines`: the lines of tokens that follow one another, where the first line of a
  token goes on with the last line of the one before;
* `Stream.layout`: the lines of a stream.
-/

namespace YamlNavigator

open Text

/-- A stretch of text without line breaks: written as it is, or painted in the palette for
highlighted or for other text, in the style of a category. -/
inductive Piece where
  | bare (text : List Char)
  | painted (highlighted : Bool) (category : Option Category) (text : List Char)
  deriving DecidableEq, Repr, Inhabited

namespace Piece

/-- The text of a piece. -/
def text : Piece → List Char
  | bare s => s
  | painted _ _ s => s

end Piece

/-- What is needed to render a token: whether and for which match it is highlighted, its category,
and its text. -/
structure Marked where
  highlight : Highlight
  category : Option Category
  origin : List Char
  deriving Repr, Inhabited

namespace Marked

/-- The number of columns up to which the indentation of a continued line stays as it is: those in
front of the match that the token belongs to. -/
def ownIndent (t : Marked) : Option Int :=
  if t.highlight.isOn then
    (t.highlight.owner.bind fun f => f.node.token).map (·.position.indent)
  else none

end Marked

/-- A line without the carriage return that belongs to its break, and that carriage return. -/
def splitReturn (broken : Bool) (line : List Char) : List Char × List Char :=
  if broken && line.getLast? == some '\r' then (line.dropLast, ['\r']) else (line, [])

/-- The pieces of a line of a token. `continued` lines are all but the first, `broken` ones all but
the last. Indentation in front of the match, and a carriage return in front of the break, are not
painted. -/
def cutLine (t : Marked) (continued broken : Bool) (line : List Char) : List Piece :=
  let (text, ending) := splitReturn broken line
  let lead := (text.takeWhile (· = ' ')).length
  let indent : Int :=
    if continued then (t.ownIndent.map fun i => min i (lead : Int)).getD 0 else 0
  let cut := clampBound text.length indent
  let body := text.drop cut
  [.bare (text.take cut)] ++
    (if body.isEmpty then [] else [.painted t.highlight.isOn t.category body]) ++ [.bare ending]

/-- The lines of a token behind its first one. -/
def continuedLines (t : Marked) : List (List Char) → List (List Piece)
  | [] => []
  | [l] => [cutLine t true false l]
  | l :: ls => cutLine t true true l :: continuedLines t ls

/-- The lines of a token. -/
def tokenLines (t : Marked) : List (List Piece) :=
  match lines t.origin with
  | [] => []
  | l :: ls => cutLine t false (!ls.isEmpty) l :: continuedLines t ls

/-- The lines of two texts that follow one another: the last line of the first goes on with the
first line of the second. -/
def glueLines : List (List Piece) → List (List Piece) → List (List Piece)
  | [], ms => ms
  | [l], [] => [l]
  | [l], m :: ms => (l ++ m) :: ms
  | l :: k :: ls, ms => l :: glueLines (k :: ls) ms

/-- The lines of tokens that follow one another. -/
def layoutLines : List Marked → List (List Piece)
  | [] => [[]]
  | t :: ts => glueLines (tokenLines t) (layoutLines ts)

namespace Stream

/-- Marks a token for rendering. -/
def mark (s : Stream) (m : Matches) (t : Token) : Except NoSuchToken Marked := do
  return ⟨← s.highlight m t, ← s.categorize t, t.origin.toList⟩

/-- Marks tokens up to the first one whose neighbour is missing. -/
def markAll (s : Stream) (m : Matches) : List Token → List Marked × Option NoSuchToken
  | [] => ([], none)
  | t :: ts =>
      match s.mark m t with
      | .ok x =>
          let (xs, missing) := markAll s m ts
          (x :: xs, missing)
      | .error missing => ([], some missing)

/-- The lines of a stream, up to the first token whose neighbour is missing. Tokens without text are
left out. -/
def layout (s : Stream) (m : Matches) : List (List Piece) × Option NoSuchToken :=
  let (marked, missing) := s.markAll m (s.tokens.toList.filter fun t => !t.origin.isEmpty)
  (layoutLines marked, missing)

end Stream

end YamlNavigator
