import YamlNavigator.Text.Lines

/-!
Moving a block of lines to the left margin.

* `Text.isMarginChar`: spaces and tabs, the characters that a margin is made of;
* `Text.clearBlankLines`: lines of margin characters only become empty;
* `Text.commonPrefix`, `Text.margin?`: the longest margin that all other lines share;
* `Text.dedent`: the lines without that margin.
-/

namespace YamlNavigator.Text

/-- Margins are made of spaces and tabs. -/
def isMarginChar (c : Char) : Bool :=
  c = ' ' || c = '\t'

/-- Lines of margin characters only become empty. -/
def clearBlankLines (ls : List (List Char)) : List (List Char) :=
  ls.map fun l => if l.all isMarginChar then [] else l

/-- The longest text that both texts begin with. -/
def commonPrefix : List Char → List Char → List Char
  | c :: s, d :: t => if c = d then c :: commonPrefix s t else []
  | _, _ => []

/-- The margin shared by all lines that are not empty, if there are any. -/
def margin? (ls : List (List Char)) : Option (List Char) :=
  ls.foldl
    (fun m l =>
      if l.isEmpty then m
      else
        let own := l.takeWhile isMarginChar
        match m with
        | none => some own
        | some shared => some (commonPrefix shared own))
    none

/-- A line without the margin; a line that does not begin with it stays as it is. -/
def dropMargin (m l : List Char) : List Char :=
  if m.isPrefixOf l then l.drop m.length else l

/-- A block of lines without its shared margin; lines of spaces and tabs only become empty. -/
def dedent (s : List Char) : List Char :=
  let ls := clearBlankLines (lines s)
  joinLines (ls.map (dropMargin ((margin? ls).getD [])))

end YamlNavigator.Text
