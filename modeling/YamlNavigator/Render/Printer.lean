import YamlNavigator.Ansi.Escape
import YamlNavigator.Ansi.Style
import YamlNavigator.Config.Settings
import YamlNavigator.Document.Parsed
import YamlNavigator.Render.Layout

/-!
Writing a document with its matches set off.

* `Palette`, `Palette.paint`: what is written for a text of a category;
* `Printer`: two palettes and the gutter in front of numbered lines;
* `Printer.Fault`: why a stream is not rendered;
* `Printer.writeLine`, `Printer.numberLines`: the text of a line, and lines with their numbers;
* `Printer.render`: the text of a stream;
* `Palette.ofStyles`, `Printer.ofSettings`: palettes and printers made from settings.
-/

namespace YamlNavigator

open Text

/-- What is written for a text of each category. A text whose codes cannot be read is refused. -/
abbrev Palette := Category → String → Except Integer.Fault String

namespace Palette

/-- The palette of functions that refuse no text. -/
def ofFunctions (f : Category → String → String) : Palette := fun c s => .ok (f c s)

/-- The palette that leaves every text as it is. -/
def bare : Palette := ofFunctions fun _ s => s

/-- What is written for a text; without a category it stays as it is. -/
def paint (p : Palette) (category : Option Category) (s : String) :
    Except Integer.Fault String :=
  match category with
  | some c => p c s
  | none => .ok s

end Palette

/-- The palettes for highlighted text and for other text, what is written in front of numbered
lines, and what stands between the number and the line. -/
structure Printer where
  plain : Palette := Palette.bare
  highlighted : Palette := Palette.bare
  gutter : String → String := fun s => s
  separator : String := " │ "

namespace Printer

/-- Why a stream is not rendered. -/
inductive Fault where
  | token (fault : NoSuchToken)
  | code (fault : Integer.Fault)
  deriving DecidableEq, Repr

/-- The wording of a fault. -/
def Fault.message : Fault → String
  | .token fault => fault.message
  | .code fault => fault.message

/-- The text of a piece. -/
def writePiece (p : Printer) : Piece → Except Integer.Fault String
  | .bare s => .ok (String.ofList s)
  | .painted on category s =>
      (if on then p.highlighted else p.plain).paint category (String.ofList s)

/-- The text of a line. -/
def writeLine (p : Printer) (line : List Piece) : Except Integer.Fault String :=
  (line.mapM p.writePiece).map String.join

/-- Lines with their numbers in front, all written with the digits that the last one takes. -/
def numberLines (p : Printer) (ls : List String) : List String :=
  let width := (Integer.decimal ls.length).length
  (ls.zipIdx 1).map fun l => p.gutter (Integer.padded width l.2 ++ p.separator) ++ l.1

/-- The text of lines of pieces. -/
def write (p : Printer) (lineNumbers : Bool) (layout : List (List Piece)) :
    Except Integer.Fault String :=
  (layout.mapM p.writeLine).map fun ls =>
    "\n".intercalate (if lineNumbers then p.numberLines ls else ls)

/-- The text of a stream with the tokens of matches set off, and the matches. A stream without
tokens has neither. Of two faults the one of the earlier token counts. -/
def render (p : Printer) (s : Stream) (m : Matches) (lineNumbers : Bool) :
    Except Fault (String × List Found) := do
  if s.size = 0 then return ("", [])
  let (layout, missing) := s.layout m
  let text ← (p.write lineNumbers layout).mapError .code
  match missing with
  | some fault => throw (.token fault)
  | none => return (text, m.nodes)

/-- The text of a document with the matches of a query set off, and the matches. -/
def renderQuery (p : Printer) (d : Parsed) (query : String) (lineNumbers : Bool) :
    Except Fault (String × List Found) :=
  p.render d.tokens (d.documents.query query) lineNumbers

end Printer

/-! ### From settings -/

/-- What is written for a text in a style. -/
def styled (mode : ColorMode) (style : String) (linking : Ansi.Style.Linking := .bare) :
    Except Ansi.Style.Fault (String → String) :=
  (Ansi.Style.ofText style).map fun s text => s.render mode.system text linking

/-- The palette of styles for all categories; a text of blanks only is written without codes. -/
def Palette.ofStyles (mode : ColorMode) (styles : StyleSet)
    (linking : Ansi.Style.Linking := .bare) : Except Ansi.Style.Fault Palette := do
  let table ← Category.all.mapM fun c =>
    (styled mode (styles.get c) linking).map fun f => (c, fun s => Ansi.cleanBlank (f s))
  return fun c => (table.lookup c).getD .ok

/-- The printer of settings; without colour only the separator is taken from them. -/
def Printer.ofSettings (x : Settings) (color : Bool) (linking : Ansi.Style.Linking := .bare) :
    Except Ansi.Style.Fault Printer := do
  if !color then return { separator := x.gutterSeparator }
  let plain ← Palette.ofStyles x.colorMode x.plainStyles linking
  let highlighted ← Palette.ofStyles x.colorMode x.highlightedStyles linking
  let gutter ← styled x.colorMode x.gutterStyle linking
  return { plain, highlighted, gutter, separator := x.gutterSeparator }

end YamlNavigator
