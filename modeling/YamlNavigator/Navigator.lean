import YamlNavigator.Render.Printer
import YamlNavigator.Text.Dedent

/-!
The state of somebody who looks through a document.

* `Navigator`: a document with a query, its matches, and which of them has the focus;
* `Navigator.start`, `Navigator.navigate`, `Navigator.confirm`, `Navigator.nextMatch`,
  `Navigator.toggleLineNumbers`: the operations that change the state;
* `Navigator.focused?`, `Navigator.label`, `Navigator.scrollTarget`: what is known of the focus;
* `Parsed.nodeText`, `Navigator.output`: the text of a node, and of all matches.
-/

namespace YamlNavigator

open Text

/-- The text of a node, moved to the left margin. -/
def Parsed.nodeText (d : Parsed) (n : Node) : String :=
  let s := d.source.toList
  let column := ((s.take n.start).reverse.takeWhile (· != '\n')).length
  let own := (s.drop n.start).take (n.stop - n.start)
  String.ofList (stripIf (· = '\n') (dedent (List.replicate column ' ' ++ own)))

/-- A document that is looked through: the query, the rendered text, the matches, and the place
among them of the one that has the focus. -/
structure Navigator where
  parsed : Parsed
  printer : Printer
  suggestions : List String
  lineNumbers : Bool
  path : String := ""
  content : String := ""
  matched : List Found := []
  focus : Option Nat := none

namespace Navigator

/-- Renders the document for a query; no match has the focus then. -/
def navigate (x : Navigator) (path : String) : Except Printer.Fault Navigator := do
  let (content, matched) ← x.printer.renderQuery x.parsed path x.lineNumbers
  return { x with path, content, matched, focus := none }

/-- The state at the beginning, for the query that matches nothing. -/
def start (parsed : Parsed) (printer : Printer) (lineNumbers : Bool) :
    Except Printer.Fault Navigator :=
  navigate
    { parsed, printer, lineNumbers, suggestions := parsed.documents.suggestions } ""

/-- The match that has the focus. -/
def focused? (x : Navigator) : Option Found := x.focus.bind fun i => x.matched[i]?

/-- Moves the focus to the next match; after the last one comes the first. -/
def nextMatch (x : Navigator) : Navigator :=
  if x.matched.isEmpty then x
  else
    { x with focus := some ((x.focus.map fun i => (i + 1) % x.matched.length).getD 0) }

/-- Takes up a query: a new one is rendered and its first match gets the focus, the same one again
moves the focus to the next match. -/
def confirm (x : Navigator) (path : String) : Except Printer.Fault Navigator :=
  if path = x.path then .ok x.nextMatch else (x.navigate path).map nextMatch

/-- Shows or hides the line numbers; the focus stays. -/
def toggleLineNumbers (x : Navigator) : Except Printer.Fault Navigator := do
  let y ← { x with lineNumbers := !x.lineNumbers }.navigate x.path
  return { y with focus := x.focus }

/-- The place of the focus and the number of matches, as `2/3`. -/
def label (x : Navigator) : String :=
  if x.matched.isEmpty then ""
  else s!"{x.focus.getD 0 + 1}/{x.matched.length}"

/-- The first visible line, counted from zero, that puts the match with the focus in the middle of a
window of some height. -/
def scrollTarget (x : Navigator) (height : Int) : Int :=
  match x.focused?.bind (·.node.line) with
  | some line => max 0 (line - Int.fdiv height 2)
  | none => 0

/-- The query and the texts of all matches, with a line of hyphens between them. -/
def output (x : Navigator) : String :=
  if x.path = "" || x.matched.isEmpty then ""
  else
    let texts := x.matched.map fun f => x.parsed.nodeText f.node
    x.path ++ "\n\n" ++ "\n---\n".intercalate texts ++ "\n"

end Navigator

end YamlNavigator
