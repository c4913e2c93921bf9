import YamlNavigator.Toml.Reader
import YamlNavigator.Text.Utf8

/-!
Reading a TOML document.

* `Toml.Progress`: the table read so far, and which parts of it can no more be changed;
* `Toml.tableHeader`, `Toml.arrayHeader`, `Toml.assignment`: the three kinds of statements;
* `Toml.statements`: the statements of a document;
* `Toml.ofText`: the table that a text describes.

A document may be nested to any depth here. One that the stack of the runtime does not hold is set
apart where settings are loaded.
-/

namespace YamlNavigator.Toml

open Text

/-- The table read so far and the header that is in force. `declared` lists the tables that a header
must not open again, `awaiting` those that join them at the next header, `closed` the values behind
which nothing can be added. -/
structure Progress where
  fields : Fields := []
  header : List String := []
  declared : List (List String) := []
  awaiting : List (List String) := []
  closed : List (List String) := []

namespace Progress

/-- Changes the table behind a path. -/
def change (x : Progress) (path : List String) (f : Fields → Option Fields) : Read Progress := do
  match changeNest true f path x.fields with
  | some fields => return { x with fields }
  | none => refuse

/-- Tables written by dotted keys cannot be opened any more once a header follows. -/
def settle (x : Progress) : Progress :=
  { x with declared := x.awaiting ++ x.declared, awaiting := [] }

/-- Forgets what is known of a path and of all that lies behind it. -/
def forget (x : Progress) (path : List String) : Progress :=
  { x with
    declared := x.declared.filter fun p => !path.isPrefixOf p
    closed := x.closed.filter fun p => !path.isPrefixOf p }

end Progress

/-- Reads the header of a table, after its bracket. -/
def tableHeader (x : Progress) : Read Progress := do
  skipBlanks
  let path ← key
  skipBlanks
  if x.declared.contains path || isClosed x.closed path then refuse
  let x := { x with declared := path :: x.declared }
  let x ← x.change path some
  expect [']']
  return { x with header := path }

/-- Adds an empty table to an array of tables, which is made if it is missing. -/
def appendTable (name : String) (fields : Fields) : Option Fields :=
  match fields.lookup name with
  | none => some (fields ++ [(name, .array [.table []])])
  | some (.array items) =>
      some (fields.map fun p => if p.1 = name then (name, .array (items ++ [.table []])) else p)
  | some _ => none

/-- Reads the header of an item of an array of tables, after its two brackets. -/
def arrayHeader (x : Progress) : Read Progress := do
  skipBlanks
  let path ← key
  skipBlanks
  if isClosed x.closed path then refuse
  let x := x.forget path
  let x := { x with declared := path :: x.declared }
  let x ← x.change path.dropLast (appendTable (path.getLastD ""))
  expect [']', ']']
  return { x with header := path }

/-- The paths to the tables that a dotted key opens on its way. -/
def openedTables (header path : List String) : List (List String) :=
  (List.range (path.length - 1)).map fun i => header ++ path.take (i + 1)

/-- Reads a key with its value. -/
def assignment (x : Progress) : Read Progress := do
  let path ← key
  skipBlanks
  expect ['=']
  skipBlanks
  let v ← value (2 * (← get).length + 2)
  let opened := openedTables x.header path
  if opened.any x.declared.contains then refuse
  let x := { x with awaiting := opened ++ x.awaiting }
  let parent := x.header ++ path.dropLast
  if isClosed x.closed parent then refuse
  let x ← x.change parent (addField (path.getLastD "") v)
  return if isNest v then { x with closed := (x.header ++ path) :: x.closed } else x

/-- Reads the statements of a document, with a bound on their number. -/
def statements : Nat → Progress → Read Progress
  | 0, x => return x
  | n + 1, x => do
      skipBlanks
      match ← get with
      | [] => return x
      | c :: _ =>
          let x ←
            if c = '\n' || c = '#' then pure x
            else if ← skip? ['[', '['] then arrayHeader x.settle
            else if ← skip? ['['] then tableHeader x.settle
            else assignment x
          skipBlanks
          skipComment
          match ← get with
          | [] => return x
          | _ =>
              expect ['\n']
              statements n x

/-- A text in which every carriage return with a line feed is a line feed. -/
def joinReturns : List Char → List Char
  | '\r' :: '\n' :: s => '\n' :: joinReturns s
  | c :: s => c :: joinReturns s
  | [] => []

/-- The table that a text describes. -/
def ofText (s : List Char) : Except Fault Value := do
  let s := joinReturns s
  let (x, _) ← (statements (s.length + 1) {}).run s
  return .table x.fields

end YamlNavigator.Toml
