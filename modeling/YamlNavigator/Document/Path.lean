import YamlNavigator.Document.Node
import YamlNavigator.Text.Blank
import YamlNavigator.Text.Digit
import YamlNavigator.Text.Lines

/-!
Structural paths and query paths.

The structural path of a node begins with a dollar sign and goes on with `.key` and `[index]`. A
query path names the same place with dots only: `$.a.b[0].c` becomes `a.b.0.c`. The empty query path
names no place.

* `Path.dotIndices`: indices in brackets written behind a dot instead;
* `Path.canonical`: the query path of a structural path;
* `Node.queryPath`: the query path of a node;
* `Query.split?`, `Query.isValid`: the segments of a query, if it is one;
* `Node.sitsAt`: is the node at the place that a query names?
-/

namespace YamlNavigator

open Text

namespace Path

/-- The text after an index in brackets, with the digits of the index. The bracket in front has been
taken off. -/
def index? (s : List Char) : Option (List Char × List Char) :=
  match s.takeWhile isDigit, s.dropWhile isDigit with
  | d :: ds, ']' :: rest => some (d :: ds, rest)
  | _, _ => none

/-- What follows an index is shorter than the text with the index. -/
theorem length_lt_of_index? {s ds rest : List Char} (h : index? s = some (ds, rest)) :
    rest.length < s.length := by
  rw [index?] at h
  split at h
  · next d ds' rest' hd hr =>
      obtain ⟨-, rfl⟩ := Prod.mk.inj (Option.some.inj h)
      have := (List.dropWhile_suffix isDigit (l := s)).length_le
      rw [hr] at this
      simp at this
      omega
  · cases h

/-- A text in which every index in brackets is written behind a dot instead. -/
def dotIndices : List Char → List Char
  | [] => []
  | c :: s =>
      if c = '[' then
        match h : index? s with
        | some (ds, rest) =>
            have := length_lt_of_index? h
            '.' :: ds ++ dotIndices rest
        | none => c :: dotIndices s
      else c :: dotIndices s
  termination_by s => s.length

/-- Brackets are reserved for indices. -/
def hasBracket (s : List Char) : Bool := s.contains '[' || s.contains ']'

/-- The query path of a structural path; empty for the root, and for a text that is no structural
path. -/
def canonicalChars : List Char → List Char
  | '$' :: s =>
      let rest := dotIndices s
      if hasBracket rest then []
      else
        match rest with
        | '.' :: tail => tail
        | _ => []
  | _ => []

/-- The query path of a structural path; empty for the root, and for a text that is no structural
path. -/
def canonical (path : String) : String := String.ofList (canonicalChars path.toList)

/-- A path without its last segment and the dot in front of that; without a dot in it, the path
loses its last character. -/
def trimLast (s : List Char) : List Char :=
  match s.reverse.dropWhile (· != '.') with
  | _ :: before => before.reverse
  | [] => s.dropLast

end Path

/-- The query path of a node. A mapping may be reported at the path of its last entry; that segment
is left off, so that the mapping is not taken for the entry. -/
def Node.queryPath (n : Node) : String :=
  match n with
  | .mapping info entries =>
      match entries.getLast? with
      | some last =>
          if info.path = last.path then
            Path.canonical (String.ofList (Path.trimLast info.path.toList))
          else Path.canonical info.path
      | none => Path.canonical info.path
  | n => Path.canonical n.path

namespace Query

/-- Can the text be one segment of a query? It is not blank and holds no bracket. -/
def isSegment (s : List Char) : Bool := !isBlankText s && !Path.hasBracket s

/-- The segments of a query; `none` if the text is no query. -/
def split? (query : String) : Option (List String) :=
  let segments := splitOn '.' query.toList
  if segments.all isSegment then some (segments.map String.ofList) else none

/-- Is the text a query? -/
def isValid (query : String) : Bool := (split? query).isSome

end Query

/-- Is the node at the place that a query names? -/
def Node.sitsAt (n : Node) (query : String) : Bool :=
  Query.isValid query && n.queryPath != "" && n.queryPath == query

end YamlNavigator
