import YamlNavigator.Document.Node
import YamlNavigator.Document.Tiling
import YamlNavigator.Text.Blank
import YamlNavigator.Yaml.Event

/-!
From events to the tree of a stream.

A body is at the path `$`, the items of a sequence at `p` are at `p[0]`, `p[1]` and so on, and an
entry of a mapping at `p` is at `p.key` together with its key and its value.

* `Source`: the text, and its lexical units with their tokens;
* `Source.definingToken?`, `Source.propertyTokens`: the tokens of a node, found by offsets;
* `Anchors`, `keySegment`: what a key contributes to the paths below it;
* `Compose.Fault`: how a list of events can fail to describe a stream;
* `Compose.node`, `Compose.items`, `Compose.entries`: a node and the contents of collections, with a
  bound on the nested calls; two calls for each event are always enough;
* `Compose.stream`: the tree of a stream.
-/

namespace YamlNavigator

open Yaml

/-! ### Tokens of a node -/

/-- A text, and its lexical units in order, each with its token. -/
structure Source where
  text : List Char
  units : List (Lexeme × Token)

namespace Source

/-- The first unit of an accepted kind among those at the front of a list: properties and units
without text are passed over. -/
def firstAccepted? (accepts : Content → Bool) (stop : Nat) : List (Lexeme × Token) → Option Token
  | [] => none
  | (l, t) :: us =>
      if accepts l.content && l.stop.index ≤ stop then some t
      else if l.isProperty || l.isEmpty then firstAccepted? accepts stop us
      else none

/-- The token that defines a node with an extent: the first unit of an accepted kind in it. A node
with nothing written falls back on the nearest unit with text before it. -/
def definingToken? (src : Source) (accepts : Content → Bool) (start stop : Nat) : Option Token :=
  match firstAccepted? accepts stop (src.units.dropWhile (·.1.start.index < start)) with
  | some t => some t
  | none =>
      ((src.units.takeWhile (·.1.start.index < start)).reverse.find? fun u =>
        !u.1.isEmpty && u.1.stop.index ≤ stop).map (·.2)

/-- The properties at the front of a list of units, up to the first other unit with text. -/
def leadingProperties : List (Lexeme × Token) → List Token
  | [] => []
  | (l, t) :: us =>
      if l.isProperty then t :: leadingProperties us
      else if l.isEmpty then leadingProperties us
      else []

/-- The tokens of the anchor and the tag of a node that starts at an offset. -/
def propertyTokens (src : Source) (anchor tag : Option String) (start : Nat) : List Token :=
  if anchor.isNone && tag.isNone then []
  else leadingProperties (src.units.dropWhile (·.1.start.index < start))

/-- The text between two offsets. -/
def slice (src : Source) (start stop : Nat) : List Char :=
  (src.text.drop start).take (stop - start)

end Source

/-- The units that can define a scalar. -/
def isScalarUnit : Content → Bool
  | .scalar _ _ => true
  | _ => false

/-- The units that can define an alias. -/
def isReferenceUnit : Content → Bool
  | .reference _ => true
  | _ => false

/-- The units that can define a mapping. -/
def isMappingUnit : Content → Bool
  | .blockMappingStart | .flowMappingStart => true
  | _ => false

/-- The units that can define a sequence; one without indentation begins with its first hyphen. -/
def isSequenceUnit : Content → Bool
  | .blockSequenceStart | .flowSequenceStart | .blockEntry => true
  | _ => false

/-- The unit that defines a document with a marker. -/
def isDocumentUnit : Content → Bool
  | .documentStart => true
  | _ => false

/-! ### Keys -/

/-- The anchors of a document, the latest first, each with the text of its scalar; an anchor of a
collection has none. -/
abbrev Anchors := List (String × Option String)

/-- The anchors after a node that may carry one. -/
def Anchors.define (anchors : Anchors) (anchor value : Option String) : Anchors :=
  match anchor with
  | some name => (name, value) :: anchors
  | none => anchors

/-- The segment that a key contributes to paths: its text, the text of the scalar that it refers to,
or else what is written. -/
def keySegment (src : Source) (anchors : Anchors) : Node → String
  | .scalar _ v => v.getD ""
  | .reference _ v =>
      let name := v.getD ""
      match anchors.lookup name with
      | some (some text) => text
      | _ => "*" ++ name
  | n => String.ofList (Text.strip (src.slice n.start n.stop))

namespace Compose

/-- How a list of events can fail to describe a stream. -/
inductive Fault where
  /-- The events end inside the stream. -/
  | exhausted
  /-- A node cannot begin with this event. -/
  | unexpected (step : Step)
  deriving DecidableEq, Repr

/-- A value that was composed, the anchors after it, and the events behind it. -/
structure Composed (α : Type) where
  value : α
  anchors : Anchors
  rest : List Event

/-- The contents of a collection, with the offset after its end event. -/
structure Contents where
  nodes : List Node
  stop : Nat

/-- Where a collection stops: a block collection with its last child, any other with its end. -/
def collectionStop (flow : Bool) (c : Contents) : Nat :=
  if flow || c.nodes.isEmpty then c.stop
  else c.nodes.foldl (fun m n => max m n.stop) 0

/-- What a node carries. -/
def nodeInfo (src : Source) (accepts : Content → Bool) (path : String) (anchor tag : Option String)
    (e : Event) (stop : Nat) : NodeInfo where
  path := path
  token := src.definingToken? accepts e.start.index e.stop.index
  start := e.start.index
  stop := stop
  anchor := anchor
  properties := src.propertyTokens anchor tag e.start.index

/-- The path of an item of a sequence. -/
def itemPath (path : String) (index : Nat) : String := s!"{path}[{index}]"

/-- The path of an entry of a mapping. -/
def entryPath (path segment : String) : String := path ++ "." ++ segment

/-- A path below `path`, moved below `target`. -/
def reroot (path target p : String) : String :=
  target ++ String.ofList (p.toList.drop path.length)

mutual

/-- Composes a node at a path. -/
def node (src : Source) : Nat → Anchors → String → List Event → Except Fault (Composed Node)
  | 0, _, _, _ => .error .exhausted
  | _ + 1, _, _, [] => .error .exhausted
  | n + 1, anchors, path, e :: rest =>
      match e.step with
      | .reference name =>
          let info := nodeInfo src isReferenceUnit path none none e e.stop.index
          .ok ⟨.reference info (some name), anchors, rest⟩
      | .scalar value anchor tag =>
          let info := nodeInfo src isScalarUnit path anchor tag e e.stop.index
          .ok ⟨.scalar info (some value), anchors.define anchor (some value), rest⟩
      | .sequenceStart anchor tag flow => do
          let c ← items src n anchors path 0 rest
          let info :=
            nodeInfo src isSequenceUnit path anchor tag e (collectionStop flow c.value)
          return ⟨.sequence info c.value.nodes, c.anchors.define anchor none, c.rest⟩
      | .mappingStart anchor tag flow => do
          let c ← entries src n anchors path rest
          let info :=
            nodeInfo src isMappingUnit path anchor tag e (collectionStop flow c.value)
          return ⟨.mapping info c.value.nodes, c.anchors.define anchor none, c.rest⟩
      | step => .error (.unexpected step)

/-- Composes the items of a sequence, from the one with a given index on. -/
def items (src : Source) :
    Nat → Anchors → String → Nat → List Event → Except Fault (Composed Contents)
  | 0, _, _, _, _ => .error .exhausted
  | _ + 1, _, _, _, [] => .error .exhausted
  | n + 1, anchors, path, index, e :: rest =>
      if e.step = .sequenceEnd then .ok ⟨⟨[], e.stop.index⟩, anchors, rest⟩
      else do
        let item ← node src n anchors (itemPath path index) (e :: rest)
        let more ← items src n item.anchors path (index + 1) item.rest
        return ⟨⟨item.value :: more.value.nodes, more.value.stop⟩, more.anchors, more.rest⟩

/-- Composes the entries of a mapping. A key is composed at the path of the mapping; once its
segment is known, it is moved to the path of its entry. -/
def entries (src : Source) :
    Nat → Anchors → String → List Event → Except Fault (Composed Contents)
  | 0, _, _, _ => .error .exhausted
  | _ + 1, _, _, [] => .error .exhausted
  | n + 1, anchors, path, e :: rest =>
      if e.step = .mappingEnd then .ok ⟨⟨[], e.stop.index⟩, anchors, rest⟩
      else do
        let key ← node src n anchors path (e :: rest)
        let target := entryPath path (keySegment src key.anchors key.value)
        let value ← node src n key.anchors target key.rest
        let more ← entries src n value.anchors path value.rest
        let entry := Node.entryOf target (key.value.mapPaths (reroot path target)) value.value
        return ⟨⟨entry :: more.value.nodes, more.value.stop⟩, more.anchors, more.rest⟩

end

/-- The bound on the nested calls for a list of events. -/
def bound (es : List Event) : Nat := 2 * es.length + 2

/-- The path of the body of a document. -/
def rootPath : String := "$"

/-- Composes a document. With a marker, the marker defines it, otherwise its body's token does. -/
def document (src : Source) (first : Event) (rest : List Event) :
    Except Fault (Node × List Event) := do
  let body ← node src (bound rest) [] rootPath rest
  match body.rest with
  | [] => .error .exhausted
  | last :: rest =>
      let token :=
        if first.step = .documentStart true then
          src.definingToken? isDocumentUnit first.start.index last.stop.index
        else body.value.token
      return (.documentOf (some body.value) token first.start.index last.stop.index, rest)

/-- Composes documents up to the end of the stream. -/
def documents (src : Source) : Nat → List Event → Except Fault (List Node × List Event)
  | 0, _ => .error .exhausted
  | _ + 1, [] => .error .exhausted
  | n + 1, e :: rest =>
      if e.step = .streamEnd then .ok ([], rest)
      else do
        let (d, rest) ← document src e rest
        let (ds, rest) ← documents src n rest
        return (d :: ds, rest)

/-- Composes the tree of a stream; answers it with the events behind the stream's end. -/
def stream (src : Source) (es : List Event) : Except Fault (Node × List Event) := do
  let (ds, rest) ← documents src (bound es) es.tail
  return (.documentSetOf ds, rest)

end Compose

end YamlNavigator
