import YamlNavigator.Yaml.Event
import YamlNavigator.Yaml.Problem

/-!
From lexical units to events.

Each function reads one construct of the grammar from the front of a list of units. It answers the
events of the construct and the units behind it. The functions for nodes take a bound on the number
of nested calls; every call but the outermost has taken a unit off the list, so four calls for each
unit are always enough.

* `Grammar.Tagging`, `Grammar.Tagging.resolve`: the tag handles of a document and the tag they make;
* `Grammar.properties`: the anchor and the tag in front of a node;
* `Grammar.node`: a node, with `blockSequence`, `indentlessSequence`, `blockMapping`, `flowSequence`
  and `flowMapping` for the entries of collections;
* `Grammar.directives`, `Grammar.documents`: the documents of a stream;
* `Event.ofLexemes`: the events of a stream.
-/

namespace YamlNavigator.Yaml

/-- Events that were read, and the units behind them. -/
abbrev Reading := Except Failure (List Event × List Lexeme)

namespace Grammar

/-- The unit at the front of a list; an empty list stands for a stream that has ended. -/
def front (ls : List Lexeme) : Lexeme :=
  ls.headD ⟨.streamEnd, Mark.start, Mark.start⟩

/-- Refuses the unit at the front of a list. -/
def refuse {α : Type} (cause : Content → Problem) (ls : List Lexeme) : Except Failure α :=
  .error (.problem (cause (front ls).content) (front ls).start)

/-- Puts events in front of a reading. -/
def emit (es : List Event) (r : Reading) : Reading :=
  r.map fun p => (es ++ p.1, p.2)

/-- The scalar that stands where nothing is written. -/
def emptyScalar (m : Mark) : Event := ⟨.scalar "" none none, m, m⟩

/-! ### Tags and anchors -/

/-- The tag handles of a document with the texts that they stand for. -/
abbrev Tagging := List (String × String)

/-- The handles that every document has. -/
def Tagging.default : Tagging := [("!", "!"), ("!!", "tag:yaml.org,2002:")]

/-- The text that a handle stands for. -/
def Tagging.find? (t : Tagging) (handle : String) : Option String := t.lookup handle

/-- The tag made of a handle and a suffix; a tag written in full has no handle. -/
def Tagging.resolve (t : Tagging) (handle : Option String) (suffix : String) (mark : Mark) :
    Except Failure String :=
  match handle with
  | none => .ok suffix
  | some h =>
      match t.find? h with
      | some stem => .ok (stem ++ suffix)
      | none => .error (.problem (.undefinedHandle h) mark)

/-- The anchor and the tag in front of a node, with the marks of their two ends. -/
structure Properties where
  anchor : Option String
  tag : Option String
  start : Mark
  stop : Mark

/-- A tag at the front of a list. -/
def tag? (t : Tagging) (ls : List Lexeme) :
    Except Failure (Option (String × Lexeme × List Lexeme)) :=
  match ls with
  | l@⟨.tag handle suffix, start, _⟩ :: rest => do
      return some (← t.resolve handle suffix start, l, rest)
  | _ => return none

/-- An anchor at the front of a list. -/
def anchor? (ls : List Lexeme) : Option (String × Lexeme × List Lexeme) :=
  match ls with
  | l@⟨.anchor name, _, _⟩ :: rest => some (name, l, rest)
  | _ => none

/-- Reads the properties of a node, in either order. Without any, they stand empty in front of the
next unit. -/
def properties (t : Tagging) (ls : List Lexeme) :
    Except Failure (Properties × List Lexeme) := do
  match anchor? ls with
  | some (name, a, rest) =>
      match ← tag? t rest with
      | some (tag, l, rest) => return (⟨some name, some tag, a.start, l.stop⟩, rest)
      | none => return (⟨some name, none, a.start, a.stop⟩, rest)
  | none =>
      match ← tag? t ls with
      | some (tag, l, rest) =>
          match anchor? rest with
          | some (name, a, rest) => return (⟨some name, some tag, l.start, a.stop⟩, rest)
          | none => return (⟨none, some tag, l.start, l.stop⟩, rest)
      | none => return (⟨none, none, (front ls).start, (front ls).start⟩, ls)

/-! ### Nodes -/

/-- Where a node stands: inside a flow collection, in a block collection, or in a block mapping,
where a sequence may be written without indentation. -/
inductive Place where
  | flow
  | block
  | blockMapping
  deriving DecidableEq, Repr

mutual

/-- Reads a node. -/
def node (t : Tagging) (place : Place) : Nat → List Lexeme → Reading
  | 0, ls => refuse .expectedNode ls
  | n + 1, ls => do
      if let ⟨.reference name, start, stop⟩ :: rest := ls then
        return ([⟨.reference name, start, stop⟩], rest)
      let (p, ls) ← properties t ls
      let l := front ls
      let rest := ls.tail
      match l.content, place with
      | .blockEntry, .blockMapping =>
          emit [⟨.sequenceStart p.anchor p.tag false, p.start, l.stop⟩]
            (indentlessSequence t n ls)
      | .scalar text _, _ => return ([⟨.scalar text p.anchor p.tag, p.start, l.stop⟩], rest)
      | .flowSequenceStart, _ =>
          emit [⟨.sequenceStart p.anchor p.tag true, p.start, l.stop⟩]
            (flowSequence t true n rest)
      | .flowMappingStart, _ =>
          emit [⟨.mappingStart p.anchor p.tag true, p.start, l.stop⟩]
            (flowMapping t true n rest)
      | .blockSequenceStart, .block | .blockSequenceStart, .blockMapping =>
          emit [⟨.sequenceStart p.anchor p.tag false, p.start, l.start⟩]
            (blockSequence t n rest)
      | .blockMappingStart, .block | .blockMappingStart, .blockMapping =>
          emit [⟨.mappingStart p.anchor p.tag false, p.start, l.start⟩]
            (blockMapping t n rest)
      | _, _ =>
          if p.anchor.isSome || p.tag.isSome then
            return ([⟨.scalar "" p.anchor p.tag, p.start, p.stop⟩], ls)
          else refuse .expectedNode ls

/-- Reads the entries of a block sequence and its end. -/
def blockSequence (t : Tagging) : Nat → List Lexeme → Reading
  | 0, ls => refuse .expectedBlockEnd ls
  | n + 1, ls =>
      let l := front ls
      let rest := ls.tail
      match l.content with
      | .blockEntry =>
          match (front rest).content with
          | .blockEntry | .blockEnd => emit [emptyScalar l.stop] (blockSequence t n rest)
          | _ => do
              let (es, rest) ← node t .block n rest
              emit es (blockSequence t n rest)
      | .blockEnd => return ([⟨.sequenceEnd, l.start, l.stop⟩], rest)
      | _ => refuse .expectedBlockEnd ls

/-- Reads the entries of a sequence that is not indented; it ends where no entry follows. -/
def indentlessSequence (t : Tagging) : Nat → List Lexeme → Reading
  | 0, ls => refuse .expectedBlockEnd ls
  | n + 1, ls =>
      let l := front ls
      let rest := ls.tail
      match l.content with
      | .blockEntry =>
          match (front rest).content with
          | .blockEntry | .key | .value | .blockEnd =>
              emit [emptyScalar l.stop] (indentlessSequence t n rest)
          | _ => do
              let (es, rest) ← node t .block n rest
              emit es (indentlessSequence t n rest)
      | _ => return ([⟨.sequenceEnd, l.start, l.start⟩], ls)

/-- Reads the entries of a block mapping and its end. -/
def blockMapping (t : Tagging) : Nat → List Lexeme → Reading
  | 0, ls => refuse .expectedBlockEnd ls
  | n + 1, ls =>
      let l := front ls
      let rest := ls.tail
      match l.content with
      | .key =>
          match (front rest).content with
          | .key | .value | .blockEnd => emit [emptyScalar l.stop] (blockValue t n rest)
          | _ => do
              let (es, rest) ← node t .blockMapping n rest
              emit es (blockValue t n rest)
      | .blockEnd => return ([⟨.mappingEnd, l.start, l.stop⟩], rest)
      | _ => refuse .expectedBlockEnd ls

/-- Reads the value of a block mapping's entry, and the entries after it. -/
def blockValue (t : Tagging) : Nat → List Lexeme → Reading
  | 0, ls => refuse .expectedBlockEnd ls
  | n + 1, ls =>
      let l := front ls
      let rest := ls.tail
      match l.content with
      | .value =>
          match (front rest).content with
          | .key | .value | .blockEnd => emit [emptyScalar l.stop] (blockMapping t n rest)
          | _ => do
              let (es, rest) ← node t .blockMapping n rest
              emit es (blockMapping t n rest)
      | _ => emit [emptyScalar l.start] (blockMapping t n ls)

/-- Reads the entries of a flow sequence and its end; a comma stands before each entry but the
first. -/
def flowSequence (t : Tagging) (first : Bool) : Nat → List Lexeme → Reading
  | 0, ls => refuse .expectedSequenceSeparator ls
  | n + 1, ls => do
      let l := front ls
      if l.content = .flowSequenceEnd then
        return ([⟨.sequenceEnd, l.start, l.stop⟩], ls.tail)
      if !first && l.content != .flowEntry then
        refuse .expectedSequenceSeparator ls
      let ls := if first then ls else ls.tail
      let l := front ls
      let rest := ls.tail
      match l.content with
      | .key =>
          emit [⟨.mappingStart none none true, l.start, l.stop⟩] (flowPairKey t l n rest)
      | .flowSequenceEnd => return ([⟨.sequenceEnd, l.start, l.stop⟩], rest)
      | _ =>
          let (es, rest) ← node t .flow n ls
          emit es (flowSequence t false n rest)

/-- Reads the key of a flow sequence's entry that is a mapping of one pair. -/
def flowPairKey (t : Tagging) (key : Lexeme) : Nat → List Lexeme → Reading
  | 0, ls => refuse .expectedSequenceSeparator ls
  | n + 1, ls =>
      match (front ls).content with
      | .value | .flowEntry | .flowSequenceEnd =>
          emit [emptyScalar key.stop] (flowPairValue t n ls)
      | _ => do
          let (es, rest) ← node t .flow n ls
          emit es (flowPairValue t n rest)

/-- Reads the value of the pair, the end of its mapping, and the entries after it. -/
def flowPairValue (t : Tagging) : Nat → List Lexeme → Reading
  | 0, ls => refuse .expectedSequenceSeparator ls
  | n + 1, ls => do
      let l := front ls
      let rest := ls.tail
      let (es, rest) ←
        match l.content with
        | .value =>
            match (front rest).content with
            | .flowEntry | .flowSequenceEnd => Pure.pure ([emptyScalar l.stop], rest)
            | _ => node t .flow n rest
        | _ => Pure.pure ([emptyScalar l.start], ls)
      let after := (front rest).start
      emit (es ++ [⟨.mappingEnd, after, after⟩]) (flowSequence t false n rest)

/-- Reads the entries of a flow mapping and its end; a comma stands before each entry but the
first. -/
def flowMapping (t : Tagging) (first : Bool) : Nat → List Lexeme → Reading
  | 0, ls => refuse .expectedMappingSeparator ls
  | n + 1, ls => do
      let l := front ls
      if l.content = .flowMappingEnd then
        return ([⟨.mappingEnd, l.start, l.stop⟩], ls.tail)
      if !first && l.content != .flowEntry then
        refuse .expectedMappingSeparator ls
      let ls := if first then ls else ls.tail
      let l := front ls
      let rest := ls.tail
      match l.content with
      | .key =>
          match (front rest).content with
          | .value | .flowEntry | .flowMappingEnd =>
              emit [emptyScalar l.stop] (flowValue t n rest)
          | _ =>
              let (es, rest) ← node t .flow n rest
              emit es (flowValue t n rest)
      | .flowMappingEnd => return ([⟨.mappingEnd, l.start, l.stop⟩], rest)
      | _ =>
          let (es, rest) ← node t .flow n ls
          emit (es ++ [emptyScalar (front rest).start]) (flowMapping t false n rest)

/-- Reads the value of a flow mapping's entry, and the entries after it. -/
def flowValue (t : Tagging) : Nat → List Lexeme → Reading
  | 0, ls => refuse .expectedMappingSeparator ls
  | n + 1, ls =>
      let l := front ls
      let rest := ls.tail
      match l.content with
      | .value =>
          match (front rest).content with
          | .flowEntry | .flowMappingEnd => emit [emptyScalar l.stop] (flowMapping t false n rest)
          | _ => do
              let (es, rest) ← node t .flow n rest
              emit es (flowMapping t false n rest)
      | _ => emit [emptyScalar l.start] (flowMapping t false n ls)

end

/-- The bound on the nested calls for a list of units. -/
def bound (ls : List Lexeme) : Nat := 4 * ls.length + 4

/-! ### Documents -/

/-- The directives read so far: whether the version was given, and the tag handles. -/
structure Directives where
  version : Bool
  handles : Tagging

/-- Reads the directives in front of a document. -/
def directives (d : Directives) : List Lexeme → Except Failure (Directives × List Lexeme)
  | ⟨.directive (.version major _), start, _⟩ :: rest =>
      if d.version then .error (.problem .duplicateVersion start)
      else if major != 1 then .error (.problem .incompatibleVersion start)
      else directives { d with version := true } rest
  | ⟨.directive (.tagHandle handle stem), start, _⟩ :: rest =>
      if (d.handles.find? handle).isSome then .error (.problem (.duplicateHandle handle) start)
      else directives { d with handles := d.handles ++ [(handle, stem)] } rest
  | ⟨.directive (.unknown _), _, _⟩ :: rest => directives d rest
  | ls => .ok (d, ls)

/-- Reads the end of a document, which may be left unmarked. -/
def documentEnd (ls : List Lexeme) : Event × List Lexeme :=
  let l := front ls
  if l.content = .documentEnd then (⟨.documentEnd true, l.start, l.stop⟩, ls.tail)
  else (⟨.documentEnd false, l.start, l.start⟩, ls)

/-- Reads the body of a document and the document's end. -/
def documentRest (r : Reading) : Reading := do
  let (es, rest) ← r
  let (e, rest) := documentEnd rest
  return (es ++ [e], rest)

/-- Reads the body of a document that begins with a marker; it may be empty. -/
def documentBody (t : Tagging) (ls : List Lexeme) : Reading :=
  match (front ls).content with
  | .directive _ | .documentStart | .documentEnd | .streamEnd =>
      return ([emptyScalar (front ls).start], ls)
  | _ => node t .block (bound ls) ls

/-- Reads a document that begins with a marker, after its directives. -/
def explicitDocument (ls : List Lexeme) : Reading := do
  let start := (front ls).start
  let (d, ls) ← directives ⟨false, []⟩ ls
  let l := front ls
  if l.content != .documentStart then refuse .expectedDocumentStart ls
  let handles := d.handles ++ Tagging.default
  emit [⟨.documentStart true, start, l.stop⟩] (documentRest (documentBody handles ls.tail))

/-- Reads documents up to the end of the stream. -/
def documents : Nat → List Lexeme → Except Failure (List Event)
  | 0, ls => refuse .expectedDocumentStart ls
  | n + 1, ls => do
      let ls := ls.dropWhile (·.content = .documentEnd)
      let l := front ls
      if l.content = .streamEnd then return [⟨.streamEnd, l.start, l.stop⟩]
      let (es, rest) ← explicitDocument ls
      return es ++ (← documents n rest)

/-- Reads the first document if it begins without a marker. -/
def implicitDocument (ls : List Lexeme) : Reading :=
  let l := front ls
  match l.content with
  | .directive _ | .documentStart | .streamEnd => return ([], ls)
  | _ =>
      emit [⟨.documentStart false, l.start, l.start⟩]
        (documentRest (node Tagging.default .block (bound ls) ls))

end Grammar

open Grammar in
/-- The events of a stream of lexical units, of which the first is the stream's start. -/
def Event.ofLexemes (ls : List Lexeme) : Except Failure (List Event) := do
  let l := front ls
  let (es, rest) ← implicitDocument ls.tail
  return ⟨.streamStart, l.start, l.stop⟩ :: es ++ (← documents (bound rest) rest)

end YamlNavigator.Yaml
