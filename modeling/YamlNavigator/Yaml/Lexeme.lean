import YamlNavigator.Yaml.Cursor

/-!
The lexical units of a YAML stream.

* `ScalarStyle`: the five ways to write a scalar;
* `Directive`: the lines before a document that begin with a percent sign;
* `Content`: what a lexical unit is, with the value it carries;
* `Content.label`: how a unit is called in messages;
* `Lexeme`: a unit with the marks of its two ends.

The starts of block collections, their ends and the keys written without a question mark take no
text: their two marks are the same.
-/

namespace YamlNavigator.Yaml

/-- The five ways to write a scalar. -/
inductive ScalarStyle where
  | plain
  | singleQuoted
  | doubleQuoted
  | literal
  | folded
  deriving DecidableEq, Repr

/-- A directive: the version of the language, a tag handle, or one that is not known. -/
inductive Directive where
  | version (major minor : Nat)
  | tagHandle (handle stem : String)
  | unknown (name : String)
  deriving DecidableEq, Repr

/-- What a lexical unit is. A tag written in full has no handle. -/
inductive Content where
  | streamStart
  | streamEnd
  | directive (d : Directive)
  | documentStart
  | documentEnd
  | blockSequenceStart
  | blockMappingStart
  | blockEnd
  | flowSequenceStart
  | flowSequenceEnd
  | flowMappingStart
  | flowMappingEnd
  | blockEntry
  | flowEntry
  | key
  | value
  | reference (name : String)
  | anchor (name : String)
  | tag (handle : Option String) (suffix : String)
  | scalar (text : String) (style : ScalarStyle)
  deriving DecidableEq, Repr

/-- How a lexical unit is called in messages. -/
def Content.label : Content → String
  | .streamStart => "<stream start>"
  | .streamEnd => "<stream end>"
  | .directive _ => "<directive>"
  | .documentStart => "<document start>"
  | .documentEnd => "<document end>"
  | .blockSequenceStart => "<block sequence start>"
  | .blockMappingStart => "<block mapping start>"
  | .blockEnd => "<block end>"
  | .flowSequenceStart => "["
  | .flowSequenceEnd => "]"
  | .flowMappingStart => "\x7b"
  | .flowMappingEnd => "\x7d"
  | .blockEntry => "-"
  | .flowEntry => ","
  | .key => "?"
  | .value => ":"
  | .reference _ => "<alias>"
  | .anchor _ => "<anchor>"
  | .tag _ _ => "<tag>"
  | .scalar _ _ => "<scalar>"

/-- A lexical unit with the mark of its first character and the mark after its last one. -/
structure Lexeme where
  content : Content
  start : Mark
  stop : Mark
  deriving DecidableEq, Repr

namespace Lexeme

/-- Does the unit take no text? -/
def isEmpty (l : Lexeme) : Bool := l.stop.index ≤ l.start.index

/-- Anchors and tags: the properties written in front of a node. -/
def isProperty (l : Lexeme) : Bool :=
  match l.content with
  | .anchor _ | .tag _ _ => true
  | _ => false

end Lexeme

end YamlNavigator.Yaml
