import YamlNavigator.Document.Compose
import YamlNavigator.Document.Query
import YamlNavigator.Yaml.Event.Grammar
import YamlNavigator.Yaml.Lexeme.Stream

/-!
Reading a YAML text.

* `Parsed`: a text with its tokens and its tree;
* `ParseError`, `ParseError.message`: why a text is refused;
* `parse`, `parseBytes`: reads a text, or bytes that must be UTF-8.
-/

namespace YamlNavigator

open Text Yaml

/-- A text with its tokens and its tree. The tokens carry their places as indices. -/
structure Parsed where
  source : String
  tokens : Stream
  documents : Node
  isIndexed : tokens.IsIndexed

/-- Why a text is refused. -/
inductive ParseError where
  /-- The bytes are not UTF-8. -/
  | notUtf8 (fault : Utf8.Fault)
  /-- The text is not YAML. -/
  | failure (f : Failure)
  /-- The events of the text do not describe a stream. -/
  | events (fault : Compose.Fault)
  deriving DecidableEq, Repr

namespace ParseError

/-- The place of an error, with line and column counted from one. -/
def place? : ParseError → Option (Nat × Nat)
  | .failure (.problem _ mark) => some (mark.line + 1, mark.column + 1)
  | _ => none

/-- The wording of an error without its place. -/
def reason : ParseError → String
  | .notUtf8 fault => s!"input is not valid UTF-8: {fault.message}"
  | .failure f => f.message
  | .events .exhausted => "unexpected end of events"
  | .events (.unexpected step) => s!"unexpected event {step.label}"

/-- The wording of an error, with its place if it has one. -/
def message (e : ParseError) : String :=
  match e.place? with
  | some (line, column) => s!"{e.reason} (line {line}, column {column})"
  | none => e.reason

/-- Is the error one of the input that is reported as such? A number in the text that is too large
to be dealt with is not. -/
def isReported : ParseError → Bool
  | .failure .escapeTooLarge => false
  | .failure .escapeNoCodePoint => false
  | .failure (.versionTooLong _) => false
  | _ => true

end ParseError

/-- Reads a text. -/
def parse (source : String) : Except ParseError Parsed := do
  let s := source.toList
  let lexemes ← (Lexeme.scan s).mapError .failure
  let events ← (Event.ofLexemes lexemes).mapError .failure
  let table := LineTable.ofText s
  let ts := tiles s lexemes
  let (documents, _) ← (Compose.stream ⟨s, unitsOfTiles table ts⟩ events).mapError .events
  return ⟨source, Stream.ofTiles table ts, documents, Stream.isIndexed_ofTiles table ts⟩

/-- Reads bytes, which must be UTF-8. -/
def parseBytes (bytes : List UInt8) : Except ParseError Parsed :=
  match Utf8.decode bytes with
  | .ok s => parse (String.ofList s)
  | .error fault => .error (.notUtf8 fault)

end YamlNavigator
