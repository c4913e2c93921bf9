import YamlNavigator.Config.Load
import YamlNavigator.Navigator

/-!
The log of a run.

* `LogRecord`: what is noted during a run;
* `LogRecord.isWarning`, `LogRecord.text`: how a record is written, and whether it is always shown;
* `Parsed.log`, `Parsed.renderLog`, `Parsed.queryLog`: what is noted of a document that was read,
  rendered, and searched.
-/

namespace YamlNavigator

open Text

/-- What is noted during a run. -/
inductive LogRecord where
  | ignored (warning : Config.Warning)
  | parsed (characters tokens documents : Nat)
  | queried (query : String) (found tokens : Nat)
  | rendered (lines found : Nat)
  | focused (label : String) (line : Option Int) (first : Int)
  deriving Repr

namespace LogRecord

/-- Is the record shown even if no log is kept? -/
def isWarning : LogRecord → Bool
  | ignored _ => true
  | _ => false

/-- The line of a record. -/
def text : LogRecord → String
  | ignored w => s!"WARNING yn.config: {w.message}"
  | parsed characters tokens documents =>
      s!"DEBUG yn.parser: parsed {characters} chars into {tokens} tokens, {documents} documents"
  | queried query found tokens =>
      s!"DEBUG yn.query: query {quoted query}: {found} matches, {tokens} tokens"
  | rendered lines found => s!"DEBUG yn.render: rendered {lines} lines, {found} matches"
  | focused label line first =>
      let place := (line.map toString).getD "None"
      s!"DEBUG yn.cli: match {label} at line {place}, scrolled to {first}"

end LogRecord

namespace Parsed

/-- What is noted of a document that was read. -/
def log (d : Parsed) : List LogRecord :=
  [.parsed d.source.length d.tokens.size d.documents.children.length]

/-- What is noted of a document that was rendered; a stream without tokens is not. -/
def renderLog (d : Parsed) (found : Nat) : List LogRecord :=
  if d.tokens.size = 0 then [] else [.rendered (lines d.tokens.text.toList).length found]

/-- What is noted of a document that was searched and rendered. -/
def queryLog (d : Parsed) (query : String) : List LogRecord :=
  let m := d.documents.query query
  (if Query.isValid query then [.queried query m.nodes.length m.tokens.length] else []) ++
    d.renderLog m.nodes.length

end Parsed

end YamlNavigator
