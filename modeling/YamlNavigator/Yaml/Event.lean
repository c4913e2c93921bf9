import YamlNavigator.Yaml.Lexeme

/-!
The events of a YAML stream: its structure read from left to right.

* `Step`: what happens at an event; nodes are announced with their anchor, and with their tag in
  full;
* `Event`: a step with the marks of the text that it was read from.
-/

namespace YamlNavigator.Yaml

/-- What happens at an event. Documents and collections have a start and an end; between them stand
the events of what they hold, for a mapping keys and values in turn. -/
inductive Step where
  | streamStart
  | streamEnd
  | documentStart (explicit : Bool)
  | documentEnd (explicit : Bool)
  | reference (name : String)
  | scalar (value : String) (anchor tag : Option String)
  | sequenceStart (anchor tag : Option String) (flow : Bool)
  | sequenceEnd
  | mappingStart (anchor tag : Option String) (flow : Bool)
  | mappingEnd
  deriving DecidableEq, Repr

/-- How a step is called in messages. -/
def Step.label : Step → String
  | .streamStart => "stream start"
  | .streamEnd => "stream end"
  | .documentStart _ => "document start"
  | .documentEnd _ => "document end"
  | .reference _ => "alias"
  | .scalar _ _ _ => "scalar"
  | .sequenceStart _ _ _ => "sequence start"
  | .sequenceEnd => "sequence end"
  | .mappingStart _ _ _ => "mapping start"
  | .mappingEnd => "mapping end"

/-- A step with the mark of the first character and the mark after the last character that it was
read from. -/
structure Event where
  step : Step
  start : Mark
  stop : Mark
  deriving DecidableEq, Repr

end YamlNavigator.Yaml
