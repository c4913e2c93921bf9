import YamlNavigator.Config.Location
import YamlNavigator.Config.Settings
import YamlNavigator.Config.Value
import YamlNavigator.Text.LowerCase

/-!
Settings changed by a configuration document and by variables of the environment.

* `Value.whenHeld`: a change that is made if a value holds a name;
* `ColorMode.ofText`: the colours of a name;
* `StyleSet.apply`, `Settings.applyDisplay`, `Settings.applyStyles`, `Settings.applyLimits`: the
  changes that the parts of a document make;
* `Settings.apply`: the changes that a document makes;
* `Settings.applyVariables`: the changes that variables make.
-/

namespace YamlNavigator

open Text

/-- A change that is made with the value of a name, if the name is held. -/
def Value.whenHeld {α : Type} (v : Value) (name : String) (x : α)
    (change : α → Value → Except Value.Fault α) : Except Value.Fault α := do
  match ← v.get? name with
  | some w => change x w
  | none => return x

/-- The colours of a name, which must be one of the known ones. -/
def ColorMode.ofText (name : String) : Except Value.Fault ColorMode :=
  match ColorMode.ofName? name with
  | .some mode => .ok mode
  | .none => .error (.notAChoice "color_system" (ColorMode.all.map ColorMode.name) name)

/-- The styles with those of a part of a document. -/
def StyleSet.apply (styles : StyleSet) (v : Value) : Except Value.Fault StyleSet :=
  Category.all.foldlM
    (fun styles c =>
      v.whenHeld c.name styles fun styles w => do return styles.set (← w.asText) c)
    styles

namespace Settings

/-- The settings with those of the part that describes the display. -/
def applyDisplay (x : Settings) (v : Value) : Except Value.Fault Settings := do
  let x ← v.whenHeld "line_numbers" x fun x w => return { x with lineNumbers := w.asBool }
  let x ← v.whenHeld "gutter_separator" x fun x w => do
    return { x with gutterSeparator := ← w.asText }
  let x ← v.whenHeld "gutter_style" x fun x w => do return { x with gutterStyle := ← w.asText }
  v.whenHeld "color_system" x fun x w => do
    return { x with colorMode := ← ColorMode.ofText (← w.asText) }

/-- The settings with those of the part that describes the styles. -/
def applyStyles (x : Settings) (v : Value) : Except Value.Fault Settings := do
  let x ← v.whenHeld "default" x fun x w => do
    return { x with plainStyles := ← x.plainStyles.apply w }
  v.whenHeld "highlighted" x fun x w => do
    return { x with highlightedStyles := ← x.highlightedStyles.apply w }

/-- The settings with those of the part that describes the limits of the input. -/
def applyLimits (x : Settings) (v : Value) : Except Value.Fault Settings :=
  v.whenHeld "max_file_size" x fun x w => do return { x with maxFileSize := ← w.asInteger }

/-- The settings with those of a document. -/
def apply (x : Settings) (document : Value) : Except Value.Fault Settings := do
  let x ← document.whenHeld "display" x applyDisplay
  let x ← document.whenHeld "styles" x applyStyles
  document.whenHeld "io" x applyLimits

/-- Does a text, in any case, mean yes? -/
def meansYes (s : String) : Bool :=
  ["true", "1", "yes"].contains (String.ofList (lower s.toList))

/-- A change that is made with the value of a variable, if it is set. -/
def whenSet (x : Settings) (vars : Variables) (name : String)
    (change : Settings → String → Settings) : Settings :=
  match vars.value? name with
  | some s => change x s
  | none => x

/-- The settings with those of variables. A value that cannot be used changes nothing. -/
def applyVariables (x : Settings) (vars : Variables) : Settings :=
  let x := x.whenSet vars "YN_LINE_NUMBERS" fun x s => { x with lineNumbers := meansYes s }
  let x := x.whenSet vars "YN_GUTTER_SEPARATOR" fun x s => { x with gutterSeparator := s }
  let x := x.whenSet vars "YN_COLOR_SYSTEM" fun x s =>
    { x with colorMode := (ColorMode.ofName? s).getD x.colorMode }
  x.whenSet vars "YN_MAX_FILE_SIZE" fun x s =>
    match Integer.ofText s with
    | .ok n => { x with maxFileSize := n }
    | .error _ => x

end Settings

end YamlNavigator
