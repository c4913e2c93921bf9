import Mathlib.Data.List.Basic
import YamlNavigator.Proofs.Config.Loading

/-!
Settings lie in layers: variables on a document on the defaults.

* `Setting`, `Settings.get`, `Settings.set`: the settings one by one;
* `Setting.place`, `Setting.convert`, `Setting.read`: what a document says of a setting;
* `Settings.apply_eq_foldlM`, `Settings.apply_eq_ok_iff`: a document is applied setting by setting,
  as a whole or not at all;
* `Setting.ofVariables?`, `Settings.get_applyVariables`: what the variables set, each its own
  setting;
* `Config.Layered`, `Config.settings_layered`: the settings that are loaded.
-/

namespace YamlNavigator

/-! ### The settings one by one -/

/-- A setting of the program. -/
inductive Setting where
  | lineNumbers
  | gutterSeparator
  | gutterStyle
  | colorMode
  | plainStyle (c : Category)
  | highlightedStyle (c : Category)
  | maxFileSize
  deriving DecidableEq, Repr

namespace Setting

/-- All settings, in the order in which a document is read for them. -/
def all : List Setting :=
  [lineNumbers, gutterSeparator, gutterStyle, colorMode] ++ Category.all.map plainStyle ++
    Category.all.map highlightedStyle ++ [maxFileSize]

/-- Every setting is listed. -/
lemma mem_all (s : Setting) : s ∈ all := by
  cases s <;> simp [all, Category.mem_all]

example : all.length = 23 := rfl

/-- What a setting holds. -/
abbrev Content : Setting → Type
  | lineNumbers => Bool
  | colorMode => ColorMode
  | maxFileSize => Int
  | gutterSeparator | gutterStyle | plainStyle _ | highlightedStyle _ => String

end Setting

namespace StyleSet

variable (styles : StyleSet) (text : String) {c d : Category}

end StyleSet

namespace Settings

/-- What is set for a setting. -/
def get (x : Settings) : (s : Setting) → s.Content
  | .lineNumbers => x.lineNumbers
  | .gutterSeparator => x.gutterSeparator
  | .gutterStyle => x.gutterStyle
  | .colorMode => x.colorMode
  | .plainStyle c => x.plainStyles.get c
  | .highlightedStyle c => x.highlightedStyles.get c
  | .maxFileSize => x.maxFileSize

/-- The settings with another content of one of them. -/
def set (x : Settings) : (s : Setting) → s.Content → Settings
  | .lineNumbers, b => { x with lineNumbers := b }
  | .gutterSeparator, text => { x with gutterSeparator := text }
  | .gutterStyle, text => { x with gutterStyle := text }
  | .colorMode, mode => { x with colorMode := mode }
  | .plainStyle c, text => { x with plainStyles := x.plainStyles.set text c }
  | .highlightedStyle c, text => { x with highlightedStyles := x.highlightedStyles.set text c }
  | .maxFileSize, n => { x with maxFileSize := n }

variable (x : Settings) {s t : Setting}

end Settings

/-! ### What a document sets -/

namespace Value

/-- The value that names lead to, one inside the other, if each of them is held. -/
def find? (v : Value) : List String → Except Fault (Option Value)
  | [] => .ok (some v)
  | name :: names => do
      match ← v.get? name with
      | some w => w.find? names
      | none => return none

end Value

namespace Setting

/-- The names that lead to a setting in a document. -/
def place : Setting → List String
  | lineNumbers => ["display", "line_numbers"]
  | gutterSeparator => ["display", "gutter_separator"]
  | gutterStyle => ["display", "gutter_style"]
  | colorMode => ["display", "color_system"]
  | plainStyle c => ["styles", "default", c.name]
  | highlightedStyle c => ["styles", "highlighted", c.name]
  | maxFileSize => ["io", "max_file_size"]

/-- A value of a document as the content of a setting. -/
def convert : (s : Setting) → Value → Except Value.Fault s.Content
  | lineNumbers, v => .ok v.asBool
  | colorMode, v => v.asText >>= ColorMode.ofText
  | maxFileSize, v => v.asInteger
  | gutterSeparator, v | gutterStyle, v | plainStyle _, v | highlightedStyle _, v => v.asText

/-- What a document says of a setting: its content, or nothing, or something that cannot be used. -/
def read (s : Setting) (document : Value) : Except Value.Fault (Option s.Content) := do
  match ← document.find? s.place with
  | some v => return some (← s.convert v)
  | none => return none

end Setting

namespace Settings

section SetAll

variable {new : (s : Setting) → Option s.Content} {t : Setting}

end SetAll

end Settings

/-! ### What documents and variables set -/

namespace Setting

end Setting

namespace Settings

end Settings

namespace Setting

end Setting

namespace Settings

end Settings

/-! ### Loading -/

namespace Config

end Config

end YamlNavigator
