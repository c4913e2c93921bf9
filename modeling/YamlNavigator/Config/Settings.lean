import YamlNavigator.Ansi.Color
import YamlNavigator.Render.Category

/-!
The settings of the program.

* `ColorMode`: the colours that are written, with their names;
* `StyleSet`: a style for each category;
* `Settings`: all settings, with their defaults.
-/

namespace YamlNavigator

/-- The colours that are written. -/
inductive ColorMode where
  | standard
  | extended
  | full
  | none
  deriving DecidableEq, Repr, Inhabited

namespace ColorMode

/-- All modes. -/
def all : List ColorMode := [standard, extended, full, none]

/-- The name of a mode. -/
def name : ColorMode → String
  | standard => "standard"
  | extended => "256"
  | full => "truecolor"
  | none => "none"

/-- The mode of a name. -/
def ofName? (s : String) : Option ColorMode := all.find? fun m => m.name = s

/-- The colours that a terminal is taken to show. -/
def system : ColorMode → Option Ansi.ColorSystem
  | standard => some .standard
  | extended => some .extended
  | full => some .full
  | none => Option.none

end ColorMode

/-- A style for each category, as it is written in the settings. -/
structure StyleSet where
  mapKey : String
  anchor : String
  reference : String
  bool : String
  string : String
  number : String
  null : String
  tag : String
  indicator : String
  deriving DecidableEq, Repr, Inhabited

namespace StyleSet

/-- The style of a category. -/
def get (s : StyleSet) : Category → String
  | .mapKey => s.mapKey
  | .anchor => s.anchor
  | .reference => s.reference
  | .bool => s.bool
  | .string => s.string
  | .number => s.number
  | .null => s.null
  | .tag => s.tag
  | .indicator => s.indicator

/-- The styles with another one for a category. -/
def set (s : StyleSet) (style : String) : Category → StyleSet
  | .mapKey => { s with mapKey := style }
  | .anchor => { s with anchor := style }
  | .reference => { s with reference := style }
  | .bool => { s with bool := style }
  | .string => { s with string := style }
  | .number => { s with number := style }
  | .null => { s with null := style }
  | .tag => { s with tag := style }
  | .indicator => { s with indicator := style }

/-- The styles of text that is not highlighted. -/
def plain : StyleSet where
  mapKey := "bright_cyan"
  anchor := "bright_yellow"
  reference := "bright_yellow"
  bool := "bright_magenta"
  string := "bright_green"
  number := "bright_magenta"
  null := "bright_magenta"
  tag := ""
  indicator := ""

/-- The styles of highlighted text. -/
def highlighted : StyleSet where
  mapKey := "cyan on bright_yellow"
  anchor := "yellow on bright_yellow"
  reference := "yellow on bright_yellow"
  bool := "magenta on bright_yellow"
  string := "green on bright_yellow"
  number := "magenta on bright_yellow"
  null := "magenta on bright_yellow"
  tag := "on bright_yellow"
  indicator := "on bright_yellow"

end StyleSet

/-- The settings: whether lines are numbered, what stands between number and line, the style of
numbers, the colours that are written, the styles of the two palettes, and the largest accepted
input in bytes. -/
structure Settings where
  lineNumbers : Bool := false
  gutterSeparator : String := " │ "
  gutterStyle : String := "dim"
  colorMode : ColorMode := .standard
  plainStyles : StyleSet := .plain
  highlightedStyles : StyleSet := .highlighted
  maxFileSize : Int := 16 * 1024 * 1024
  deriving DecidableEq, Repr, Inhabited

end YamlNavigator
