import YamlNavigator.Config.Apply
import YamlNavigator.Files
import YamlNavigator.Toml.Document

/-!
Loading the settings.

* `Config.Cause`: why a configuration document is ignored;
* `Config.Warning`: which document is ignored, and why;
* `Config.Obstacle`, `Config.Crash`: why no settings can be had;
* `Config.ofBytes`: the settings of a document's bytes;
* `Config.isTooDeep`: whether the stack ends before the document is dealt with;
* `Config.load`: the settings of the document that is found, changed by variables.
-/

namespace YamlNavigator.Config

open Text

/-- Why a configuration document cannot be used. -/
inductive Cause where
  | unreadable (fault : Files.Fault)
  | notUtf8 (fault : Utf8.Fault)
  | notToml (fault : Toml.Fault)
  | value (fault : Value.Fault)
  deriving DecidableEq, Repr

/-- The wording of a cause. -/
def Cause.message (path : String) : Cause → String
  | .unreadable fault => fault.message path
  | .notUtf8 fault => fault.message
  | .notToml fault => fault.message
  | .value fault => fault.message

/-- A document that is ignored, and why. -/
structure Warning where
  path : String
  cause : Cause
  deriving DecidableEq, Repr

/-- The wording of a warning. -/
def Warning.message (w : Warning) : String :=
  s!"ignoring config file {w.path}: {w.cause.message w.path}"

/-- What stands in the way of the document at a path. -/
inductive Obstacle where
  /-- The path cannot be asked for. -/
  | path (fault : Files.Fault)
  /-- The document is nested too deeply for the stack. -/
  | depth
  deriving DecidableEq, Repr

/-- The wording of an obstacle. -/
def Obstacle.message (path : String) : Obstacle → String
  | .path fault => fault.message path
  | .depth => "maximum recursion depth exceeded"

/-- Why no settings can be had. -/
inductive Crash where
  | noHome (fault : Location.NoHome)
  | unreachable (path : String) (obstacle : Obstacle)
  /-- The limit of the input is infinite. -/
  | infinite
  deriving DecidableEq, Repr

/-- The wording of a crash. -/
def Crash.message : Crash → String
  | .noHome fault => fault.message
  | .unreachable path obstacle => obstacle.message path
  | .infinite => Value.Fault.infinite.message

/-- The settings of a document. -/
def ofBytes (bytes : List UInt8) : Except Cause Settings := do
  let text ← (Utf8.decode bytes).mapError .notUtf8
  let document ← (Toml.ofText text).mapError .notToml
  (Settings.apply {} document).mapError .value

/-- Does the stack end before the document of some bytes is dealt with? -/
def isTooDeep (stack : Stack) (bytes : List UInt8) : Bool :=
  match Utf8.decode bytes with
  | .ok text => stack.overflows text
  | .error _ => false

/-- The settings of the document at a path, and a warning if it is ignored. That the stack ends or
that a limit is infinite is no reason to ignore the document; no settings can be had then. -/
def ofPath (stack : Stack) (disk : Disk) (path : String) :
    Except Crash (Settings × Option Warning) := do
  if ← (disk.exists? path).mapError fun fault => .unreachable path (.path fault) then
    match disk.read path with
    | .error fault => return ({}, some ⟨path, .unreadable fault⟩)
    | .ok bytes =>
        if isTooDeep stack bytes then throw (.unreachable path .depth)
        else
          match ofBytes bytes with
          | .ok x => return (x, none)
          | .error (.value .infinite) => throw .infinite
          | .error cause => return ({}, some ⟨path, cause⟩)
  else return ({}, none)

/-- Loads the settings: the defaults, changed by the document that is found, changed by variables.
-/
def load (disk : Disk) (env : Environment) : Except Crash (Settings × Option Warning) := do
  let place ← (Location.configuration env).mapError .noHome
  let (x, warning) ← ofPath env.stack disk place.toText
  return (x.applyVariables env.vars, warning)

end YamlNavigator.Config
