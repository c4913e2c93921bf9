import YamlNavigator.Environment
import YamlNavigator.Text.Blank
import YamlNavigator.Text.Lines

/-!
Where the configuration document is looked for.

* `Location`: a path in normal form: how many slashes it begins with, and its names;
* `Location.ofText`, `Location.toText`: reading and writing a path;
* `Location.home`: the home directory;
* `Location.configuration`: the place of the configuration document.
-/

namespace YamlNavigator

open Text

/-- A path in normal form: the slashes that it begins with, and its names. -/
structure Location where
  root : List Char
  names : List (List Char)
  deriving DecidableEq, Repr

namespace Location

/-- The slashes that stand at the front of a path in normal form. Two slashes have a meaning of
their own and stay; any other number is written as one. -/
def rootOf (path : List Char) : List Char :=
  let slashes := path.takeWhile (· = '/')
  if slashes.length = 2 || slashes.isEmpty then slashes else ['/']

/-- Reads a path. Empty names and single dots are left out, double dots stay. -/
def ofText (path : String) : Location where
  root := rootOf path.toList
  names := (splitOn '/' path.toList).filter fun name => name != [] && name != ['.']

/-- A path with names added behind it. -/
def add (p : Location) (names : List String) : Location :=
  { p with names := p.names ++ names.map String.toList }

/-- Writes a path. -/
def toText (p : Location) : String :=
  if p.root.isEmpty && p.names.isEmpty then "."
  else String.ofList (p.root ++ joinWith ['/'] p.names)

/-- No home directory is known. -/
structure NoHome where
  deriving DecidableEq, Repr

/-- The wording of the fault. -/
def NoHome.message (_ : NoHome) : String := "Could not determine home directory."

/-- The home directory, without slashes at its end. -/
def home (env : Environment) : Except NoHome Location :=
  match env.home? with
  | none => .error {}
  | some directory =>
      let text := String.ofList (stripEndIf (· = '/') directory.toList)
      let text := if text = "" then "/" else text
      if text.toList.head? == some '~' then .error {} else .ok (ofText text)

/-- The place of the configuration document: below the directory for configurations if one is set,
or below the home directory. -/
def configuration (env : Environment) : Except NoHome Location := do
  let place : Location ←
    match env.vars.value? "XDG_CONFIG_HOME" with
    | some directory =>
        if directory = "" then (home env).map (·.add [".config"]) else pure (ofText directory)
    | none => (home env).map (·.add [".config"])
  return place.add ["yn", "config.toml"]

end Location

end YamlNavigator
