/-!
The flags of the command line.

* `Flag`, `Flag.all`: the flags;
* `Flag.names`: the names of a flag;
* `Flag.takesValue`: whether a value belongs to a flag;
* `Flag.ofName?`: the flag of a name;
* `Flag.completions`: the names that begin with a text.
-/

namespace YamlNavigator

/-- The flags of the command line. -/
inductive Flag where
  | help
  | query
  | lineNumbers
  | noColor
  | output
  | suggest
  | focus
  | height
  | verbose
  deriving DecidableEq, Repr, Inhabited

namespace Flag

/-- All flags, in the order in which they are described. -/
def all : List Flag :=
  [help, query, lineNumbers, noColor, output, suggest, focus, height, verbose]

/-- The names of a flag: long ones after two hyphens, and letters after one. -/
def names : Flag → List String
  | help => ["-h", "--help"]
  | query => ["--query", "-q"]
  | lineNumbers => ["--line-numbers", "-n"]
  | noColor => ["--no-color"]
  | output => ["--output", "-o"]
  | suggest => ["--suggest", "-s"]
  | focus => ["--match", "-m"]
  | height => ["--height"]
  | verbose => ["--verbose", "-v"]

/-- How a flag is called in messages. -/
def title (f : Flag) : String := "/".intercalate f.names

/-- Does a value belong to the flag? -/
def takesValue : Flag → Bool
  | query | focus | height => true
  | _ => false

/-- The flag of a name. -/
def ofName? (name : String) : Option Flag := all.find? fun f => f.names.contains name

/-- The flag of a letter behind one hyphen. -/
def ofLetter? (c : Char) : Option Flag := ofName? (String.ofList ['-', c])

/-- The names that begin with a text, each with its flag. -/
def completions (start : List Char) : List (Flag × String) :=
  all.flatMap fun f => (f.names.filter fun n => start.isPrefixOf n.toList).map fun n => (f, n)

/-- A name of a flag leads back to the flag. -/
theorem ofName?_names (f : Flag) : ∀ name ∈ f.names, ofName? name = some f := by
  cases f <;> decide

end Flag

end YamlNavigator
