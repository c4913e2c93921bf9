import YamlNavigator.Text.StandIn

/-!
What surrounds a run of the program.

* `Variables`: the variables of the environment, with their values;
* `nestingMarks`, `Stack`: which documents are nested too deeply for the stack of the runtime;
* `Edition`: the two ways in which a command line is read;
* `Environment`, `Environment.home?`: all that surrounds a run, and the home directory that is set
  there.
-/

namespace YamlNavigator

/-- The variables of the environment, with their values. -/
abbrev Variables := List (String × String)

namespace Variables

/-- The value of a variable, if it is set. -/
def value? (vars : Variables) (name : String) : Option String := vars.lookup name

/-- Sets variables; those that are set already get the new value. -/
def update (vars changes : Variables) : Variables :=
  changes ++ vars.filter fun v => !changes.any fun c => c.1 = v.1

end Variables

/-- The number of characters in a text that can open a level of nesting: brackets, braces, and the
points between names. -/
def nestingMarks (text : List Char) : Nat := text.countP fun c => c = '[' || c = '{' || c = '.'

/-- The stack of the runtime. Reading a document, or writing a value of it as text, takes more of
the stack the deeper the document is nested, and ends when the stack does. Which documents are too
much for it is up to the runtime; those that open few levels are not. -/
structure Stack where
  /-- The number of levels that always fit. -/
  room : Nat
  /-- Is the document of a text nested too deeply? -/
  overflows : List Char → Bool
  overflows_of_le : ∀ text, nestingMarks text ≤ room → overflows text = false

/-- A stack without an end. -/
def Stack.unbounded : Stack where
  room := 0
  overflows _ := false
  overflows_of_le _ _ := rfl

/-- How command lines are read. In the earlier edition the marker `--` stands for nothing where it
is the value of a flag, and letters of flags may follow an equals sign; in the later one it is the
text that it is, and nothing may follow the equals sign behind a flag without a value. -/
inductive Edition where
  | earlier
  | later
  deriving DecidableEq, Repr

/-- What surrounds a run: variables, the home directory that the account of the user has, if there
is one, the stack, the edition in which command lines are read, and the characters that can be
written to the output. By default the account is that of the superuser, command lines are read in
the earlier edition, and all characters but surrogates can be written. -/
structure Environment where
  vars : Variables := []
  account : Option String := some "/root"
  stack : Stack := .unbounded
  edition : Edition := .earlier
  encodes : Char → Bool := fun c => !Text.isStandIn c

namespace Environment

/-- Variables alone, with all else as it is by default. -/
instance : Coe Variables Environment := ⟨fun vars => { vars }⟩

/-- The home directory: the one that a variable sets, or else that of the account. -/
def home? (env : Environment) : Option String := (env.vars.value? "HOME").or env.account

end Environment

end YamlNavigator
