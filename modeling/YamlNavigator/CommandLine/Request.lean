import YamlNavigator.CommandLine.Flag
import YamlNavigator.Environment
import YamlNavigator.Text.Digit
import YamlNavigator.Text.Integer
import YamlNavigator.Text.Lines

/-!
What is asked for on a command line.

* `Given`: the value of a flag, which may be nothing in the earlier edition;
* `Request`: what is asked for, with its defaults;
* `Request.Fault`, `Request.Fault.message`: why a command line is refused;
* `Request.Stop`: a command line that asks for no document: for help, or for nothing sensible;
* `Item`, `Item.ofText`: an argument as a flag, with the value written in it, or as a text; long
  names may be cut off as long as only one flag is meant;
* `Item.expand`, `Item.expansion`: the flags that are written in one argument;
* `Request.ofArguments`: the request of a command line.
-/

namespace YamlNavigator

open Text

/-- The value of a flag: what is written, or nothing where the marker `--` is written in its place
and the edition is the earlier one. -/
inductive Given (α : Type) where
  | value (a : α)
  | nothing
  deriving DecidableEq, Repr, Inhabited

namespace Given

/-- The value that a text writes. -/
def ofText (edition : Edition) (s : List Char) : Given String :=
  if edition = .earlier ∧ s = ['-', '-'] then nothing else value (String.ofList s)

/-- The value, or another one in the place of nothing. -/
def getD {α : Type} : Given α → α → α
  | value a, _ => a
  | nothing, b => b

end Given

/-- What is asked for: the document, the query, whether lines are numbered, whether colours are
used, whether the matches alone or the possible queries are printed, the match that is put into a
window of a height, and whether a log is kept. -/
structure Request where
  file : Option String := none
  query : Given String := .value ""
  lineNumbers : Bool := false
  color : Bool := true
  output : Bool := false
  suggest : Bool := false
  focus : Option (Given Int) := none
  height : Given Int := .value 24
  verbose : Bool := false
  deriving DecidableEq, Repr, Inhabited

namespace Request

/-- Why a command line is refused. -/
inductive Fault where
  /-- A name is cut off so that several flags can be meant. -/
  | ambiguous (argument : String) (names : List String)
  /-- The value of a flag is missing. -/
  | missingValue (flag : Flag)
  /-- A value is given to a flag that takes none. -/
  | ignoredValue (flag : Flag) (value : String)
  /-- The value of a flag is no whole number. -/
  | notInteger (flag : Flag) (value : String)
  /-- Arguments that mean nothing. -/
  | unrecognized (arguments : List String)
  deriving DecidableEq, Repr

/-- The wording of a fault. -/
def Fault.message : Fault → String
  | .ambiguous argument names =>
      let matching := ", ".intercalate names
      s!"ambiguous option: {argument} could match {matching}"
  | .missingValue flag => s!"argument {flag.title}: expected one argument"
  | .ignoredValue flag value => s!"argument {flag.title}: ignored explicit argument {quoted value}"
  | .notInteger flag value => s!"argument {flag.title}: invalid int value: {quoted value}"
  | .unrecognized arguments =>
      let listed := " ".intercalate arguments
      s!"unrecognized arguments: {listed}"

/-- A command line that asks for no document. -/
inductive Stop where
  | help
  | refused (fault : Fault)
  deriving DecidableEq, Repr

end Request

/-! ### Arguments -/

/-- A value that is written in the argument of its flag: behind the name and an equals sign, or
behind the letter, with an equals sign or without. -/
structure Attached where
  behindLetter : Bool
  behindSign : Bool
  text : List Char
  deriving DecidableEq, Repr

/-- What an argument is. The marker ends the flags; all arguments behind it are texts. -/
inductive Item where
  | text (s : String)
  | marker
  | flag (f : Flag) (value : Option Attached)
  | unknown (s : String)
  deriving DecidableEq, Repr

namespace Item

/-- A negative number in decimal digits, perhaps with a point among them. -/
def isNegativeNumber (s : List Char) : Bool :=
  match s with
  | '-' :: body =>
      let body := if body.getLast? == some '\n' then body.dropLast else body
      match splitOn '.' body with
      | [whole] => !whole.isEmpty && whole.all isDigit
      | [whole, fraction] => whole.all isDigit && !fraction.isEmpty && fraction.all isDigit
      | _ => false
  | _ => false

/-- The part of an argument in front of the first equals sign, and the value behind it. -/
def cutValue (s : List Char) : List Char × Option (List Char) :=
  match s.dropWhile (· != '=') with
  | _ :: value => (s.takeWhile (· != '='), some value)
  | [] => (s, none)

/-- Does a name begin with two hyphens? -/
def isLong (name : List Char) : Bool := ['-', '-'].isPrefixOf name

/-- The flags that an argument can mean, each with the name that is meant. -/
def readings (s : List Char) : List (Flag × String × Option Attached) :=
  match s with
  | '-' :: '-' :: _ =>
      let (name, value) := cutValue s
      (Flag.completions name).map fun c => (c.1, c.2, value.map fun v => ⟨false, true, v⟩)
  | '-' :: c :: value =>
      (Flag.ofLetter? c).toList.map fun f => (f, String.ofList ['-', c], some ⟨true, false, value⟩)
  | _ => []

/-- The flag whose whole name stands in front of an equals sign, with the value behind it. -/
def named? (s : List Char) : Option Item :=
  match cutValue s with
  | (name, some value) =>
      (Flag.ofName? (String.ofList name)).map fun f => .flag f (some ⟨!isLong name, true, value⟩)
  | (_, none) => none

/-- What an argument is that stands in front of the marker. -/
def ofText (argument : String) : Except Request.Fault Item :=
  let s := argument.toList
  if s.head? != some '-' then .ok (.text argument)
  else
    match Flag.ofName? argument with
    | some f => .ok (.flag f none)
    | none =>
        if s.length = 1 then .ok (.text argument)
        else
          match named? s with
          | some item => .ok item
          | none =>
              match readings s with
              | [(f, _, value)] => .ok (.flag f value)
              | [] =>
                  if isNegativeNumber s || s.contains ' ' then .ok (.text argument)
                  else .ok (.unknown argument)
              | several => .error (.ambiguous argument (several.map (·.2.1)))

/-- What the arguments of a command line are. -/
def ofArguments : List String → Except Request.Fault (List Item)
  | [] => .ok []
  | a :: rest =>
      if a = "--" then .ok (.marker :: rest.map .text)
      else do
        let item ← ofText a
        return item :: (← ofArguments rest)

/-- The flags that are written in one argument: letters of flags that take no value, and then one
flag, perhaps with a value, or with letters behind it that mean nothing. -/
structure Expansion where
  letters : List Flag := []
  last : Flag
  value : Option (List Char) := none
  meaningless : Option (List Char) := none
  deriving DecidableEq, Repr

/-- The flags of a letter with a text right behind it, or behind an equals sign: the text is the
value of the flag, or else more letters. In the later edition letters cannot follow an equals sign,
nor begin with a hyphen, an equals sign among them is in front of a value, and letters that mean
nothing are set aside. -/
def expand (edition : Edition) (f : Flag) (behindSign : Bool) (text : List Char) :
    Except Request.Fault Expansion :=
  if f.takesValue then .ok { last := f, value := some text }
  else
    match text with
    | [] => .error (.ignoredValue f "")
    | c :: more =>
        if edition = .later && (behindSign || c = '-') then
          .error (.ignoredValue f (String.ofList text))
        else
          match Flag.ofLetter? c with
          | none =>
              if edition = .later then .ok { last := f, meaningless := some text }
              else .error (.ignoredValue f (String.ofList text))
          | some g =>
              let expanded : Except Request.Fault Expansion :=
                match more with
                | [] => .ok { last := g }
                | '=' :: value =>
                    if edition = .later then expand edition g true value
                    else expand edition g false ('=' :: value)
                | d :: more => expand edition g false (d :: more)
              expanded.map fun e => { e with letters := f :: e.letters }

/-- The flags of an argument. Behind a long name there can only be a value. -/
def expansion (edition : Edition) (f : Flag) : Option Attached → Except Request.Fault Expansion
  | none => .ok { last := f }
  | some a =>
      if a.behindLetter then expand edition f a.behindSign a.text
      else if f.takesValue then .ok { last := f, value := some a.text }
      else .error (.ignoredValue f (String.ofList a.text))

end Item

/-! ### The request -/

namespace Request

/-- The request with what a flag asks for. -/
def withFlag (x : Request) (f : Flag) (value : Given String) : Except Stop Request :=
  match f with
  | .help => .error .help
  | .query => .ok { x with query := value }
  | .lineNumbers => .ok { x with lineNumbers := true }
  | .noColor => .ok { x with color := false }
  | .output => .ok { x with output := true }
  | .suggest => .ok { x with suggest := true }
  | .focus => (integer value).map fun n => { x with focus := some n }
  | .height => (integer value).map fun n => { x with height := n }
  | .verbose => .ok { x with verbose := true }
where
  /-- The whole number that a value is. -/
  integer : Given String → Except Stop (Given Int)
    | .nothing => .ok .nothing
    | .value s =>
        match Integer.ofText s with
        | .ok n => .ok (.value n)
        | .error _ => .error (.refused (.notInteger f s))

/-- What has been read of a command line: the request, whether the file has been named, and the
arguments that mean nothing. -/
structure Progress where
  request : Request := {}
  named : Bool := false
  extras : List String := []
  deriving Repr

namespace Progress

/-- Takes a flag. -/
def takeFlag (p : Progress) (f : Flag) (value : Given String) : Except Stop Progress :=
  (p.request.withFlag f value).map fun request => { p with request }

/-- Takes several flags without values. -/
def takeFlags (p : Progress) (fs : List Flag) : Except Stop Progress :=
  fs.foldlM (fun p f => p.takeFlag f (.value "")) p

/-- Names the file. -/
def name (p : Progress) (file : Option String) : Progress :=
  { p with request := { p.request with file }, named := true }

/-- Sets an argument aside. -/
def setAside (p : Progress) (argument : String) : Progress :=
  { p with extras := p.extras ++ [argument] }

end Progress

/-- Takes the flags of one argument, the last of them with the value that is given. -/
def Progress.takeExpansion (p : Progress) (e : Item.Expansion) (value : Given String) :
    Except Stop Progress := do
  let p := e.meaningless.elim p fun letters => p.setAside (String.ofList ('-' :: letters))
  (← p.takeFlags e.letters).takeFlag e.last value

/-- Reads arguments. The first text names the file, with the marker before or behind it; a flag
takes its value from its own argument or from the next one, which must be a text. -/
def read (edition : Edition) (p : Progress) : List Item → Except Stop Progress
  | [] => .ok p
  | .text s :: .marker :: rest =>
      if p.named then read edition ((p.setAside s).setAside "--") rest
      else read edition (p.name (some s)) rest
  | .text s :: rest => read edition (if p.named then p.setAside s else p.name (some s)) rest
  | .marker :: .text s :: rest =>
      if p.named then read edition ((p.setAside "--").setAside s) rest
      else read edition (p.name (some s)) rest
  | .marker :: rest => read edition (if p.named then p.setAside "--" else p.name none) rest
  | .unknown s :: rest => read edition (p.setAside s) rest
  | .flag f value :: rest => do
      let e ← (Item.expansion edition f value).mapError .refused
      match e.value with
      | some value => read edition (← p.takeExpansion e (.ofText edition value)) rest
      | none =>
          if e.last.takesValue then
            match rest with
            | .text value :: rest =>
                read edition (← p.takeExpansion e (.ofText edition value.toList)) rest
            | _ => throw (.refused (.missingValue e.last))
          else read edition (← p.takeExpansion e (.value "")) rest

/-- The request of a command line. -/
def ofArguments (arguments : List String) (edition : Edition := .earlier) :
    Except Stop Request := do
  let items ← (Item.ofArguments arguments).mapError .refused
  let p ← read edition {} items
  if p.extras.isEmpty then return p.request else throw (.refused (.unrecognized p.extras))

end Request

end YamlNavigator
