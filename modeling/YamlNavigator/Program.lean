import YamlNavigator.CommandLine.Log
import YamlNavigator.CommandLine.Usage

/-!
A run of the program.

* `StandardInput`, `World`: what a run can ask for: what paths lead to, what surrounds it, and the
  standard input;
* `InputFault`, `readInput`: the text of the input, or why there is none;
* `NothingFault`: what a value that is nothing cannot be used for;
* `Crash`: what ends a run without an exit code;
* `Run`: a computation that prints and can end the run;
* `Run.written`: what a computation prints goes to an output that cannot write all characters;
* `Program.answer`: what is printed for a request;
* `Program.run`: a run with some arguments; the settings are loaded once and kept for later runs.
-/

namespace YamlNavigator

open Text

/-- The standard input: its bytes, or an error when it is read. It can also have been closed before
the run. -/
inductive StandardInput where
  | bytes (content : List UInt8)
  | failing (error : SystemError)
  | closed
  deriving DecidableEq, Repr

/-- An input that can be read. -/
instance : Coe (List UInt8) StandardInput := ⟨.bytes⟩

/-- What a run can ask for. -/
structure World where
  disk : Disk
  environment : Environment := {}
  input : StandardInput := .bytes []

/-! ### Input -/

/-- Why there is no input. -/
inductive InputFault where
  | unreadable (path : String) (fault : Files.Fault)
  /-- The standard input cannot be read. -/
  | broken (error : SystemError)
  /-- There is no standard input. -/
  | closed
  | tooLarge (path : String) (size : Nat) (limit : Int)
  | notUtf8 (fault : Utf8.Fault)
  | empty
  deriving DecidableEq, Repr

namespace InputFault

/-- The wording of a fault. -/
def message : InputFault → String
  | unreadable path fault => fault.message path
  | broken e => e.label
  | closed => "'NoneType' object has no attribute 'read'"
  | tooLarge path size limit =>
      s!"{path} is {Integer.grouped size} bytes, over the {Integer.grouped limit} byte limit"
  | notUtf8 fault => fault.message
  | empty => "input cannot be empty"

/-- Is there nothing to read? -/
def isMissing : InputFault → Bool
  | unreadable _ (.system e) | broken e => e.isMissing
  | _ => false

/-- Is the fault reported? A path that cannot be one and an input that was closed are not. -/
def isReported : InputFault → Bool
  | unreadable _ (.unfit _) | closed => false
  | _ => true

end InputFault

/-- The bytes of the standard input. -/
def StandardInput.read : StandardInput → Except InputFault (List UInt8)
  | .bytes content => .ok content
  | .failing e => .error (.broken e)
  | .closed => .error .closed

/-- The bytes of the file that is named, or of the standard input. A file may not be larger than the
settings allow. -/
def inputBytes (w : World) (x : Settings) (file : Option String) :
    Except InputFault (List UInt8) := do
  let path := file.getD ""
  if path = "" then w.input.read
  else
    let size ← (w.disk.size path).mapError (.unreadable path)
    if x.maxFileSize < size then throw (.tooLarge path size x.maxFileSize)
    (w.disk.read path).mapError (.unreadable path)

/-- The text of the input, which must not be blank. -/
def readInput (w : World) (x : Settings) (file : Option String) : Except InputFault String := do
  let bytes ← inputBytes w x file
  let s ← (Utf8.decode bytes).mapError .notUtf8
  let s := unifyBreaks s
  if isBlankText s then throw .empty
  return String.ofList s

/-! ### Runs -/

/-- What nothing, given in the place of a value, cannot be used for. -/
inductive NothingFault where
  /-- The beginning of a query. -/
  | beginning
  /-- The number of a match. -/
  | matchNumber
  /-- A height that is halved. -/
  | halved
  /-- A height that is added to the number of a line. -/
  | added
  deriving DecidableEq, Repr

/-- The wording of a fault. -/
def NothingFault.message : NothingFault → String
  | .beginning => "startswith first arg must be str or a tuple of str, not list"
  | .matchNumber => "'>' not supported between instances of 'int' and 'list'"
  | .halved => "unsupported operand type(s) for //: 'list' and 'int'"
  | .added => "unsupported operand type(s) for +: 'int' and 'list'"

/-- What ends a run without an exit code. -/
inductive Crash where
  | config (crash : Config.Crash)
  | input (fault : InputFault)
  | parse (error : ParseError)
  | style (fault : Integer.Fault)
  | render (fault : Printer.Fault)
  | nothing (fault : NothingFault)
  /-- The output cannot write a character. -/
  | unwritable (c : Char)
  deriving DecidableEq, Repr

/-- The wording of a crash. -/
def Crash.message : Crash → String
  | .config crash => crash.message
  | .input fault => fault.message
  | .parse error => error.message
  | .style fault => fault.message
  | .render fault => fault.message
  | .nothing fault => fault.message
  | .unwritable c => unencodable c

/-- How a run ends before all is printed. -/
inductive Exit where
  | code (n : Nat)
  | crash (c : Crash)
  deriving DecidableEq, Repr

/-- What was printed, and what was printed as an error. -/
structure Console where
  out : String := ""
  err : String := ""
  deriving DecidableEq, Repr, Inhabited

/-- A computation that prints and can end the run. -/
abbrev Run := ExceptT Exit (StateM Console)

namespace Run

/-- Prints a text. -/
def print (s : String) : Run Unit := modify fun c => { c with out := c.out ++ s }

/-- Prints a line as an error. -/
def report (s : String) : Run Unit := modify fun c => { c with err := c.err ++ s ++ "\n" }

/-- Prints a line as an error and ends the run. -/
def fail {α : Type} (s : String) : Run α := do
  report s
  throw (.code 1)

/-- Ends the run without an exit code. -/
def crash {α : Type} (c : Crash) : Run α := throw (.crash c)

/-- What a computation prints is written as a whole, or not at all if the output cannot write one of
its characters. -/
def written (encodes : Char → Bool) (m : Run Unit) : Run Unit := fun c =>
  let (result, d) := (ExceptT.run m).run { c with out := "" }
  match result, d.out.toList.find? fun a => !encodes a with
  | .ok (), some a => (.error (.crash (.unwritable a)), { d with out := c.out })
  | result, _ => (result, { d with out := c.out ++ d.out })

/-- Notes records; without a log only warnings are shown. -/
def note (verbose : Bool) (records : List LogRecord) : Run Unit :=
  records.forM fun r => if verbose || r.isWarning then report r.text else pure ()

/-- What was rendered. -/
def rendered {α : Type} (r : Except Printer.Fault α) : Run α :=
  match r with
  | .ok a => pure a
  | .error fault => crash (.render fault)

/-- A value that must not be nothing. -/
def given {α : Type} (fault : NothingFault) : Given α → Run α
  | .value a => pure a
  | .nothing => crash (.nothing fault)

end Run

namespace Program

/-- The settings: those of an earlier run, or else loaded. -/
def settings (w : World) (known : Option Settings) (verbose : Bool) : Run Settings :=
  match known with
  | some x => pure x
  | none =>
      match Config.load w.disk w.environment with
      | .ok (x, warning) => do
          Run.note verbose (warning.toList.map .ignored)
          return x
      | .error c => Run.crash (.config c)

/-- The text of the input. -/
def content (w : World) (x : Settings) (file : Option String) : Run String :=
  match readInput w x file with
  | .ok s => pure s
  | .error fault =>
      if fault.isReported then
        let named := file.getD "None"
        Run.fail <|
          if fault.isMissing then s!"Error: File not found: {named}"
          else s!"Error reading input: {fault.message}"
      else Run.crash (.input fault)

/-- The document of a text. -/
def document (source : String) (verbose : Bool) : Run Parsed :=
  match parse source with
  | .ok d => do
      Run.note verbose d.log
      return d
  | .error e =>
      if e.isReported then Run.fail s!"Error on parsing input: {e.message}"
      else Run.crash (.parse e)

/-- The printer of settings. -/
def printer (x : Settings) (color : Bool) : Run Printer :=
  match Printer.ofSettings x color with
  | .ok p => pure p
  | .error fault =>
      match fault.number? with
      | some number => Run.crash (.style number)
      | none => Run.fail s!"Error: invalid style in config: {fault.message}"

/-- The state in which a document is looked through. -/
def navigator (d : Parsed) (p : Printer) (lineNumbers verbose : Bool) : Run Navigator := do
  let x ← Run.rendered (Navigator.start d p lineNumbers)
  Run.note verbose (d.queryLog "")
  return x

/-- Prints the queries that begin with the one that is asked for, each on lines of its own. -/
def showSuggestions (x : Navigator) (query : Given String) (encodes : Char → Bool) : Run Unit := do
  if x.suggestions.isEmpty then return
  let query ← Run.given .beginning query
  (complete x.suggestions query).forM fun s => Run.written encodes (Run.print (s ++ "\n"))

/-- The window of a rendered document around a match, counted from one; after the last match comes
the first. -/
def window (x : Navigator) (focus height : Given Int) (verbose : Bool) : Run String := do
  let n ← Run.given .matchNumber focus
  let x := (max n 1).toNat.repeat Navigator.nextMatch x
  let line := x.focused?.bind (·.node.line)
  let first ←
    match line with
    | some _ => pure (x.scrollTarget (← Run.given .halved height))
    | none => pure 0
  Run.note verbose [.focused x.label line first]
  return selectLines x.content first (← Run.given .added height)

/-- Prints what is asked for of a document. -/
def showDocument (d : Parsed) (x : Settings) (r : Request) : Run Unit := do
  let p ← printer x r.color
  let nav ← navigator d p (r.lineNumbers || x.lineNumbers) r.verbose
  let query := r.query.getD ""
  let nav ← Run.rendered (nav.navigate query)
  Run.note r.verbose (d.queryLog query)
  if query != "" && nav.matched.isEmpty then Run.report s!"No match for {quoted query}"
  if r.output then Run.print nav.output
  else
    let shown ←
      match r.focus with
      | some n => if nav.matched.isEmpty then pure nav.content else window nav n r.height r.verbose
      | none => pure nav.content
    Run.print (shown ++ "\n")

/-- Prints what is asked for. -/
def answer (w : World) (x : Settings) (r : Request) : Run Unit := do
  let encodes := w.environment.encodes
  let d ← document (← content w x r.file) r.verbose
  if r.suggest then showSuggestions (← navigator d {} false r.verbose) r.query encodes
  else Run.written encodes (showDocument d x r)

/-- What a run leaves behind: how it ended, and what was printed. -/
structure Report where
  exit : Exit
  console : Console
  deriving DecidableEq, Repr

/-- The report of a computation. -/
def reportOf (m : Run Unit) (start : Console) : Report :=
  match (ExceptT.run m).run start with
  | (.ok (), c) => ⟨.code 0, c⟩
  | (.error e, c) => ⟨e, c⟩

/-- A run with some arguments. The settings known from an earlier run are used, and those that are
known after the run are answered with the report. -/
def run (w : World) (known : Option Settings) (arguments : List String) :
    Report × Option Settings :=
  match Request.ofArguments arguments w.environment.edition with
  | .error stop => (⟨.code stop.code, ⟨stop.out, stop.err⟩⟩, known)
  | .ok r =>
      match (ExceptT.run (settings w known r.verbose)).run {} with
      | (.error e, c) => (⟨e, c⟩, known)
      | (.ok x, c) => (reportOf (answer w x r) c, some x)

end Program

end YamlNavigator
