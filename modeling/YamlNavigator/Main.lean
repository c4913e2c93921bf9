import YamlNavigator.Program

/-!
The command line of the program.

* `Outside.faultOf`, `Outside.entryAt`: what a path leads to, or why it leads to nothing;
* `Outside.input`: the standard input;
* `Outside.environment`: what surrounds the run;
* `main`: a run with the arguments of the command line.
-/

namespace YamlNavigator.Outside

/-- The error of a number, which the system may have negated. -/
def systemError (code : UInt32) (details : String) : SystemError :=
  let number := if 2 * code.toNat < UInt32.size then code.toNat else UInt32.size - code.toNat
  let known := [Files.Fault.missing, .denied, .notDirectory, .isDirectory, .nameTooLong]
  (known.findSome? fun
    | .system e => if e.number = number then some e else none
    | .unfit _ => none).getD ⟨number, details⟩

/-- The fault of an error. -/
def faultOf : IO.Error → SystemError
  | .alreadyExists _ code details | .otherError code details | .resourceBusy code details
  | .resourceVanished code details | .unsupportedOperation code details
  | .hardwareFault code details | .unsatisfiedConstraints code details
  | .illegalOperation code details | .protocolError code details | .timeExpired code details
  | .interrupted _ code details | .noFileOrDirectory _ code details
  | .invalidArgument _ code details | .permissionDenied _ code details
  | .resourceExhausted _ code details | .inappropriateType _ code details
  | .noSuchThing _ code details => systemError code details
  | .unexpectedEof => ⟨5, "Input/output error"⟩
  | .userError details => ⟨5, details⟩

/-- What a path leads to. What may not be read is taken to be there, with no size that is known. -/
def entryAt (path : String) : IO (Except Files.Fault Entry) := do
  if let some c := Files.unfit? path then return .error (.unfit c)
  try
    return .ok (.file (← IO.FS.readBinFile path).toList)
  catch e =>
    let e := faultOf e
    match Files.Fault.system e with
    | .isDirectory => return .ok .directory
    | .denied => return .ok (.special 0 (.error e))
    | fault => return .error fault

/-- The standard input. -/
def input : IO StandardInput := do
  try
    return .bytes (← (← IO.getStdin).readBinToEnd).toList
  catch e =>
    let e := faultOf e
    return if e.number = 9 then .closed else .failing e

/-- The variables that the program knows. -/
def variableNames : List String :=
  ["XDG_CONFIG_HOME", "HOME", "YN_LINE_NUMBERS", "YN_GUTTER_SEPARATOR", "YN_COLOR_SYSTEM",
    "YN_MAX_FILE_SIZE"]

/-- What surrounds the run. The account of the user is not asked for. -/
def environment : IO Environment := do
  let vars ← variableNames.filterMapM fun name => do
    return (← IO.getEnv name).map fun value => (name, value)
  return { vars, account := none, edition := .later }

/-- What the paths lead to that a run asks for: that of the configuration document, and the file
that is named. -/
def diskOf (env : Environment) (arguments : List String) : IO Disk := do
  let place :=
    match Location.configuration env with
    | .ok p => [p.toText]
    | .error _ => []
  let named :=
    match Request.ofArguments arguments env.edition with
    | .ok r => r.file.toList
    | .error _ => []
  let entries ← (place ++ named).mapM fun path => do return (path, ← entryAt path)
  return fun path => (entries.lookup path).getD (.error .missing)

/-- Is the standard input read for these arguments? -/
def readsInput (env : Environment) (arguments : List String) : Bool :=
  match Request.ofArguments arguments env.edition with
  | .ok r => r.file.getD "" == ""
  | .error _ => false

end YamlNavigator.Outside

open YamlNavigator in
/-- A run with the arguments of the command line. -/
def main (arguments : List String) : IO UInt32 := do
  let environment ← Outside.environment
  let disk ← Outside.diskOf environment arguments
  let input ← if Outside.readsInput environment arguments then Outside.input else pure .closed
  let (report, _) := Program.run ⟨disk, environment, input⟩ none arguments
  IO.print report.console.out
  IO.eprint report.console.err
  match report.exit with
  | .code n => return n.toUInt32
  | .crash c => do
      IO.eprintln c.message
      return 1
