import YamlNavigator.Text.Lines
import YamlNavigator.Text.Quoted
import YamlNavigator.Text.Utf8

/-!
Files and the paths that lead to them.

* `SystemError`: an error of the system;
* `Files.Fault`: why a path leads to nothing that can be read;
* `Entry`, `Entry.size`, `Entry.read`: what a path can lead to, its size and its bytes;
* `Disk`: what each path leads to;
* `Disk.exists?`, `Disk.size`, `Disk.read`: asking for an entry, its size and its bytes;
* `Files`: the entries below a working directory;
* `Files.unfit?`: a character that no path may hold;
* `Files.find`: the entry that a path leads to, found name by name.
-/

namespace YamlNavigator

open Text

/-- An error of the system, by its number and its wording. -/
structure SystemError where
  number : Nat
  text : String
  deriving DecidableEq, Repr

/-- The number and the wording of an error. -/
def SystemError.label (e : SystemError) : String := s!"[Errno {e.number}] {e.text}"

/-- Is the error that there is nothing? -/
def SystemError.isMissing (e : SystemError) : Bool := e.number = 2

/-- Why a path leads to nothing that can be read. -/
inductive Files.Fault where
  | system (error : SystemError)
  /-- The path holds a character that no path may. -/
  | unfit (c : Char)
  deriving DecidableEq, Repr

namespace Files.Fault

/-- Nothing is there. -/
@[match_pattern]
def missing : Fault := .system ⟨2, "No such file or directory"⟩

/-- The user may not. -/
@[match_pattern]
def denied : Fault := .system ⟨13, "Permission denied"⟩

/-- What is on the way is no directory. -/
@[match_pattern]
def notDirectory : Fault := .system ⟨20, "Not a directory"⟩

/-- What is there is a directory. -/
@[match_pattern]
def isDirectory : Fault := .system ⟨21, "Is a directory"⟩

/-- The path, or a name in it, is too long. -/
@[match_pattern]
def nameTooLong : Fault := .system ⟨36, "File name too long"⟩

/-- The wording of a fault of a path. -/
def message (path : String) : Fault → String
  | system e => s!"{e.label}: {quoted path}"
  | unfit c => if c = '\x00' then "embedded null byte" else unencodable c

/-- Does the fault say that nothing is at the path? Then nothing is there or on the way, the way
leads round in circles, or the path cannot be one. -/
def isAbsence : Fault → Bool
  | system e => [2, 9, 20, 40].contains e.number
  | unfit _ => true

end Files.Fault

/-- What a path can lead to. The size of a pipe or a device says nothing about its bytes, and the
bytes of a file may be kept from the reader; such an entry is special. -/
inductive Entry where
  | file (bytes : List UInt8)
  | directory
  | special (size : Nat) (contents : Except SystemError (List UInt8))
  deriving Inhabited

namespace Entry

/-- The size that is reported for directories. -/
def directorySize : Nat := 4096

/-- The size that is reported for an entry. -/
def size : Entry → Nat
  | file bytes => bytes.length
  | directory => directorySize
  | special n _ => n

/-- The bytes of an entry. -/
def read : Entry → Except Files.Fault (List UInt8)
  | file bytes => .ok bytes
  | directory => .error .isDirectory
  | special _ contents => contents.mapError .system

end Entry

/-- What each path leads to. -/
abbrev Disk := String → Except Files.Fault Entry

namespace Disk

/-- Is there anything at a path? A fault that does not say that nothing is there is no answer. -/
def exists? (disk : Disk) (path : String) : Except Files.Fault Bool :=
  match disk path with
  | .ok _ => .ok true
  | .error fault => if fault.isAbsence then .ok false else .error fault

/-- The size of what a path leads to. -/
def size (disk : Disk) (path : String) : Except Files.Fault Nat := (disk path).map Entry.size

/-- The bytes of what a path leads to. -/
def read (disk : Disk) (path : String) : Except Files.Fault (List UInt8) := disk path >>= Entry.read

end Disk

/-! ### Below a working directory -/

/-- The entries below a working directory, each with the names that lead to it. The directories on
the way to an entry need no entry of their own. -/
structure Files where
  entries : List (List String × Entry)
  deriving Inhabited

/-- Where a path has led to: below the working directory, or outside it, where only directories on
the way are known. -/
inductive Files.Spot where
  | inside (names : List String)
  | outside
  deriving DecidableEq, Repr

namespace Files

/-- The names of a path. -/
def namesOf (path : String) : List String :=
  (splitOn '/' path.toList).map String.ofList

/-- The entry that names lead to. -/
def entry? (fs : Files) (names : List String) : Option Entry :=
  if names = [] then some .directory
  else
    match fs.entries.lookup names with
    | some e => some e
    | none => if fs.entries.any fun e => names.isPrefixOf e.1 then some .directory else none

/-- The longest name that is accepted, in bytes. -/
def nameLimit : Nat := 255

/-- The length, in bytes, that a path must not reach. -/
def pathLimit : Nat := 4096

/-- Follows names from a spot. Every name but the last must lead to a directory. -/
def follow (fs : Files) : Spot → List String → Except Fault Entry
  | .outside, [] => .ok .directory
  | .inside names, [] =>
      match fs.entry? names with
      | some e => .ok e
      | none => .error .missing
  | .outside, name :: rest =>
      if name = "" || name = "." || name = ".." then follow fs .outside rest
      else if nameLimit < Utf8.encodedSize name.toList then .error .nameTooLong
      else .error .missing
  | .inside names, name :: rest =>
      match fs.entry? names with
      | none => .error .missing
      | some (.file _) | some (.special _ _) => .error .notDirectory
      | some .directory =>
          if name = "" || name = "." then follow fs (.inside names) rest
          else if name = ".." then
            follow fs (if names = [] then .outside else .inside names.dropLast) rest
          else if nameLimit < Utf8.encodedSize name.toList then .error .nameTooLong
          else follow fs (.inside (names ++ [name])) rest

/-- A character of a path that no path may hold: a surrogate that stands for no byte, or a null
character. -/
def unfit? (path : String) : Option Char :=
  (path.toList.find? fun c => isStandIn c && !isByteStandIn c).or
    (path.toList.find? (· = '\x00'))

/-- The entry that a path leads to. -/
def find (fs : Files) : Disk := fun path =>
  match unfit? path with
  | some c => .error (.unfit c)
  | none =>
      if path = "" then .error .missing
      else if pathLimit ≤ Utf8.encodedSize path.toList then .error .nameTooLong
      else
        match namesOf path with
        | "" :: rest => follow fs .outside rest
        | names => follow fs (.inside []) names

end Files

end YamlNavigator
