import Mathlib.Data.List.Forall2
import Mathlib.Tactic.Lemma

/-!
Computations that may fail, read backwards from their success.

* `Except.bind_eq_ok_iff`, `Except.map_eq_ok_iff`, `Except.mapError_eq_ok_iff`: a computation that
  is put together from others succeeds if and only if its parts do;
* `Except.bind_eq_error_iff`, `Except.map_eq_error_iff`, `Except.mapError_eq_error_iff`: it fails if
  and only if one of its parts does;
* `Except.forall₂_of_mapM`, `Except.mapM_eq_error_iff`: the values of computations on the items of a
  list, and the first of them that fails;
* `Except.toOption_eq_some_iff`: the value that is had if a computation succeeds;
* `Except.exists_ok_of_toBool`, `Except.exists_ok_of_any`: a computation that is seen to succeed has
  a value, one that passes a check if it is seen to.
-/

namespace YamlNavigator.Except

variable {α β ε ε' : Type}

/-- A computation and one that depends on its value. -/
lemma bind_eq_ok_iff {x : Except ε α} {f : α → Except ε β} {b : β} :
    x >>= f = .ok b ↔ ∃ a, x = .ok a ∧ f a = .ok b := by
  cases x with
  | error e => simp [bind, Except.bind]
  | ok a => simp [bind, Except.bind]

/-- A computation whose value is changed. -/
lemma map_eq_ok_iff {x : Except ε α} {f : α → β} {b : β} :
    x.map f = .ok b ↔ ∃ a, x = .ok a ∧ f a = b := by
  cases x with
  | error e => simp [Except.map]
  | ok a => simp [Except.map]

/-- A computation whose failure is changed. -/
lemma mapError_eq_ok_iff {x : Except ε α} {f : ε → ε'} {a : α} :
    x.mapError f = .ok a ↔ x = .ok a := by
  cases x with
  | error e =>
      show Except.error (f e) = .ok a ↔ Except.error e = .ok a
      simp
  | ok b =>
      show Except.ok b = .ok a ↔ Except.ok b = .ok a
      simp

/-- A computation without parts. -/
lemma pure_eq_ok_iff {a b : α} : (pure a : Except ε α) = .ok b ↔ a = b := by
  simp [pure, Except.pure]

/-- A computation and one that depends on its value fail where the first one to fail does. -/
lemma bind_eq_error_iff {x : Except ε α} {f : α → Except ε β} {e : ε} :
    x >>= f = .error e ↔ x = .error e ∨ ∃ a, x = .ok a ∧ f a = .error e := by
  cases x with
  | error e' => simp [bind, Except.bind]
  | ok a => simp [bind, Except.bind]

/-- A computation whose value is changed fails as before. -/
lemma map_eq_error_iff {x : Except ε α} {f : α → β} {e : ε} :
    x.map f = .error e ↔ x = .error e := by
  cases x with
  | error e' => simp [Except.map]
  | ok a => simp [Except.map]

/-- A computation whose failure is changed. -/
lemma mapError_eq_error_iff {x : Except ε α} {f : ε → ε'} {e : ε'} :
    x.mapError f = .error e ↔ ∃ e₀, x = .error e₀ ∧ f e₀ = e := by
  cases x with
  | error e₀ =>
      show Except.error (f e₀) = .error e ↔ _
      simp
  | ok a =>
      show Except.ok a = .error e ↔ _
      simp

/-- Computations on the items of a list that succeed together succeed one by one. -/
lemma forall₂_of_mapM {f : α → Except ε β} : ∀ {as : List α} {bs : List β},
    as.mapM f = .ok bs → List.Forall₂ (fun a b => f a = .ok b) as bs
  | [], bs, h => by
      rw [List.mapM_nil, pure_eq_ok_iff] at h
      exact h ▸ .nil
  | a :: as, bs, h => by
      rw [List.mapM_cons, bind_eq_ok_iff] at h
      obtain ⟨b, hb, h⟩ := h
      rw [bind_eq_ok_iff] at h
      obtain ⟨bs, hbs, h⟩ := h
      rw [pure_eq_ok_iff] at h
      exact h ▸ .cons hb (forall₂_of_mapM hbs)

/-- Computations on the items of a list fail if and only if one of them does; the first that fails
says how. -/
lemma mapM_eq_error_iff {f : α → Except ε β} {e : ε} {as : List α} :
    as.mapM f = .error e ↔ ∃ before a after, as = before ++ a :: after ∧
      (∀ a ∈ before, ∃ b, f a = .ok b) ∧ f a = .error e := by
  induction as with
  | nil =>
      constructor
      · intro h
        cases h
      · rintro ⟨before, a, after, h, -⟩
        exact absurd h.symm (by simp)
  | cons a as ih =>
      rw [List.mapM_cons, bind_eq_error_iff]
      constructor
      · rintro (ha | ⟨b, hb, h⟩)
        · exact ⟨[], a, as, rfl, by simp, ha⟩
        · rcases bind_eq_error_iff.mp h with h | ⟨bs, -, h⟩
          · obtain ⟨before, a', after, rfl, hbefore, ha'⟩ := ih.mp h
            exact ⟨a :: before, a', after, rfl, List.forall_mem_cons.mpr ⟨⟨b, hb⟩, hbefore⟩, ha'⟩
          · cases h
      · rintro ⟨before, a', after, heq, hbefore, ha'⟩
        rcases List.cons_eq_append_iff.mp heq with ⟨rfl, heq⟩ | ⟨before, rfl, rfl⟩
        · cases heq
          exact .inl ha'
        · obtain ⟨⟨b, hb⟩, hbefore⟩ := List.forall_mem_cons.mp hbefore
          have hrest := ih.mpr ⟨before, a', after, rfl, hbefore, ha'⟩
          exact .inr ⟨b, hb, bind_eq_error_iff.mpr (.inl hrest)⟩

/-- A computation with a value is one that succeeds with it. -/
lemma toOption_eq_some_iff {x : Except ε α} {a : α} :
    x.toOption = some a ↔ x = .ok a := by
  cases x with
  | error e => simp [Except.toOption]
  | ok b => simp [Except.toOption]

/-- A computation that is seen to succeed has a value. -/
lemma exists_ok_of_toBool {x : Except ε α} (h : x.toBool = true) : ∃ a, x = .ok a := by
  cases x with
  | error e => simp [Except.toBool] at h
  | ok a => exact ⟨a, rfl⟩

/-- A computation that is seen to succeed with a value that passes a check has such a value. -/
lemma exists_ok_of_any {x : Except ε α} {p : α → Bool} (h : x.toOption.any p = true) :
    ∃ a, x = .ok a ∧ p a = true := by
  cases x with
  | error e => simp [Except.toOption] at h
  | ok a => exact ⟨a, rfl, by simpa [Except.toOption] using h⟩

end YamlNavigator.Except
