import Mathlib.Tactic.Lemma
import YamlNavigator.Yaml.Scan

/-!
What a reading step ensures: a calculus for steps that are put together from others.

* `Scan.Ensures`: whenever a step that begins at a cursor succeeds, its value and the cursor behind
  it have a property;
* `ensures_bind`, `ensures_here`, `ensures_advance` and their like: the property is moved backwards
  through the elementary steps;
* `Ensures.of_before`: a property that holds of every later cursor is ensured by every step;
* `ensures_iterate`: an invariant of the rounds of a repetition holds behind the last of them;
* `ensures_iterate_done`: if every round but the last one reads a character, a repetition ends
  because a round said so, and not because the rounds ran out.
-/

namespace YamlNavigator.Yaml

namespace Cursor

/-- A later cursor has at least the same offset, and the text in front of it is longer by the
difference of the offsets. -/
lemma Before.index_add_length {c d : Cursor} (h : c.Before d) :
    d.mark.index + d.rest.length = c.mark.index + c.rest.length :=
  (rest_of_before h).2

/-- Moving over one character that is there raises the offset by one. -/
lemma index_forward_one {c : Cursor} (h : c.rest ≠ []) :
    (c.forward 1).mark.index = c.mark.index + 1 := by
  have hlen : 0 < c.rest.length := List.length_pos_iff.mpr h
  rw [index_forward]
  omega

/-- Moving over at least one character raises the offset if there is a character. -/
lemma index_lt_forward {c : Cursor} {n : Nat} (h : c.rest ≠ []) (hn : 0 < n) :
    c.mark.index < (c.forward n).mark.index := by
  have hlen : 0 < c.rest.length := List.length_pos_iff.mpr h
  rw [index_forward]
  omega

/-- What a later cursor has in front of it is the end of what an earlier one has. -/
lemma Before.rest_suffix {c d : Cursor} (h : c.Before d) : d.rest <:+ c.rest := by
  rw [(Cursor.rest_of_before h).1]
  exact List.drop_suffix _ _

/-- The next character stands in front of what is left behind it. -/
lemma rest_of_peek {c : Cursor} {ch : Char} (h : c.peek 0 = some ch) :
    c.rest = ch :: (c.forward 1).rest := by
  rw [rest_forward]
  cases hrest : c.rest with
  | nil => simp [peek, hrest] at h
  | cons d s =>
      obtain rfl : d = ch := by simpa [peek, hrest] using h
      rfl

end Cursor

namespace Scan

variable {α β σ : Type} {c : Cursor}

/-- If the step that begins at `c` succeeds, its value and the cursor behind it satisfy `Q`. -/
def Ensures (x : Scan α) (c : Cursor) (Q : α → Cursor → Prop) : Prop :=
  ∀ a d, x.run c = .ok (a, d) → Q a d

/-- What is ensured may be weakened. -/
lemma Ensures.mono {x : Scan α} {P Q : α → Cursor → Prop} (h : x.Ensures c P)
    (hPQ : ∀ a d, P a d → Q a d) : x.Ensures c Q :=
  fun a d hx => hPQ a d (h a d hx)

/-- Every step ensures what holds of all later cursors. -/
lemma Ensures.of_before {x : Scan α} {Q : α → Cursor → Prop}
    (h : ∀ a d, c.Before d → Q a d) : x.Ensures c Q :=
  fun a d hx => h a d (x.before_of_run hx)

/-- What is ensured may be weakened by what holds of all later cursors. -/
lemma Ensures.mono_before {x : Scan α} {P Q : α → Cursor → Prop} (h : x.Ensures c P)
    (hPQ : ∀ a d, c.Before d → P a d → Q a d) : x.Ensures c Q :=
  fun a d hx => hPQ a d (x.before_of_run hx) (h a d hx)

/-! ### Elementary steps -/

lemma ensures_pure {a : α} {Q : α → Cursor → Prop} :
    (Pure.pure a : Scan α).Ensures c Q ↔ Q a c := by
  constructor
  · intro h
    exact h a c rfl
  · intro h b d hb
    cases hb
    exact h

lemma ensures_bind {x : Scan α} {f : α → Scan β} {Q : β → Cursor → Prop} :
    (x >>= f).Ensures c Q ↔ x.Ensures c fun a d => (f a).Ensures d Q := by
  constructor
  · intro h a d hx b e hf
    refine h b e ?_
    show (Scan.bind x f).run c = .ok (b, e)
    dsimp only [Scan.bind]
    rw [hx]
    exact hf
  · intro h b e hb
    replace hb : (Scan.bind x f).run c = .ok (b, e) := hb
    dsimp only [Scan.bind] at hb
    split at hb
    · cases hb
    · next a d hx => exact h a d hx b e hb

lemma ensures_here {Q : Mark → Cursor → Prop} : here.Ensures c Q ↔ Q c.mark c :=
  ⟨fun h => h _ _ rfl, fun h a d hx => by cases hx; exact h⟩

lemma ensures_ahead {Q : List Char → Cursor → Prop} : ahead.Ensures c Q ↔ Q c.rest c :=
  ⟨fun h => h _ _ rfl, fun h a d hx => by cases hx; exact h⟩

lemma ensures_peek {k : Nat} {Q : Option Char → Cursor → Prop} :
    (peek k).Ensures c Q ↔ Q (c.peek k) c :=
  ⟨fun h => h _ _ rfl, fun h a d hx => by cases hx; exact h⟩

lemma ensures_advance {n : Nat} {Q : Unit → Cursor → Prop} :
    (advance n).Ensures c Q ↔ Q () (c.forward n) :=
  ⟨fun h => h _ _ rfl, fun h a d hx => by cases hx; exact h⟩

lemma ensures_raise {e : Failure} {Q : α → Cursor → Prop} : (raise e).Ensures c Q :=
  fun _ _ hx => by cases hx

lemma ensures_fail {cause : Problem} {Q : α → Cursor → Prop} : (fail cause).Ensures c Q := by
  rw [fail, ensures_bind, ensures_here]
  exact ensures_raise

lemma ensures_column {Q : Nat → Cursor → Prop} : column.Ensures c Q ↔ Q c.mark.column c := by
  rw [column, ensures_bind, ensures_here, ensures_pure]

lemma ensures_nextIs {ch : Char} {Q : Bool → Cursor → Prop} :
    (nextIs ch).Ensures c Q ↔ Q (c.peek 0 == some ch) c := by
  rw [nextIs, ensures_bind, ensures_peek, ensures_pure]

/-- Looking for a marker between documents moves over nothing. -/
lemma ensures_atSeparator {Q : Bool → Cursor → Prop} (h : ∀ b, Q b c) :
    atSeparator.Ensures c Q := by
  simp only [ensures_bind, atSeparator, ensures_ahead, ensures_peek, ensures_pure]
  exact h _

/-- A step that is chosen by a condition ensures what both choices do. -/
lemma ensures_ite {p : Prop} [Decidable p] {x y : Scan α} {Q : α → Cursor → Prop}
    (hx : p → x.Ensures c Q) (hy : ¬p → y.Ensures c Q) : (if p then x else y).Ensures c Q := by
  split
  · exact hx ‹_›
  · exact hy ‹_›

/-- A step that is taken or not, in front of one that is taken anyway. -/
lemma ensures_optional {p : Prop} [Decidable p] {x : Scan α} {y : Scan β}
    {Q : β → Cursor → Prop} (h : ∀ d, c.Before d → y.Ensures d Q) :
    (if p then x >>= fun _ => y else y).Ensures c Q := by
  split
  · rw [ensures_bind]
    exact .of_before fun _ d hd => h d hd
  · exact h c (Cursor.before_refl c)

/-- A refusal in front of a step only leaves the case in which nothing is refused. -/
lemma ensures_unless {p : Prop} [Decidable p] {cause : Problem} {f : Unit → Scan α}
    {Q : α → Cursor → Prop} (h : ¬p → (f ()).Ensures c Q) :
    (if p then fail cause >>= f else f ()).Ensures c Q := by
  split
  · rw [ensures_bind]
    exact ensures_fail
  · exact h ‹_›

lemma ensures_takeWhile_iff {p : Char → Bool} {Q : List Char → Cursor → Prop} :
    (takeWhile p).Ensures c Q ↔
      Q (c.rest.takeWhile p) (c.forward (c.rest.takeWhile p).length) := by
  rw [takeWhile, ensures_bind, ensures_ahead]
  dsimp only
  rw [ensures_bind, ensures_advance, ensures_pure]

/-- A run of characters stands in front of what is left behind it. -/
lemma ensures_takeWhile {p : Char → Bool} {Q : List Char → Cursor → Prop}
    (h : ∀ run d, c.rest = run ++ d.rest → run.all p = true → Q run d) :
    (takeWhile p).Ensures c Q := by
  refine ensures_takeWhile_iff.mpr (h _ _ ?_ List.all_takeWhile)
  rw [Cursor.rest_forward]
  exact (List.prefix_iff_eq_append.mp (List.takeWhile_prefix p)).symm

/-! ### Repetition -/

/-- An invariant that every round keeps, and whose holding after a round is what is asked for. -/
lemma ensures_iterate {step : σ → Scan (ForInStep σ)} {I Q : σ → Cursor → Prop} {s : σ}
    (hs : I s c)
    (hstep : ∀ s c, I s c → (step s).Ensures c fun r d =>
      match r with
      | .done t => Q t d
      | .yield t => Q t d ∧ I t d) :
    (iterate step s).Ensures c Q := by
  have key : ∀ (bound : List Char) (s : σ) (c : Cursor), I s c →
      (rounds step bound s).Ensures c Q := by
    intro bound
    induction bound with
    | nil =>
        intro s c hs
        rw [rounds, ensures_bind]
        refine (hstep s c hs).mono fun r d hr => ?_
        cases r with
        | done t => exact ensures_pure.mpr hr
        | yield t => exact ensures_pure.mpr hr.1
    | cons _ bound ih =>
        intro s c hs
        rw [rounds, ensures_bind]
        refine (hstep s c hs).mono fun r d hr => ?_
        cases r with
        | done t => exact ensures_pure.mpr hr
        | yield t => exact ih t d hr.2
  rw [iterate, ensures_bind, ensures_ahead]
  exact key c.rest s c hs

/-- An invariant that every round keeps holds behind a repetition. -/
lemma ensures_iterate_of_invariant {step : σ → Scan (ForInStep σ)} {I : σ → Cursor → Prop} {s : σ}
    (hs : I s c) (hstep : ∀ s c, I s c → (step s).Ensures c fun r d => I r.value d) :
    (iterate step s).Ensures c I := by
  refine ensures_iterate hs fun s c h => (hstep s c h).mono fun r d hr => ?_
  cases r with
  | done t => exact hr
  | yield t => exact ⟨hr, hr⟩

/-- If each round that goes on reads a character, the repetition ends with a round that is done. -/
lemma ensures_iterate_done (step : σ → Scan (ForInStep σ)) {I Q : σ → Cursor → Prop} {s : σ}
    (hs : I s c)
    (hstep : ∀ s c, I s c → (step s).Ensures c fun r d =>
      match r with
      | .done t => Q t d
      | .yield t => I t d ∧ c.mark.index < d.mark.index) :
    (iterate step s).Ensures c Q := by
  -- the rounds that are left are at least as many as the characters ahead
  have key : ∀ (bound : List Char) (s : σ) (c : Cursor), I s c →
      c.rest.length ≤ bound.length → (rounds step bound s).Ensures c Q := by
    intro bound
    induction bound with
    | nil =>
        intro s c hs hle
        rw [rounds, ensures_bind]
        refine (hstep s c hs).mono_before fun r d hcd hr => ?_
        cases r with
        | done t => exact ensures_pure.mpr hr
        | yield t =>
            have hlen := hcd.index_add_length
            have hlt := hr.2
            simp only [List.length_nil] at hle
            omega
    | cons _ bound ih =>
        intro s c hs hle
        rw [rounds, ensures_bind]
        refine (hstep s c hs).mono_before fun r d hcd hr => ?_
        cases r with
        | done t => exact ensures_pure.mpr hr
        | yield t =>
            have hlen := hcd.index_add_length
            have hlt := hr.2
            simp only [List.length_cons] at hle
            exact ih t d hr.1 (by omega)
  rw [iterate, ensures_bind, ensures_ahead]
  exact key c.rest s c hs (Nat.le_refl _)

end Scan

end YamlNavigator.Yaml
