import YamlNavigator.Proofs.Text.Spelling
import YamlNavigator.Proofs.Yaml.Step

/-!
Two readings that go side by side: one of a text, and one of the text in another spelling.

* `Scan.Mirrors`: whenever a step succeeds at a cursor, another step succeeds at another cursor, and
  the two outcomes are related;
* `mirrors_bind`, `mirrors_here`, `mirrors_ite` and their like: the relation is moved backwards
  through steps that are put together from others;
* `mirrors_iterate`: repetitions go on and end together if their rounds do;
* `Cursor.Twins`: cursors at one place of a text and of its spelling;
* `Scan.Agrees`: a step that answers the same at twin cursors and leaves twin cursors behind;
* `mirrors_lineBreak`, `agrees_takeWhile`, `bind_atSeparator`, `agrees_ignoredLine`: the
  elementary readers do.
-/

namespace YamlNavigator.Yaml

/-- The place in a spelled text that corresponds to a place in the text. -/
def Mark.spelled (w : Spelling) (s : List Char) (m : Mark) : Mark :=
  { m with index := w.offset s m.index }

namespace Scan

variable {α β γ δ σ τ : Type} {c d : Cursor} {x : Scan α} {y : Scan β}
  {Q : α → β → Cursor → Cursor → Prop}

/-! ### Steps side by side -/

/-- If `x` succeeds at `c` then `y` succeeds at `d`, and the two values and the two cursors behind
satisfy `Q`. -/
def Mirrors (x : Scan α) (y : Scan β) (c d : Cursor) (Q : α → β → Cursor → Cursor → Prop) : Prop :=
  ∀ a c', x.run c = .ok (a, c') → ∃ b d', y.run d = .ok (b, d') ∧ Q a b c' d'

/-- The relation may be weakened. -/
lemma Mirrors.mono {P : α → β → Cursor → Cursor → Prop} (h : x.Mirrors y c d P)
    (hPQ : ∀ a b c' d', P a b c' d' → Q a b c' d') : x.Mirrors y c d Q := by
  intro a c' hx
  obtain ⟨b, d', hy, hP⟩ := h a c' hx
  exact ⟨b, d', hy, hPQ a b c' d' hP⟩

/-- The relation may be weakened by what the first step ensures. -/
lemma Mirrors.mono_ensures {P : α → β → Cursor → Cursor → Prop} {E : α → Cursor → Prop}
    (h : x.Mirrors y c d P) (hE : x.Ensures c E)
    (hPQ : ∀ a b c' d', E a c' → P a b c' d' → Q a b c' d') : x.Mirrors y c d Q := by
  intro a c' hx
  obtain ⟨b, d', hy, hP⟩ := h a c' hx
  exact ⟨b, d', hy, hPQ a b c' d' (hE a c' hx) hP⟩

/-- The relation may be weakened by what holds of all later cursors. -/
lemma Mirrors.mono_before {P : α → β → Cursor → Cursor → Prop} (h : x.Mirrors y c d P)
    (hPQ : ∀ a b c' d', c.Before c' → P a b c' d' → Q a b c' d') : x.Mirrors y c d Q :=
  h.mono_ensures (.of_before fun _ _ hc => hc) hPQ

lemma mirrors_pure {a : α} {b : β} :
    (Pure.pure a : Scan α).Mirrors (Pure.pure b : Scan β) c d Q ↔ Q a b c d := by
  constructor
  · intro h
    obtain ⟨b', d', hy, hQ⟩ := h a c rfl
    cases hy
    exact hQ
  · intro h a' c' hx
    cases hx
    exact ⟨b, d, rfl, h⟩

variable {f : α → Scan γ} {g : β → Scan δ} {R : γ → δ → Cursor → Cursor → Prop}

lemma mirrors_bind (h : x.Mirrors y c d fun a b c' d' => (f a).Mirrors (g b) c' d' R) :
    (x >>= f).Mirrors (y >>= g) c d R := by
  intro r e hr
  replace hr : (Scan.bind x f).run c = .ok (r, e) := hr
  dsimp only [Scan.bind] at hr
  split at hr
  · cases hr
  · next a c' hx =>
      obtain ⟨b, d', hy, hfg⟩ := h a c' hx
      obtain ⟨r', e', hg, hR⟩ := hfg r e hr
      refine ⟨r', e', ?_, hR⟩
      show (Scan.bind y g).run d = .ok (r', e')
      dsimp only [Scan.bind]
      rw [hy]
      exact hg

lemma mirrors_here {f : Mark → Scan γ} {g : Mark → Scan δ} :
    (here >>= f).Mirrors (here >>= g) c d R ↔ (f c.mark).Mirrors (g d.mark) c d R := Iff.rfl

lemma mirrors_ahead {f : List Char → Scan γ} {g : List Char → Scan δ} :
    (ahead >>= f).Mirrors (ahead >>= g) c d R ↔ (f c.rest).Mirrors (g d.rest) c d R := Iff.rfl

lemma mirrors_peek {k k' : Nat} {f : Option Char → Scan γ} {g : Option Char → Scan δ} :
    (peek k >>= f).Mirrors (peek k' >>= g) c d R ↔
      (f (c.peek k)).Mirrors (g (d.peek k')) c d R := Iff.rfl

lemma mirrors_advance {k k' : Nat} {f : Unit → Scan γ} {g : Unit → Scan δ} :
    (advance k >>= f).Mirrors (advance k' >>= g) c d R ↔
      (f ()).Mirrors (g ()) (c.forward k) (d.forward k') R := Iff.rfl

lemma mirrors_column {f : Nat → Scan γ} {g : Nat → Scan δ} :
    (column >>= f).Mirrors (column >>= g) c d R ↔
      (f c.mark.column).Mirrors (g d.mark.column) c d R := Iff.rfl

lemma mirrors_nextIs {ch : Char} {f : Bool → Scan γ} {g : Bool → Scan δ} :
    (nextIs ch >>= f).Mirrors (nextIs ch >>= g) c d R ↔
      (f (c.peek 0 == some ch)).Mirrors (g (d.peek 0 == some ch)) c d R := Iff.rfl

/-- A step that raises a failure never succeeds. -/
lemma mirrors_raise {e : Failure} : (raise e : Scan α).Mirrors y c d Q :=
  fun _ _ hx => by cases hx

/-- A step that fails never succeeds. -/
lemma mirrors_fail {cause : Problem} : (fail cause : Scan α).Mirrors y c d Q :=
  fun _ _ hx => by cases hx

/-- Steps that are chosen by equivalent conditions. -/
lemma mirrors_ite {p q : Prop} [Decidable p] [Decidable q] {x' : Scan α} {y' : Scan β}
    (hpq : p ↔ q) (hx : p → x.Mirrors y c d Q) (hy : ¬p → x'.Mirrors y' c d Q) :
    (if p then x else x').Mirrors (if q then y else y') c d Q := by
  by_cases hp : p
  · rw [if_pos hp, if_pos (hpq.mp hp)]
    exact hx hp
  · rw [if_neg hp, if_neg fun hq => hp (hpq.mpr hq)]
    exact hy hp

/-- Refusals in front of steps, of which the second is made only together with the first. -/
lemma mirrors_unless {p q : Prop} [Decidable p] [Decidable q] {cause cause' : Problem}
    {f : Unit → Scan α} {g : Unit → Scan β} (hpq : q → p)
    (h : ¬p → (f ()).Mirrors (g ()) c d Q) :
    (if p then fail cause >>= f else f ()).Mirrors (if q then fail cause' >>= g else g ()) c d
      Q := by
  by_cases hp : p
  · rw [if_pos hp]
    exact fun _ _ hx => by cases hx
  · rw [if_neg hp, if_neg fun hq => hp (hpq hq)]
    exact h hp

/-! ### Repetition -/

/-- Two rounds of repetitions that are done together with `Q`, or go on together with `I`. -/
inductive Abreast (Q I : σ → τ → Prop) : ForInStep σ → ForInStep τ → Prop
  | done {s : σ} {t : τ} (h : Q s t) : Abreast Q I (.done s) (.done t)
  | yield {s : σ} {t : τ} (h : I s t) : Abreast Q I (.yield s) (.yield t)

/-- Rounds are done together or go on together, if every round that goes on reads a character. The
texts may be of different lengths; the rounds suffice for the shorter one. -/
lemma mirrors_rounds {step : σ → Scan (ForInStep σ)} {step' : τ → Scan (ForInStep τ)}
    {I Q : σ → τ → Cursor → Cursor → Prop}
    (hstep : ∀ s t c d, I s t c d → (step s).Mirrors (step' t) c d fun r r' c' d' =>
      Abreast (fun s t => Q s t c' d') (fun s t => I s t c' d' ∧ c.mark.index < c'.mark.index)
        r r') :
    ∀ (bound bound' : List Char) (s : σ) (t : τ) (c d : Cursor), I s t c d →
      c.rest.length ≤ bound.length → c.rest.length ≤ bound'.length →
      (rounds step bound s).Mirrors (rounds step' bound' t) c d Q := by
  intro bound
  induction bound with
  | nil =>
      intro bound' s t c d hI hle _
      cases bound' <;>
      · rw [rounds, rounds]
        refine mirrors_bind ((hstep s t c d hI).mono_before ?_)
        rintro _ _ c' d' hc (hQ | ⟨-, hlt⟩)
        · exact mirrors_pure.mpr hQ
        · have hlen := hc.index_add_length
          rw [List.length_nil] at hle
          omega
  | cons _ bound ih =>
      intro bound' s t c d hI hle hle'
      cases bound' with
      | nil =>
          rw [rounds, rounds]
          refine mirrors_bind ((hstep s t c d hI).mono_before ?_)
          rintro _ _ c' d' hc (hQ | ⟨-, hlt⟩)
          · exact mirrors_pure.mpr hQ
          · have hlen := hc.index_add_length
            rw [List.length_nil] at hle'
            omega
      | cons _ bound' =>
          rw [rounds, rounds]
          refine mirrors_bind ((hstep s t c d hI).mono_before ?_)
          rintro _ _ c' d' hc (hQ | ⟨hI', hlt⟩)
          · exact mirrors_pure.mpr hQ
          · have hlen := hc.index_add_length
            rw [List.length_cons] at hle hle'
            exact ih bound' _ _ c' d' hI' (by omega) (by omega)

/-- Repetitions go on and end together if their rounds do, and if every round that goes on reads a
character. -/
lemma mirrors_iterate {step : σ → Scan (ForInStep σ)} {step' : τ → Scan (ForInStep τ)}
    {s : σ} {t : τ} (I : σ → τ → Cursor → Cursor → Prop) {Q : σ → τ → Cursor → Cursor → Prop}
    (hI : I s t c d) (hle : c.rest.length ≤ d.rest.length)
    (hstep : ∀ s t c d, I s t c d → (step s).Mirrors (step' t) c d fun r r' c' d' =>
      Abreast (fun s t => Q s t c' d') (fun s t => I s t c' d' ∧ c.mark.index < c'.mark.index)
        r r') :
    (iterate step s).Mirrors (iterate step' t) c d Q :=
  mirrors_rounds hstep c.rest d.rest s t c d hI (Nat.le_refl _) hle

end Scan

/-! ### Twin cursors -/

/-- The mark after a character that is spelled as it is. What follows matters behind a carriage
return only. -/
lemma Mark.step_spelled {w : Spelling} {s : List Char} {m : Mark} {ch : Char}
    {after after' : List Char} (hindex : w.offset s (m.index + 1) = w.offset s m.index + 1)
    (h : ch = '\r' → after' = after) :
    (m.spelled w s).step ch after' = (m.step ch after).spelled w s := by
  have hbreak : ∀ rest : List Char, (ch = '\n' || ch = '\x85' || ch = '\u2028' || ch = '\u2029' ||
      (ch = '\r' && rest.head? != some '\n')) = (ch = '\n' || ch = '\x85' || ch = '\u2028' ||
        ch = '\u2029' || (ch = '\r' && after.head? != some '\n')) ∨ ch = '\r' := by
    intro rest
    by_cases hr : ch = '\r'
    · exact .inr hr
    · simp [hr]
  rcases hbreak after' with hsame | hr
  · rw [step, step, hsame]
    split
    · rw [spelled, spelled, hindex]
    · split <;> rw [spelled, spelled, hindex]
  · rw [h hr, step, step]
    split
    · rw [spelled, spelled, hindex]
    · split <;> rw [spelled, spelled, hindex]

namespace Cursor

/-- At the end of the text a cursor stays. -/
lemma forward_of_rest_eq_nil {c : Cursor} (h : c.rest = []) (n : Nat) : c.forward n = c := by
  induction n with
  | zero => rfl
  | succ n ih =>
      have hnext : c.next = c := by
        rw [next]
        split
        · rfl
        · next heq => rw [h] at heq; cases heq
      rw [forward_succ, hnext, ih]

/-- A cursor moves to the end of the text at most. -/
lemma forward_of_length_le {c : Cursor} {n : Nat} (h : c.rest.length ≤ n) :
    c.forward n = c.forward c.rest.length := by
  obtain ⟨k, rfl⟩ := Nat.exists_eq_add_of_le h
  rw [forward_add, forward_of_rest_eq_nil]
  rw [rest_forward, List.drop_length]

/-- Cursors at one place of a text and of its spelling. -/
structure Twins (w : Spelling) (s : List Char) (c d : Cursor) : Prop where
  suits : w.Suits s
  reached : (ofText s).Before c
  rest : d.rest = w.body c.rest
  mark : d.mark = c.mark.spelled w s

namespace Twins

variable {w : Spelling} {s u t : List Char} {c d : Cursor} {ch : Char} {n : Nat}

lemma rest_eq (h : Twins w s c d) : c.rest = s.drop c.mark.index := by
  have := (rest_of_before h.reached).1
  rwa [ofText, Mark.start, Nat.sub_zero] at this

/-- At least as many characters are ahead in the spelled text. -/
lemma length_le (h : Twins w s c d) : c.rest.length ≤ d.rest.length := by
  rw [h.rest]
  exact Spelling.length_le_body c.rest

lemma column_eq (h : Twins w s c d) : d.mark.column = c.mark.column := by rw [h.mark]; rfl

/-- If carriage returns are put in, there are none ahead. -/
lemma ne_return (h : Twins w s c d) (hw : w.returns = true) (hc : ch ∈ c.rest) : ch ≠ '\r' := by
  rintro rfl
  rw [h.rest_eq] at hc
  exact h.suits.unreturned hw (List.mem_of_mem_drop hc)

/-- A cursor has one twin. -/
lemma right_unique {e : Cursor} (h : Twins w s c d) (h' : Twins w s c e) : d = e := by
  obtain ⟨rest, m⟩ := d
  obtain ⟨rest', m'⟩ := e
  obtain rfl : rest = _ := h.rest
  obtain rfl : m = _ := h.mark
  obtain rfl : rest' = _ := h'.rest
  obtain rfl : m' = _ := h'.mark
  rfl

/-- Twin cursors move over a character and its spelling. -/
lemma forward_one (h : Twins w s c d) (hc : c.rest = ch :: t) :
    Twins w s (c.forward 1) (d.forward (w.char ch).length) := by
  obtain ⟨rest, m⟩ := c
  obtain ⟨rest', m'⟩ := d
  obtain rfl : rest = ch :: t := hc
  obtain rfl : rest' = w.body (ch :: t) := h.rest
  obtain rfl : m' = m.spelled w s := h.mark
  have hoffset : w.offset s (m.index + 1) = w.offset s m.index + (w.char ch).length := by
    have hdrop : s.drop m.index = [ch] ++ t := h.rest_eq.symm
    have := Spelling.offset_add (w := w) hdrop
    rwa [Spelling.body_singleton] at this
  refine ⟨h.suits, h.reached.trans (before_forward _ 1), ?_, ?_⟩
  · rw [rest_forward, rest_forward, Spelling.body_cons, List.drop_left]
    rfl
  · show ((⟨w.body (ch :: t), m.spelled w s⟩ : Cursor).forward (w.char ch).length).mark =
      (m.step ch t).spelled w s
    rw [Spelling.body_cons]
    by_cases hfeed : ch = '\n' ∧ w.returns = true
    · -- the carriage return does not end the line by itself
      obtain ⟨rfl, hw⟩ := hfeed
      have hchar : w.char '\n' = ['\r', '\n'] := by simp [Spelling.char, hw]
      rw [hchar] at hoffset ⊢
      show ((m.spelled w s).step '\r' ('\n' :: w.body t)).step '\n' (w.body t) = _
      simp only [List.length_cons, List.length_nil] at hoffset
      simp [Mark.step, Mark.spelled, hoffset]
    · have hchar : w.char ch = [ch] := by
        rw [Spelling.char, if_neg]
        simpa [and_comm] using hfeed
      rw [hchar] at hoffset ⊢
      refine Mark.step_spelled hoffset fun hr => ?_
      cases hw : w.returns with
      | false => exact Spelling.body_of_returns_eq_false hw t
      | true => exact absurd hr (h.ne_return hw List.mem_cons_self)

/-- Twin cursors move over a part and its spelling. -/
lemma forward (h : Twins w s c d) (hc : c.rest = u ++ t) :
    Twins w s (c.forward u.length) (d.forward (w.body u).length) := by
  induction u generalizing c d with
  | nil => simpa using h
  | cons ch u ih =>
      have hone := h.forward_one hc
      have hrest : (c.forward 1).rest = u ++ t := by rw [rest_forward, hc]; rfl
      have hboth := ih hone hrest
      rw [← forward_add, ← forward_add, ← List.length_append, ← Spelling.body_cons] at hboth
      rwa [List.length_cons, Nat.add_comm]

/-- Twin cursors move over the same number of characters if no line feed is among them. -/
lemma forward_of_not_mem (h : Twins w s c d) (hn : '\n' ∉ c.rest.take n) :
    Twins w s (c.forward n) (d.forward n) := by
  have hmove := h.forward (List.take_append_drop n c.rest).symm
  rw [Spelling.body_of_not_mem hn, List.length_take] at hmove
  rcases Nat.le_total n c.rest.length with hle | hle
  · rwa [Nat.min_eq_left hle] at hmove
  · rw [List.take_of_length_le hle] at hn
    have hlen : d.rest.length = c.rest.length := by rw [h.rest, Spelling.body_of_not_mem hn]
    have hle' : d.rest.length ≤ n := hlen ▸ hle
    rw [forward_of_length_le hle, forward_of_length_le hle', hlen]
    rwa [Nat.min_eq_right hle] at hmove

/-- Twin cursors move over a character that is no line feed. -/
lemma forward_char (h : Twins w s c d) (hc : c.peek 0 = some ch) (hn : ch ≠ '\n') :
    Twins w s (c.forward 1) (d.forward 1) := by
  refine h.forward_of_not_mem ?_
  simp [rest_of_peek hc, Ne.symm hn]

/-! ### What is ahead -/

/-- The next character is the first one of its spelling. -/
lemma peek_zero (h : Twins w s c d) : d.peek 0 = (c.peek 0).map w.first := by
  rw [peek, peek, ← List.head?_eq_getElem?, ← List.head?_eq_getElem?, h.rest,
    Spelling.head?_body]

/-- A character that is no line feed is next in both texts. -/
lemma peek_of_ne (h : Twins w s c d) (hc : c.peek 0 = some ch) (hn : ch ≠ '\n') :
    d.peek 0 = some ch := by
  rw [h.peek_zero, hc, Option.map_some, Spelling.first_of_ne hn]

/-- The second character is the first one of its spelling, if the first one is no line feed. -/
lemma peek_one (h : Twins w s c d) (hc : c.peek 0 = some ch) (hn : ch ≠ '\n') :
    d.peek 1 = (c.peek 1).map w.first := by
  have hnext := (h.forward_char hc hn).peek_zero
  rwa [peek, peek, rest_forward, rest_forward, List.getElem?_drop, List.getElem?_drop] at hnext

/-- A character that is no part of a line break is spelled as it is, and nothing else is. -/
lemma map_first_beq (hch : isBreak ch = false) (o : Option Char) :
    (o.map w.first == some ch) = (o == some ch) := by
  have hr : '\r' ≠ ch := by rintro rfl; cases hch
  have hn : '\n' ≠ ch := by rintro rfl; cases hch
  cases o with
  | none => rfl
  | some e => simpa using Spelling.class_first (p := fun e => e == ch) (by simp [hr, hn]) e

/-- A character that is no part of a line break is next in both texts or in none. -/
lemma nextIs (h : Twins w s c d) (hch : isBreak ch = false) :
    (d.peek 0 == some ch) = (c.peek 0 == some ch) := by
  rw [h.peek_zero, map_first_beq hch]

/-- A character that is no part of a line break is second in both texts or in none, if the first one
is no line feed. -/
lemma secondIs {e : Char} (h : Twins w s c d) (hch : isBreak ch = false) (hc : c.peek 0 = some e)
    (hn : e ≠ '\n') : (d.peek 1 == some ch) = (c.peek 1 == some ch) := by
  rw [h.peek_one hc hn, map_first_beq hch]

variable {p : Char → Bool}

/-- The next characters are both of a class that holds both parts of a line break or none of them.
-/
lemma all_peek (h : Twins w s c d) (hp : p '\r' = p '\n') :
    (d.peek 0).all p = (c.peek 0).all p := by
  rw [h.peek_zero]
  cases c.peek 0 with
  | none => rfl
  | some e => exact Spelling.class_first hp e

lemma any_peek (h : Twins w s c d) (hp : p '\r' = p '\n') :
    (d.peek 0).any p = (c.peek 0).any p := by
  rw [h.peek_zero]
  cases c.peek 0 with
  | none => rfl
  | some e => exact Spelling.class_first hp e

/-- The second characters are both of such a class, if the first one is no line feed. -/
lemma all_peek_one (h : Twins w s c d) (hp : p '\r' = p '\n') (hc : c.peek 0 = some ch)
    (hn : ch ≠ '\n') : (d.peek 1).all p = (c.peek 1).all p := by
  rw [h.peek_one hc hn]
  cases c.peek 1 with
  | none => rfl
  | some e => exact Spelling.class_first hp e

end Twins

end Cursor

/-! ### Elementary readers -/

namespace Scan

open Cursor

variable {α γ δ : Type} {w : Spelling} {s : List Char} {c d : Cursor} {x : Scan α}
  {f : α → Scan γ} {g : α → Scan δ} {R : γ → δ → Cursor → Cursor → Prop}

/-- The step answers the same in both texts, and leaves twin cursors behind. -/
def Agrees (w : Spelling) (s : List Char) (x : Scan α) (c d : Cursor) : Prop :=
  x.Mirrors x c d fun a b c' d' => b = a ∧ Twins w s c' d'

lemma agrees_pure {a : α} (h : Twins w s c d) : (Pure.pure a : Scan α).Agrees w s c d :=
  mirrors_pure.mpr ⟨rfl, h⟩

/-- A step that answers the same in both texts, in front of others. -/
lemma Agrees.bind (hx : x.Agrees w s c d)
    (h : ∀ a c' d', c.Before c' → Twins w s c' d' → (f a).Mirrors (g a) c' d' R) :
    (x >>= f).Mirrors (x >>= g) c d R := by
  refine mirrors_bind (hx.mono_before ?_)
  rintro a _ c' d' hc ⟨rfl, htwins⟩
  exact h _ c' d' hc htwins

/-- The same with what the step ensures in the first text. -/
lemma Agrees.bind_ensures {E : α → Cursor → Prop} (hx : x.Agrees w s c d) (hE : x.Ensures c E)
    (h : ∀ a c' d', c.Before c' → E a c' → Twins w s c' d' → (f a).Mirrors (g a) c' d' R) :
    (x >>= f).Mirrors (x >>= g) c d R := by
  refine mirrors_bind ((hx.mono_ensures hE fun _ _ _ _ hE hx => And.intro hE hx).mono_before ?_)
  rintro a _ c' d' hc ⟨hE, rfl, htwins⟩
  exact h _ c' d' hc hE htwins

/-- A run of characters of a class without line breaks is the same in both texts. -/
lemma agrees_takeWhile {p : Char → Bool} (h : Twins w s c d) (hr : p '\r' = false)
    (hn : p '\n' = false) : (takeWhile p).Agrees w s c d := by
  refine mirrors_ahead.mpr ?_
  dsimp only
  rw [h.rest, Spelling.takeWhile_body_of_eq_false hr hn]
  refine mirrors_advance.mpr (mirrors_pure.mpr ⟨rfl, h.forward_of_not_mem fun hmem => ?_⟩)
  rw [(List.prefix_iff_eq_take.mp (List.takeWhile_prefix p)).symm] at hmem
  have := List.mem_takeWhile_imp hmem
  rw [hn] at this
  cases this

lemma agrees_skipWhile {p : Char → Bool} (h : Twins w s c d) (hr : p '\r' = false)
    (hn : p '\n' = false) : (skipWhile p).Agrees w s c d :=
  (agrees_takeWhile h hr hn).bind fun _ _ _ _ h => agrees_pure h

/-- A line feed that is spelled behind a carriage return is read with it. -/
lemma mirrors_lineBreak_feed (h : Twins w s c d) (hc : c.peek 0 = some '\n')
    (hw : w.returns = true) :
    lineBreak.Mirrors lineBreak c d fun a b c' d' => b = a ∧ Twins w s c' d' ∧
      (a = none → c' = c ∧ (c.peek 0).any isBreak = false) ∧
      (a.isSome = true → c.mark.index < c'.mark.index) := by
  have hrest := rest_of_peek hc
  have hchar : w.char '\n' = ['\r', '\n'] := by simp [Spelling.char, hw]
  have hfirst : w.first '\n' = '\r' := by simp [Spelling.first, hw]
  have hnext : d.peek 1 = some '\n' := by
    rw [Cursor.peek, h.rest, hrest, Spelling.body_cons, hchar]
    rfl
  have hforward := h.forward_one hrest
  rw [hchar] at hforward
  rw [lineBreak]
  refine mirrors_peek.mpr ?_
  rw [h.peek_zero, hc]
  simp only [Option.map_some, hfirst]
  refine mirrors_peek.mpr ?_
  rw [hnext, if_neg (by simp), if_pos (by simp), if_pos (by simp)]
  refine mirrors_advance.mpr (mirrors_pure.mpr ⟨rfl, hforward, by simp, fun _ => ?_⟩)
  exact index_lt_forward (by rw [hrest]; simp) Nat.one_pos

/-- A character that is spelled as it is is read as it is, with a line feed behind it if it is a
carriage return. -/
lemma mirrors_lineBreak_same {ch : Char} (h : Twins w s c d) (hc : c.peek 0 = some ch)
    (hsame : ¬(ch = '\n' ∧ w.returns = true)) :
    lineBreak.Mirrors lineBreak c d fun a b c' d' => b = a ∧ Twins w s c' d' ∧
      (a = none → c' = c ∧ (c.peek 0).any isBreak = false) ∧
      (a.isSome = true → c.mark.index < c'.mark.index) := by
  have hrest := rest_of_peek hc
  have hlt : ∀ {n}, 0 < n → c.mark.index < (c.forward n).mark.index :=
    fun hn => index_lt_forward (by rw [hrest]; simp) hn
  have hfirst : w.first ch = ch := by
    rw [Spelling.first, if_neg]
    simpa [and_comm] using hsame
  have hone : Twins w s (c.forward 1) (d.forward 1) := by
    have hforward := h.forward_one hrest
    rw [Spelling.char, if_neg (by simpa [and_comm] using hsame)] at hforward
    exact hforward
  -- carriage returns are read only where none are put in
  have hreturn : ch = '\r' → ∀ u, w.body u = u := by
    rintro rfl
    refine Spelling.body_of_returns_eq_false ?_
    by_contra hw
    exact h.ne_return (by simpa using hw) (hrest ▸ List.mem_cons_self) rfl
  have hpeek : (ch = '\r' && c.peek 1 == some '\n') = (ch = '\r' && d.peek 1 == some '\n') := by
    by_cases hr : ch = '\r'
    · rw [Cursor.peek, Cursor.peek, h.rest, hreturn hr]
    · simp [hr]
  rw [lineBreak]
  refine mirrors_peek.mpr ?_
  rw [h.peek_zero, hc]
  simp only [Option.map_some, hfirst]
  refine mirrors_peek.mpr ?_
  rw [← hpeek]
  refine mirrors_ite Iff.rfl (fun hbreak => ?_) fun hbreak => ?_
  · simp only [Bool.and_eq_true, decide_eq_true_eq, beq_iff_eq] at hbreak
    have hboth := h.forward (List.take_append_drop 2 c.rest).symm
    rw [hreturn hbreak.1] at hboth
    have hlen : (c.rest.take 2).length = 2 := by
      rw [Cursor.peek] at hbreak
      have := (List.getElem?_eq_some_iff.mp hbreak.2).1
      rw [List.length_take]
      omega
    rw [hlen] at hboth
    exact mirrors_advance.mpr (mirrors_pure.mpr ⟨rfl, hboth, by simp, fun _ => hlt (by omega)⟩)
  · refine mirrors_ite Iff.rfl (fun _ => ?_) fun hfeed => ?_
    · exact mirrors_advance.mpr (mirrors_pure.mpr ⟨rfl, hone, by simp, fun _ => hlt (by omega)⟩)
    · refine mirrors_ite Iff.rfl (fun _ => ?_) fun hsep => ?_
      · exact mirrors_advance.mpr (mirrors_pure.mpr ⟨rfl, hone, by simp, fun _ => hlt (by omega)⟩)
      · refine mirrors_pure.mpr ⟨rfl, h, fun _ => ⟨rfl, ?_⟩, by simp⟩
        simp only [Bool.or_eq_true, decide_eq_true_eq, not_or] at hfeed hsep
        simp [isBreak, hfeed, hsep]

/-- A line break is read as the same character in both texts, or there is none in both, and then the
cursors stay. -/
lemma mirrors_lineBreak (h : Twins w s c d) :
    lineBreak.Mirrors lineBreak c d fun a b c' d' => b = a ∧ Twins w s c' d' ∧
      (a = none → c' = c ∧ (c.peek 0).any isBreak = false) ∧
      (a.isSome = true → c.mark.index < c'.mark.index) := by
  cases hc : c.peek 0 with
  | none =>
      rw [lineBreak]
      refine mirrors_peek.mpr ?_
      rw [h.peek_zero, hc]
      exact mirrors_pure.mpr ⟨rfl, h, fun _ => ⟨rfl, rfl⟩, by simp⟩
  | some ch =>
      rw [← hc]
      by_cases hfeed : ch = '\n' ∧ w.returns = true
      · obtain ⟨rfl, hw⟩ := hfeed
        exact mirrors_lineBreak_feed h hc hw
      · exact mirrors_lineBreak_same h hc hfeed

/-- A line break in front of a step, that is not told apart from a missing one. -/
lemma agrees_lineBreak (h : Twins w s c d) : lineBreak.Agrees w s c d :=
  (mirrors_lineBreak h).mono fun _ _ _ _ hQ => ⟨hQ.1, hQ.2.1⟩

/-- A line break, or none, in front of steps that depend on it. -/
lemma bind_lineBreak {f : Option Char → Scan γ} {g : Option Char → Scan δ} (h : Twins w s c d)
    (hnone : (c.peek 0).any isBreak = false → (f none).Mirrors (g none) c d R)
    (hsome : ∀ ch c' d', c.Before c' → c.mark.index < c'.mark.index → Twins w s c' d' →
      (f (some ch)).Mirrors (g (some ch)) c' d' R) :
    (lineBreak >>= f).Mirrors (lineBreak >>= g) c d R := by
  refine mirrors_bind ((mirrors_lineBreak h).mono_before ?_)
  rintro _ a c' d' hc ⟨rfl, htwins, hstay, hmove⟩
  cases a with
  | none =>
      obtain ⟨rfl, hbreak⟩ := hstay rfl
      rw [htwins.right_unique h]
      exact hnone hbreak
  | some ch => exact hsome ch c' d' hc (hmove rfl) htwins

/-- A marker between documents is ahead in both texts or in none; it holds no line feed. -/
lemma bind_atSeparator {f : Bool → Scan γ} {g : Bool → Scan δ} (h : Twins w s c d)
    (hfg : ∀ b, (b = true → '\n' ∉ c.rest.take 3) → (f b).Mirrors (g b) c d R) :
    (atSeparator >>= f).Mirrors (atSeparator >>= g) c d R := by
  have htake : ∀ u : List Char, u.length = 3 → '\n' ∉ u → '\r' ∉ u →
      (d.rest.take 3 == u) = (c.rest.take 3 == u) := by
    intro u hlen hn hr
    have hiff := Spelling.prefix_body_iff (w := w) (s := c.rest) hn hr
    rw [List.prefix_iff_eq_take, List.prefix_iff_eq_take, hlen, ← h.rest, eq_comm,
      eq_comm (a := u)] at hiff
    exact Bool.eq_iff_iff.mpr (by simpa using hiff)
  have hdash := htake ['-', '-', '-'] rfl (by decide) (by decide)
  have hpoint := htake ['.', '.', '.'] rfl (by decide) (by decide)
  have hsame : atSeparator.Mirrors atSeparator c d fun a b c' d' =>
      b = a ∧ c' = c ∧ d' = d ∧ (a = true → '\n' ∉ c.rest.take 3) := by
    refine mirrors_ahead.mpr (mirrors_peek.mpr (mirrors_pure.mpr ?_))
    rw [hdash, hpoint]
    by_cases hsep : (c.rest.take 3 == ['-', '-', '-'] || c.rest.take 3 == ['.', '.', '.']) = true
    · have hn : '\n' ∉ c.rest.take 3 := by
        simp only [Bool.or_eq_true, beq_iff_eq] at hsep
        rcases hsep with hsep | hsep <;> simp [hsep]
      have hpeek : (d.peek 3).all isBlankOrBreak = (c.peek 3).all isBlankOrBreak := by
        have := (h.forward_of_not_mem hn).all_peek (p := isBlankOrBreak) (by decide)
        simpa only [Cursor.peek, rest_forward, List.getElem?_drop, Nat.add_zero] using this
      rw [hpeek]
      exact ⟨rfl, rfl, rfl, fun _ => hn⟩
    · rw [Bool.eq_false_iff.mpr hsep, Bool.false_and, Bool.false_and]
      exact ⟨rfl, rfl, rfl, by simp⟩
  refine mirrors_bind (hsame.mono ?_)
  rintro _ b c' d' ⟨rfl, rfl, rfl, hb⟩
  exact hfg b hb

/-- The rest of a line is left behind in both texts. -/
lemma agrees_ignoredLine (h : Twins w s c d) : ignoredLine.Agrees w s c d := by
  have hend : ∀ {c' d'}, Twins w s c' d' → Agrees w s
      (do
        let e ← peek 0
        if !e.all isBreak then fail (.expectedCommentOrBreak e)
        let _ ← lineBreak) c' d' := by
    intro c' d' h'
    refine mirrors_peek.mpr (mirrors_unless ?_ fun _ => ?_)
    · rw [h'.all_peek (by decide)]
      exact id
    · exact (agrees_lineBreak h').bind fun _ _ _ _ h => agrees_pure h
  refine (agrees_skipWhile h (by decide) (by decide)).bind fun _ c' d' _ h' => ?_
  refine mirrors_nextIs.mpr ?_
  rw [h'.nextIs (by decide)]
  refine mirrors_ite Iff.rfl (fun _ => ?_) fun _ => hend h'
  exact (agrees_skipWhile h' (by decide) (by decide)).bind fun _ _ _ _ h => hend h

end Scan

end YamlNavigator.Yaml
