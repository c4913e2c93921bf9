import YamlNavigator.Proofs.Ansi.Escape
import YamlNavigator.Proofs.Outcome

/-!
The codes of styles that are read are short.

* `Color.IsBelow`, `Color.isBelow_of_ofText`: the numbers in a colour that is read are below 256;
* `Color.IsBelow.reduce`: those in the colour that stands for it are little larger;
* `Style.areShort_codes`: the codes of every style that is read are short;
* `Style.render_eq_coded`, `Style.render_of_isEmpty`, `Style.render_of_link_eq_none`: a text in a
  style.
-/

namespace YamlNavigator.Ansi

open Text

namespace Color

/-- The numbers in a colour are below a bound. -/
def IsBelow (bound : Nat) : Color → Prop
  | default => True
  | standard n => n < bound
  | extended n => n < bound
  | full c => c.red < bound ∧ c.green < bound ∧ c.blue < bound

/-- Digits in base sixteen are below sixteen. -/
lemma hexValue_lt (c : Char) : hexValue c < 16 := by
  rw [hexValue]
  split
  · next h =>
      rw [isAsciiDigit, Bool.and_eq_true, decide_eq_true_eq, decide_eq_true_eq] at h
      have : c.toNat ≤ 57 := h.2
      omega
  · split
    · next h =>
        rw [Bool.and_eq_true, decide_eq_true_eq, decide_eq_true_eq] at h
        have : c.toNat ≤ 102 := h.2
        omega
    · split
      · next h =>
          rw [Bool.and_eq_true, decide_eq_true_eq, decide_eq_true_eq] at h
          have : c.toNat ≤ 70 := h.2
          omega
      · omega

/-- Two digits in base sixteen make a byte. -/
lemma numberOf_take_two_lt (ds : List Char) : numberOf 16 (ds.take 2) < 256 := by
  rcases ds with _ | ⟨c, _ | ⟨d, ds⟩⟩
  · decide
  · have := hexValue_lt c
    simp [numberOf]
    omega
  · have := hexValue_lt c
    have := hexValue_lt d
    simp [numberOf]
    omega

/-- The colour of a number below a bound is below it. -/
lemma isBelow_ofNumber {n bound : Nat} (h : n < bound) : (ofNumber n).IsBelow bound := by
  rw [ofNumber]
  split <;> exact h

/-- The numbers of named colours are below 256. -/
lemma lt_of_lookup {name : String} {n : Nat} (h : colorNames.lookup name = some n) : n < 256 := by
  have hall : ∀ p ∈ colorNames, p.2 < 256 := by decide +kernel
  obtain ⟨before, after, heq, -⟩ := List.lookup_eq_some_iff.mp h
  refine hall (name, n) ?_
  rw [heq]
  exact List.mem_append_right before List.mem_cons_self

/-- **The numbers in a colour that is read are below 256.** -/
theorem isBelow_of_ofText {text : String} {c : Color} (h : ofText text = .ok c) :
    c.IsBelow 256 := by
  unfold ofText at h
  dsimp only at h
  split at h
  · cases h
    exact trivial
  split at h
  · next n hname =>
      cases h
      exact isBelow_ofNumber (lt_of_lookup hname)
  split at h
  · cases h
    exact ⟨numberOf_take_two_lt _, numberOf_take_two_lt _, numberOf_take_two_lt _⟩
  split at h
  · next ds hdigits =>
      split at h
      · cases h
      · next hle =>
          cases h
          exact isBelow_ofNumber (Nat.lt_succ_of_le (Nat.not_lt.mp hle))
  split at h
  · next r g b hparts =>
      obtain ⟨red, -, h⟩ := Except.bind_eq_ok_iff.mp h
      obtain ⟨green, -, h⟩ := Except.bind_eq_ok_iff.mp h
      obtain ⟨blue, -, h⟩ := Except.bind_eq_ok_iff.mp h
      split at h
      · cases h
      · next hle =>
          cases h
          simp only [Bool.or_eq_true, decide_eq_true_eq, not_or, Nat.not_lt] at hle
          exact ⟨Nat.lt_succ_of_le hle.1.1, Nat.lt_succ_of_le hle.1.2, Nat.lt_succ_of_le hle.2⟩
  · cases h
  · cases h

/-! ### Colours that stand for others -/

/-- The number of the nearest colour is one of a palette's. -/
lemma nearest_lt {palette : List Rgb} (h : palette ≠ []) (c : Rgb) :
    nearest palette c < palette.length := by
  have hpositive : 0 < palette.length := List.length_pos_iff.mpr h
  rw [nearest]
  dsimp only
  generalize hbest : palette.zipIdx.foldl _ none = best
  -- the best colour so far is one of the palette's
  have hindex : ∀ p ∈ best, p.2 < palette.length := by
    rw [← hbest]
    refine List.foldlRecOn
      (motive := fun best : Option (Nat × Nat) => ∀ p ∈ best, p.2 < palette.length)
      palette.zipIdx _ (by simp) fun best hbest p hp => ?_
    have hp' : p.2 < palette.length := by
      simpa using (List.mem_zipIdx hp).2.1
    rcases best with _ | ⟨least, index⟩
    · simpa using hp'
    · dsimp only
      split
      · simpa using hp'
      · exact hbest
  cases best with
  | none => exact hpositive
  | some p => exact hindex p rfl

/-- A quotient is rounded by less than one. -/
lemma divideEven_le (num den : Nat) : Binary64.divideEven num den ≤ num / den + 1 := by
  rw [Binary64.divideEven]
  split <;> omega

/-- A step of the cube is small. -/
lemma cubeStep_le {part : Nat} (h : part < 256) : cubeStep part ≤ 6 := by
  rw [cubeStep]
  split
  · have := divideEven_le part 95
    omega
  · have := divideEven_le (part - 95 + 40) 40
    omega

/-- The number among 256 of a colour is small. -/
lemma toExtended_lt {c : Rgb} (h : (full c).IsBelow 256) : toExtended c < 300 := by
  obtain ⟨hred, hgreen, hblue⟩ := h
  rw [toExtended]
  dsimp only
  split
  · have := divideEven_le (25 * (max c.red (max c.green c.blue) +
      min c.red (min c.green c.blue))) 510
    split
    · omega
    · split <;> omega
  · have := cubeStep_le hred
    have := cubeStep_le hgreen
    have := cubeStep_le hblue
    omega

/-- A colour below a bound is below a larger one. -/
lemma IsBelow.mono {c : Color} {bound bound' : Nat} (h : c.IsBelow bound) (hle : bound ≤ bound') :
    c.IsBelow bound' := by
  cases c with
  | default => exact trivial
  | standard n => exact Nat.lt_of_lt_of_le h hle
  | extended n => exact Nat.lt_of_lt_of_le h hle
  | full c =>
      exact ⟨Nat.lt_of_lt_of_le h.1 hle, Nat.lt_of_lt_of_le h.2.1 hle,
        Nat.lt_of_lt_of_le h.2.2 hle⟩

/-- The numbers in the colour that stands for another one are little larger. -/
lemma IsBelow.reduce {c : Color} (h : c.IsBelow 256) (system : ColorSystem) :
    (c.reduce system).IsBelow 300 := by
  have hstandard : ∀ rgb, toStandard rgb < 300 := by
    intro rgb
    have hpalette : standardPalette ≠ [] := by decide
    exact Nat.lt_of_lt_of_le (nearest_lt hpalette rgb) (by decide)
  have hself := h.mono (by decide : 256 ≤ 300)
  cases c with
  | default => exact hself
  | standard n => exact hself
  | extended n =>
      cases system with
      | standard => exact hstandard _
      | extended => exact hself
      | full => exact hself
  | full rgb =>
      cases system with
      | standard => exact hstandard _
      | extended => exact toExtended_lt h
      | full => exact hself

/-- The codes of a colour with small numbers are short. -/
lemma IsBelow.areShort {c : Color} (h : c.IsBelow 300) (ground : Bool) :
    AreShort (c.codes ground) := by
  intro n hn
  cases c with
  | default =>
      rw [codes, List.mem_singleton] at hn
      split at hn <;> omega
  | standard k =>
      have hk : k < 300 := h
      rw [codes, List.mem_singleton] at hn
      split at hn <;> split at hn <;> omega
  | extended k =>
      have hk : k < 300 := h
      simp only [codes, List.mem_cons, List.not_mem_nil, or_false] at hn
      split at hn <;> omega
  | full rgb =>
      obtain ⟨hred, hgreen, hblue⟩ := h
      simp only [codes, List.mem_cons, List.not_mem_nil, or_false] at hn
      split at hn <;> omega

end Color

/-! ### Styles -/

namespace Style

/-- The numbers in the colours of a style are below 256. -/
def IsBelow (s : Style) : Prop :=
  (∀ c ∈ s.color, c.IsBelow 256) ∧ ∀ c ∈ s.ground, c.IsBelow 256

/-- Words are read into a style with such colours. -/
lemma isBelow_of_ofWords {s t : Style} {words : List String} (hs : s.IsBelow)
    (h : ofWords s words = .ok t) : t.IsBelow := by
  fun_induction ofWords s words with
  | case1 =>
      cases h
      exact hs
  | case3 s _ _ _ _ _ c hc ih => exact ih ⟨hs.1, by simpa using Color.isBelow_of_ofText hc⟩ h
  | case6 s _ _ _ _ _ _ _ _ ih => exact ih hs h
  | case9 s _ _ _ _ _ _ _ ih => exact ih hs h
  | case10 s _ _ _ _ _ _ _ _ ih => exact ih hs h
  | case11 s _ _ _ _ _ _ _ c hc ih => exact ih ⟨by simpa using Color.isBelow_of_ofText hc, hs.2⟩ h
  | case2 | case4 | case5 | case7 | case8 | case12 => cases h

/-- **The codes of every style that is read are short.** -/
theorem areShort_codes {text : String} {s : Style} (h : ofText text = .ok s)
    (system : ColorSystem) : AreShort (s.codes system) := by
  have hempty : IsBelow {} := ⟨by simp, by simp⟩
  have hs : s.IsBelow := by
    rw [ofText] at h
    split at h
    · cases h
      exact hempty
    · exact isBelow_of_ofWords hempty h
  have hcolor : ∀ (c : Option Color) (ground : Bool), (∀ x ∈ c, x.IsBelow 256) →
      AreShort ((c.map fun c => (c.reduce system).codes ground).getD []) := by
    intro c ground hc
    cases c with
    | none => exact fun n hn => by cases hn
    | some c => exact ((hc c rfl).reduce system).areShort ground
  have hattributes : AreShort (Attribute.all.map Attribute.code) := by
    unfold AreShort
    decide
  intro n hn
  rw [codes, List.mem_append, List.mem_append] at hn
  rcases hn with (hn | hn) | hn
  · obtain ⟨a, ha, rfl⟩ := List.mem_map.mp hn
    exact hattributes _ (List.mem_map_of_mem (List.mem_of_mem_filter ha))
  · exact hcolor s.color false hs.1 n hn
  · exact hcolor s.ground true hs.2 n hn

/-- Links that are left out change nothing. -/
lemma render_some (s : Style) (system : ColorSystem) {text : String} (hne : text.isEmpty = false) :
    s.render (some system) text =
      if (s.codes system).isEmpty then text
      else sequence (s.codes system) ++ text ++ sequence [0] := by
  rw [render]
  dsimp only
  rw [hne, if_neg Bool.false_ne_true]
  exact ite_self _

/-- A text is written with the codes of a style around it. -/
lemma render_eq_coded {s : Style} {system : ColorSystem} (hcodes : (s.codes system).isEmpty = false)
    {text : List Char} (hne : text ≠ []) :
    s.render (some system) (String.ofList text) =
      String.ofList (coded (s.codes system) text) := by
  rw [render_some s system (by simpa using hne), hcodes, coded, String.ofList_append,
    String.ofList_append, String.ofList_toList, String.ofList_toList]
  rfl

/-- Without codes a text is written as it is. -/
lemma render_of_isEmpty {s : Style} {system : ColorSystem}
    (hcodes : (s.codes system).isEmpty = true) (text : String) :
    s.render (some system) text = text := by
  cases hempty : text.isEmpty with
  | true =>
      rw [render]
      dsimp only
      rw [hempty, if_pos rfl]
  | false => rw [render_some s system hempty, hcodes, if_pos rfl]

/-- A style without an address is written the same however links are. -/
lemma render_of_link_eq_none {s : Style} (hlink : s.link = none) (system : Option ColorSystem)
    (text : String) (linking : Linking) : s.render system text linking = s.render system text := by
  cases system with
  | none => rfl
  | some system =>
      rw [render, render]
      dsimp only
      rw [hlink]
      rfl

end Style

end YamlNavigator.Ansi
