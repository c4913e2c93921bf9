import Mathlib.Tactic.Lemma
import YamlNavigator.Text.Blank
import YamlNavigator.Text.Digit
import YamlNavigator.Text.LowerCase
import YamlNavigator.Text.StandIn

/-!
What lower case leaves alone.

* `Text.areApart`, `Text.inRanges_of_areApart`: classes of characters that have none in common;
* `Text.isBlank_eq`, `Text.isDigit_eq`: blanks and digits as ranges;
* `Text.isCapital`, `Text.isForm`, `Text.lowerIn_cases`: where the characters of a text in lower
  case come from;
* `Text.isBlank_of_mem_lower`: a text in lower case has no blanks but those of the text;
* `Text.IsPlain`, `Text.lower_lower_eq_iff`: a text of plain characters is the lower case of a text
  in lower case only if it is that text.
-/

namespace YamlNavigator.Text

variable {c d : Char} {s t : List Char} {n : Nat}

/-! ### Ranges -/

/-- No range of the one list has a number in common with a range of the other. -/
def areApart (rs qs : List (Nat × Nat)) : Bool :=
  rs.all fun r => qs.all fun q => Nat.blt r.2 q.1 || Nat.blt q.2 r.1

/-- The numbers in some ranges are not in those that are apart from them. -/
lemma inRanges_of_areApart {rs qs : List (Nat × Nat)} (h : areApart rs qs = true)
    (hn : inRanges rs n = true) : inRanges qs n = false := by
  refine Bool.eq_false_iff.mpr fun hq => ?_
  obtain ⟨r, hr, hn⟩ := List.any_eq_true.mp hn
  obtain ⟨q, hq, hm⟩ := List.any_eq_true.mp hq
  have hapart := List.all_eq_true.mp (List.all_eq_true.mp h r hr) q hq
  simp only [Bool.and_eq_true, decide_eq_true_eq] at hn hm
  simp only [Bool.or_eq_true, Nat.blt_eq] at hapart
  omega

/-- The ranges of blanks. -/
def blankRanges : List (Nat × Nat) :=
  [(9, 13), (0x1c, 0x20), (0x85, 0x85), (0xa0, 0xa0), (0x1680, 0x1680), (0x2000, 0x200a),
    (0x2028, 0x2029), (0x202f, 0x202f), (0x205f, 0x205f), (0x3000, 0x3000)]

/-- The ranges of digits. -/
def digitRanges : List (Nat × Nat) := digitZeros.map fun z => (z, z + 9)

/-- A blank is a character in one of their ranges. -/
lemma isBlank_eq (c : Char) : isBlank c = inRanges blankRanges c.toNat := by
  rw [Bool.eq_iff_iff]
  simp only [isBlank, inRanges, blankRanges, List.any_cons, List.any_nil, Bool.or_eq_true,
    Bool.and_eq_true, decide_eq_true_eq, beq_iff_eq, Bool.false_eq_true, or_false]
  omega

/-- A digit is one of the ten characters from a zero on. -/
lemma isDigit_eq (c : Char) : isDigit c = inRanges digitRanges c.toNat := by
  rw [isDigit, digitValue?, Option.isSome_map, List.isSome_find?, inRanges, digitRanges,
    List.any_map]
  refine List.any_congr rfl fun z => ?_
  simp only [Function.comp_apply, Nat.lt_succ_iff]

/-! ### Where the characters in lower case come from -/

/-- The range of the capitals of ASCII. -/
def capitalRanges : List (Nat × Nat) := [(0x41, 0x5a)]

/-- The runs of characters beyond ASCII. -/
def farRuns : List (Nat × Nat × Nat × Nat) := lowerRuns.filter fun r => 0x80 ≤ r.2.1

/-- The ranges of the characters beyond ASCII that have another form in lower case. -/
def turnedRanges : List (Nat × Nat) :=
  (0x130, 0x130) :: (0x3a3, 0x3a3) :: farRuns.map fun r => (r.1, r.2.1)

/-- The ranges of the forms of these characters in lower case. -/
def formRanges : List (Nat × Nat) :=
  (0x69, 0x69) :: (0x307, 0x307) :: (0x3c2, 0x3c3) ::
    farRuns.map fun r => (r.2.2.2, r.2.2.2 + (r.2.1 - r.1))

/-- The ranges of plain characters: those of ASCII that are no capitals and stand for nothing else
in lower case, and the digits. -/
def plainRanges : List (Nat × Nat) :=
  (0, 0x40) :: (0x5b, 0x68) :: (0x6a, 0x6a) :: (0x6c, 0x7f) :: digitRanges

/-- What the tables have in common, looked through at once: digits and forms are no blanks, forms
are no capitals and the numbers of characters, and plain characters have no other form. -/
lemma tables_areApart :
    areApart digitRanges blankRanges = true ∧ areApart formRanges blankRanges = true ∧
      areApart formRanges capitalRanges = true ∧
      areApart formRanges [(0xd800, 0xdfff)] = true ∧
      (formRanges.all fun r => Nat.blt r.2 0x110000) = true ∧
      areApart plainRanges capitalRanges = true ∧ areApart plainRanges turnedRanges = true ∧
      areApart plainRanges formRanges = true := by
  decide +kernel

/-- A digit is no blank. -/
lemma isBlank_of_isDigit (h : isDigit c = true) : isBlank c = false := by
  rw [isBlank_eq]
  rw [isDigit_eq] at h
  exact inRanges_of_areApart tables_areApart.1 h

/-- Is the character a capital of ASCII? -/
def isCapital (c : Char) : Bool := inRanges capitalRanges c.toNat

/-- Is the character the lower case form of one beyond ASCII? -/
def isForm (c : Char) : Bool := inRanges formRanges c.toNat

/-- The capitals of ASCII by their numbers. -/
lemma isCapital_iff : isCapital c = true ↔ 65 ≤ c.toNat ∧ c.toNat ≤ 90 := by
  simp [isCapital, inRanges, capitalRanges]

/-- The numbers of forms are those of characters. -/
lemma isValidChar_of_inRanges (h : inRanges formRanges n = true) : n.isValidChar := by
  obtain ⟨-, -, -, hproper, hsmall, -⟩ := tables_areApart
  have hsurrogate := inRanges_of_areApart hproper h
  simp only [inRanges, List.any_cons, List.any_nil, Bool.or_false, Bool.and_eq_false_iff,
    decide_eq_false_iff_not] at hsurrogate
  obtain ⟨r, hr, hn⟩ := List.any_eq_true.mp h
  have hlast := List.all_eq_true.mp hsmall r hr
  simp only [Bool.and_eq_true, decide_eq_true_eq] at hn
  rw [Nat.blt_eq] at hlast
  rw [Nat.isValidChar]
  omega

/-- The run of a character beyond ASCII is beyond ASCII too. -/
lemma mem_farRuns_of_find? {p : Nat × Nat × Nat × Nat → Bool} {r : Nat × Nat × Nat × Nat}
    (hn : 0x80 ≤ n) (h : lowerRuns.find? (fun r => r.1 ≤ n && n ≤ r.2.1 && p r) = some r) :
    r ∈ farRuns ∧ r.1 ≤ n ∧ n ≤ r.2.1 := by
  have hin := List.find?_some h
  simp only [Bool.and_eq_true, decide_eq_true_eq] at hin
  refine ⟨List.mem_filter.mpr ⟨List.mem_of_find?_eq_some h, ?_⟩, hin.1⟩
  exact decide_eq_true (Nat.le_trans hn hin.1.2)

/-- A character in lower case is the character itself, which is no capital, or it stands for a
capital of ASCII or for a character beyond ASCII. -/
lemma lowerChar_cases (c : Char) :
    isCapital c = false ∧ lowerChar c = c ∨
      isCapital c = true ∧ (lowerChar c).toNat = c.toNat + 32 ∨ isForm (lowerChar c) = true := by
  rw [lowerChar]
  split
  · split
    · next hascii hcapital =>
        simp only [Bool.and_eq_true, decide_eq_true_eq] at hcapital
        exact .inr (.inl ⟨isCapital_iff.mpr hcapital, toNat_ofNat (.inl (by omega))⟩)
    · next hascii hother =>
        refine .inl ⟨Bool.eq_false_iff.mpr fun hcapital => hother ?_, rfl⟩
        simp only [Bool.and_eq_true, decide_eq_true_eq]
        exact isCapital_iff.mp hcapital
  · next hhigh =>
      split
      · next first last step form hrun =>
          obtain ⟨hmem, hin⟩ := mem_farRuns_of_find? (Nat.not_lt.mp hhigh) hrun
          dsimp only at hin
          have hform : inRanges formRanges (form + (c.toNat - first)) = true := by
            refine List.any_eq_true.mpr ⟨_, List.mem_cons_of_mem _ <| List.mem_cons_of_mem _ <|
              List.mem_cons_of_mem _ <| List.mem_map_of_mem hmem, ?_⟩
            simp only [Bool.and_eq_true, decide_eq_true_eq]
            omega
          rw [isForm, toNat_ofNat (isValidChar_of_inRanges hform)]
          exact .inr (.inr hform)
      · refine .inl ⟨Bool.eq_false_iff.mpr fun hcapital => hhigh ?_, rfl⟩
        have := (isCapital_iff.mp hcapital).2
        omega

/-- What a character becomes in a text in lower case is the character itself, which is no capital,
or it stands for a capital of ASCII, or it begins with a form and has nothing but forms. -/
lemma lowerIn_cases (before : List Char) (c : Char) (after : List Char) :
    lowerIn before c after = [c] ∧ isCapital c = false ∨
      (∃ d, lowerIn before c after = [d] ∧ isCapital c = true ∧ d.toNat = c.toNat + 32) ∨
      ∃ d t, lowerIn before c after = d :: t ∧ (d :: t).all isForm = true := by
  rw [lowerIn]
  split
  · exact .inr (.inr ⟨'i', ['\u0307'], rfl, by decide⟩)
  split
  · split
    · exact .inr (.inr ⟨'\u03c2', [], rfl, by decide⟩)
    · exact .inr (.inr ⟨'\u03c3', [], rfl, by decide⟩)
  · rcases lowerChar_cases c with ⟨hother, hself⟩ | hcapital | hform
    · exact .inl ⟨by rw [hself], hother⟩
    · exact .inr (.inl ⟨_, rfl, hcapital⟩)
    · exact .inr (.inr ⟨_, [], rfl, by simpa using hform⟩)

/-- What stands in a text in lower case stands in the text and is no capital, or it stands for a
capital of ASCII, or it is a form. -/
lemma cases_of_mem_lowerFrom {before : List Char} (h : d ∈ lowerFrom before s) :
    (d ∈ s ∧ isCapital d = false) ∨ (∃ c, isCapital c = true ∧ d.toNat = c.toNat + 32) ∨
      isForm d = true := by
  induction s generalizing before with
  | nil => cases h
  | cons c s ih =>
      rw [lowerFrom, List.mem_append] at h
      rcases h with h | h
      · rcases lowerIn_cases before c s with ⟨heq, hother⟩ | ⟨e, heq, hcapital⟩ | ⟨e, t, heq, hform⟩
        · rw [heq, List.mem_singleton] at h
          exact .inl ⟨h ▸ List.mem_cons_self, h ▸ hother⟩
        · rw [heq, List.mem_singleton] at h
          exact .inr (.inl ⟨c, h ▸ hcapital⟩)
        · rw [heq] at h
          exact .inr (.inr (List.all_eq_true.mp hform d h))
      · exact (ih h).imp_left fun h => ⟨List.mem_cons_of_mem c h.1, h.2⟩

/-- **Lower case brings in no blanks.** -/
theorem isBlank_of_mem_lower (hs : ∀ c ∈ s, isBlank c = false) (h : d ∈ lower s) :
    isBlank d = false := by
  rcases cases_of_mem_lowerFrom h with ⟨h, -⟩ | ⟨c, hcapital, hd⟩ | h
  · exact hs d h
  · have hsmall : areApart [(0x61, 0x7a)] blankRanges = true := by decide
    obtain ⟨hA, hZ⟩ := isCapital_iff.mp hcapital
    rw [isBlank_eq]
    refine inRanges_of_areApart hsmall ?_
    simp only [inRanges, List.any_cons, List.any_nil, Bool.or_false, Bool.and_eq_true,
      decide_eq_true_eq]
    omega
  · rw [isBlank_eq]
    exact inRanges_of_areApart tables_areApart.2.1 h

/-- A text in lower case has no capitals of ASCII. -/
lemma isCapital_of_mem_lower (h : d ∈ lower s) : isCapital d = false := by
  rcases cases_of_mem_lowerFrom h with ⟨-, h⟩ | ⟨c, hcapital, hd⟩ | h
  · exact h
  · refine Bool.eq_false_iff.mpr fun h => ?_
    have := isCapital_iff.mp hcapital
    have := isCapital_iff.mp h
    omega
  · exact inRanges_of_areApart tables_areApart.2.2.1 h

/-! ### Texts that are in lower case -/

/-- The character is its own lower case form, and that of no other but of a capital of ASCII. -/
structure IsPlain (c : Char) : Prop where
  kept (before after : List Char) : lowerIn before c after = [c]
  not_form : isForm c = false

/-- A text of plain characters is in lower case. -/
lemma lowerFrom_of_isPlain {before : List Char} (h : ∀ c ∈ s, IsPlain c) :
    lowerFrom before s = s := by
  induction s generalizing before with
  | nil => rfl
  | cons c s ih =>
      obtain ⟨hc, hs⟩ := List.forall_mem_cons.mp h
      rw [lowerFrom, hc.kept, ih hs]
      rfl

/-- A text without capitals is in lower case if its lower case has plain characters only. -/
lemma lowerFrom_eq_self {before : List Char} (hs : ∀ c ∈ s, isCapital c = false)
    (h : ∀ d ∈ lowerFrom before s, IsPlain d) : lowerFrom before s = s := by
  induction s generalizing before with
  | nil => rfl
  | cons c s ih =>
      obtain ⟨hc, hs⟩ := List.forall_mem_cons.mp hs
      rw [lowerFrom] at h ⊢
      obtain ⟨hhead, htail⟩ := List.forall_mem_append.mp h
      rw [ih hs htail]
      rcases lowerIn_cases before c s with ⟨heq, -⟩ | ⟨d, -, hcapital, -⟩ | ⟨d, t, heq, hform⟩
      · rw [heq]
        rfl
      · rw [hc] at hcapital
        cases hcapital
      · have hplain := (hhead d (heq ▸ List.mem_cons_self)).not_form
        rw [List.all_eq_true.mp hform d List.mem_cons_self] at hplain
        cases hplain

/-- **Plain characters in lower case.** A text of plain characters is the lower case of a text in
lower case if and only if it is that text. -/
theorem lower_lower_eq_iff (ht : ∀ c ∈ t, IsPlain c) : lower (lower s) = t ↔ lower s = t := by
  constructor
  · intro h
    have hplain : ∀ c ∈ lower (lower s), IsPlain c := by rwa [h]
    rw [← h]
    exact (lowerFrom_eq_self (fun c hc => isCapital_of_mem_lower hc) hplain).symm
  · rintro rfl
    exact lowerFrom_of_isPlain ht

/-- A character that is no capital and has no other form in lower case is its own form. -/
lemma lowerIn_eq_self (hcapital : isCapital c = false)
    (hturned : inRanges turnedRanges c.toNat = false) (before after : List Char) :
    lowerIn before c after = [c] := by
  have hnone : ∀ r ∈ turnedRanges, ¬(r.1 ≤ c.toNat ∧ c.toNat ≤ r.2) := by
    simpa [inRanges] using hturned
  have hdot : c ≠ '\u0130' := by
    rintro rfl
    exact hnone (0x130, 0x130) List.mem_cons_self ⟨Nat.le_refl _, Nat.le_refl _⟩
  have hsigma : c ≠ '\u03a3' := by
    rintro rfl
    exact hnone (0x3a3, 0x3a3) (List.mem_cons_of_mem _ List.mem_cons_self)
      ⟨Nat.le_refl _, Nat.le_refl _⟩
  rw [lowerIn, if_neg hdot, if_neg hsigma, lowerChar]
  split
  · rw [if_neg]
    intro hbetween
    simp only [Bool.and_eq_true, decide_eq_true_eq] at hbetween
    rw [isCapital_iff.mpr hbetween] at hcapital
    cases hcapital
  · split
    · next hhigh _ first last step form hrun =>
        obtain ⟨hmem, hin⟩ := mem_farRuns_of_find? (Nat.not_lt.mp hhigh) hrun
        exact absurd hin (hnone _ (List.mem_cons_of_mem _ <| List.mem_cons_of_mem _ <|
          List.mem_map_of_mem hmem))
    · rfl

/-- The characters of the plain ranges are plain. -/
lemma isPlain_of_inRanges (h : inRanges plainRanges c.toNat = true) : IsPlain c := by
  obtain ⟨-, -, -, -, -, hcapitals, hturned, hforms⟩ := tables_areApart
  have hcapital : isCapital c = false := inRanges_of_areApart hcapitals h
  have hkept : inRanges turnedRanges c.toNat = false := inRanges_of_areApart hturned h
  refine ⟨fun before after => lowerIn_eq_self hcapital hkept before after, ?_⟩
  exact inRanges_of_areApart hforms h

/-- Digits are plain characters. -/
lemma isPlain_of_isDigit (h : isDigit c = true) : IsPlain c := by
  rw [isDigit_eq] at h
  refine isPlain_of_inRanges ?_
  simp only [plainRanges, inRanges, List.any_cons, Bool.or_eq_true]
  exact .inr (.inr (.inr (.inr h)))

end YamlNavigator.Text
