import Mathlib.Data.List.Basic
import Mathlib.Data.List.DropRight
import YamlNavigator.Text.Blank
import YamlNavigator.Text.Digit
import YamlNavigator.Text.Lines

/-!
Parts of texts, and the digits of numbers.

* `Text.splitOn_append_cons`, `Text.splitOn_joinWith_eq_flatMap`: the parts of a text that is made
  of parts are those of the parts;
* `Text.splitOn_joinWith`: parts without the separator are got back;
* `Text.mem_of_mem_splitOn`, `Text.mem_joinWith`: the characters of parts and of joined parts;
* `Text.exists_last`: the last occurrence of a character;
* `Text.dropWhile_append_singleton`, `Text.takeWhile_append_singleton`: a character that ends a run;
* `Text.stripIf_eq_self`: what is stripped of a text is at its ends;
* `Text.isDigit_of_charIsDigit`, `Text.digits_toString`: numbers are written with digits.
-/

namespace YamlNavigator.Text

/-! ### Parts -/

variable {sep : Char}

/-- A text without the separator is its only part. -/
lemma splitOn_of_not_mem {p : List Char} (h : sep ∉ p) : splitOn sep p = [p] := by
  induction p with
  | nil => rfl
  | cons c p ih =>
      obtain ⟨hc, hp⟩ := not_or.mp (fun hmem => h (List.mem_cons.mpr hmem))
      rw [splitOn, if_neg (Ne.symm hc), ih hp]

/-- A text with a separator in it is cut on both sides. -/
lemma splitOn_append_cons (p s : List Char) :
    splitOn sep (p ++ sep :: s) = splitOn sep p ++ splitOn sep s := by
  induction p with
  | nil => simp [splitOn]
  | cons c p ih =>
      rw [List.cons_append, splitOn, splitOn, ih]
      split
      · rfl
      · cases hp : splitOn sep p with
        | nil => exact absurd hp (splitOn_ne_nil sep p)
        | cons q qs => rfl

/-- The parts of a text that is made of parts are those of the parts. -/
theorem splitOn_joinWith_eq_flatMap : ∀ {ps : List (List Char)}, ps ≠ [] →
    splitOn sep (joinWith [sep] ps) = ps.flatMap (splitOn sep)
  | [], h => absurd rfl h
  | [p], _ => by rw [joinWith, List.flatMap_singleton]
  | p :: q :: ps, _ => by
      have ih : splitOn sep (joinWith [sep] (q :: ps)) = _ :=
        splitOn_joinWith_eq_flatMap (List.cons_ne_nil q ps)
      rw [joinWith, List.append_assoc, List.singleton_append, splitOn_append_cons, ih,
        ← List.flatMap_cons]

/-- Parts without the separator are got back from the text that they make. -/
theorem splitOn_joinWith {ps : List (List Char)} (hne : ps ≠ []) (h : ∀ p ∈ ps, sep ∉ p) :
    splitOn sep (joinWith [sep] ps) = ps := by
  have hself : ps.flatMap (splitOn sep) = ps.flatMap fun p => [p] :=
    List.flatMap_congr fun p hp => splitOn_of_not_mem (h p hp)
  rw [splitOn_joinWith_eq_flatMap hne, hself, List.flatMap_singleton']

/-- Parts with a separator in front of each make the joined text behind one separator. -/
lemma flatMap_cons_eq_joinWith : ∀ {ps : List (List Char)}, ps ≠ [] →
    (ps.flatMap fun p => sep :: p) = sep :: joinWith [sep] ps
  | [], h => absurd rfl h
  | [p], _ => by simp [joinWith]
  | p :: q :: ps, _ => by
      rw [List.flatMap_cons, flatMap_cons_eq_joinWith (List.cons_ne_nil q ps), joinWith]
      simp

/-- A cut text holds the characters of its parts. -/
lemma mem_of_mem_splitOn {c : Char} {s p : List Char} (hp : p ∈ splitOn sep s)
    (hc : c ∈ p) : c ∈ s := by
  induction s generalizing p with
  | nil =>
      rw [splitOn, List.mem_singleton] at hp
      rwa [hp] at hc
  | cons d s ih =>
      rw [splitOn] at hp
      split at hp
      · rcases List.mem_cons.mp hp with rfl | hp
        · cases hc
        · exact List.mem_cons_of_mem d (ih hp hc)
      · split at hp
        · next hs => exact absurd hs (splitOn_ne_nil sep s)
        · next q qs hs =>
            rcases List.mem_cons.mp hp with rfl | hp
            · rcases List.mem_cons.mp hc with rfl | hc
              · exact List.mem_cons_self
              · exact List.mem_cons_of_mem d (ih (hs ▸ List.mem_cons_self) hc)
            · exact List.mem_cons_of_mem d (ih (hs ▸ List.mem_cons_of_mem q hp) hc)

/-- The characters of joined parts are those of the parts and of the separator. -/
lemma mem_joinWith {sep : List Char} {c : Char} : ∀ {ps : List (List Char)},
    c ∈ joinWith sep ps → c ∈ sep ∨ ∃ p ∈ ps, c ∈ p
  | [], h => by cases h
  | [p], h => .inr ⟨p, List.mem_cons_self, h⟩
  | p :: q :: ps, h => by
      rw [joinWith, List.mem_append, List.mem_append] at h
      rcases h with (h | h) | h
      · exact .inr ⟨p, List.mem_cons_self, h⟩
      · exact .inl h
      · rcases mem_joinWith h with h | ⟨r, hr, h⟩
        · exact .inl h
        · exact .inr ⟨r, List.mem_cons_of_mem p hr, h⟩

/-- A text with a character is cut behind its last occurrence. -/
lemma exists_last {c : Char} {s : List Char} (h : c ∈ s) :
    ∃ pre after, s = pre ++ c :: after ∧ c ∉ after := by
  obtain ⟨after, pre, hrev, hafter⟩ := List.eq_append_cons_of_mem (List.mem_reverse.mpr h)
  refine ⟨pre.reverse, after.reverse, ?_, by simpa using hafter⟩
  rw [← List.reverse_reverse s, hrev]
  simp

/-- A character behind a text that is not of a class is left behind what the class leaves. -/
lemma dropWhile_append_singleton {p : Char → Bool} {c : Char} (hc : p c = false) (s : List Char) :
    (s ++ [c]).dropWhile p = s.dropWhile p ++ [c] := by
  rw [List.dropWhile_append]
  split
  · next h => rw [List.isEmpty_iff.mp h, List.dropWhile_cons_of_neg (by simp [hc])]; rfl
  · rfl

/-- A character behind a text that is not of a class is not taken by the class. -/
lemma takeWhile_append_singleton {p : Char → Bool} {c : Char} (hc : p c = false) (s : List Char) :
    (s ++ [c]).takeWhile p = s.takeWhile p := by
  rw [List.takeWhile_append]
  split
  · next h =>
      rw [List.takeWhile_cons_of_neg (by simp [hc]), List.append_nil]
      exact ((List.takeWhile_prefix p).eq_of_length h).symm
  · rfl

/-- What is stripped at the end of a text begins with its last character. -/
lemma stripEndIf_append_singleton (p : Char → Bool) (s : List Char) (c : Char) :
    stripEndIf p (s ++ [c]) = if p c then stripEndIf p s else s ++ [c] := by
  rw [stripEndIf, List.reverse_append, List.reverse_singleton, List.singleton_append,
    List.dropWhile_cons]
  split
  · rfl
  · simp

/-- Nothing is stripped of a text that begins and ends with other characters. -/
lemma stripIf_eq_self {p : Char → Bool} {s : List Char} (hfirst : ∀ c ∈ s.head?, p c = false)
    (hlast : ∀ c ∈ s.getLast?, p c = false) : stripIf p s = s := by
  have hfront : s.dropWhile p = s := by
    cases s with
    | nil => rfl
    | cons c s => exact List.dropWhile_cons_of_neg (by simp [hfirst c rfl])
  rw [stripIf, hfront]
  rcases List.eq_nil_or_concat' s with rfl | ⟨s, c, rfl⟩
  · rfl
  · rw [stripEndIf_append_singleton, hlast c List.getLast?_concat, if_neg (by decide)]

/-- What is left of a stripped text is a part of it. -/
lemma stripIf_sublist (p : Char → Bool) (s : List Char) : (stripIf p s).Sublist s :=
  (List.rdropWhile_prefix p _).sublist.trans (List.dropWhile_sublist p)

/-- The last part stands behind the separator. -/
lemma joinWith_concat (sep last : List Char) : ∀ {init : List (List Char)}, init ≠ [] →
    joinWith sep (init ++ [last]) = joinWith sep init ++ sep ++ last
  | [], h => absurd rfl h
  | [_], _ => rfl
  | p :: q :: ps, _ => by
      have ih := joinWith_concat sep last (List.cons_ne_nil q ps)
      rw [List.cons_append, List.cons_append, joinWith, ← List.cons_append, ih, joinWith]
      simp only [List.append_assoc]

/-- Joined parts are the parts with the separator between neighbours. -/
lemma joinWith_eq_intercalate (sep : List Char) : ∀ ps : List (List Char),
    joinWith sep ps = sep.intercalate ps
  | [] => by rw [joinWith, List.intercalate_nil]
  | [p] => by rw [joinWith, List.intercalate_singleton]
  | p :: q :: ps => by
      rw [joinWith, joinWith_eq_intercalate sep (q :: ps), List.intercalate_cons_cons]

/-! ### Digits -/

/-- The code points of the ASCII digits. -/
lemma toNat_of_charIsDigit {c : Char} (h : c.isDigit = true) :
    0x30 ≤ c.toNat ∧ c.toNat < 0x30 + 10 := by
  simp only [Char.isDigit, Bool.and_eq_true, decide_eq_true_eq] at h
  exact ⟨h.1, Nat.lt_succ_of_le h.2⟩

/-- ASCII digits are digits. -/
lemma isDigit_of_charIsDigit {c : Char} (h : c.isDigit = true) : isDigit c = true := by
  have hrange := toNat_of_charIsDigit h
  rw [isDigit, digitValue?, digitZeros, List.find?_cons_of_pos]
  · rfl
  · simpa using hrange

/-- ASCII digits are not blank. -/
lemma isBlank_of_charIsDigit {c : Char} (h : c.isDigit = true) : isBlank c = false := by
  obtain ⟨hlo, hhi⟩ := toNat_of_charIsDigit h
  simp only [isBlank, Bool.or_eq_false_iff, Bool.and_eq_false_iff, decide_eq_false_iff_not,
    beq_eq_false_iff_ne]
  omega

/-- A number is written with digits, of which there is at least one. -/
lemma digits_toString (n : Nat) : (toString n).toList ≠ [] ∧
    ∀ c ∈ (toString n).toList, c.isDigit = true := by
  have hdigits : (toString n).toList = Nat.toDigits 10 n := by simp
  rw [hdigits]
  refine ⟨Nat.toDigits_ne_nil, fun c hc => ?_⟩
  exact Nat.isDigit_of_mem_toDigits (by omega) (by omega) hc

end YamlNavigator.Text
