/-!
Characters in the place of surrogates.

A text of the program can hold a surrogate that stands alone, since an escape can ask for any code
point. No character is a surrogate, and so another one stands in for it: the surrogates from D800 on
become the code points from 5D800 on, which are assigned to nothing. Other code points are their own
characters, so that different ones stay different.

* `Text.isStandIn`, `Text.isByteStandIn`: whether a character stands in for a surrogate, and for one
  that stands for a byte;
* `Text.ofCodePoint`: the character for a code point;
* `Text.isStandIn_ofCodePoint`, `Text.ofCodePoint_inj`: surrogates are told apart from all other
  code points, and these from each other.
-/

namespace YamlNavigator.Text

/-- Does the character stand in for a surrogate? -/
def isStandIn (c : Char) : Bool := 0x5d800 ≤ c.toNat && c.toNat < 0x5e000

/-- Does the character stand in for a surrogate that stands for a byte itself? Bytes that are no
text are read as such surrogates where the system hands them over, and written as the bytes again.
-/
def isByteStandIn (c : Char) : Bool := 0x5dc80 ≤ c.toNat && c.toNat < 0x5dd00

/-- The character of a code point, or the one that stands in for a surrogate. -/
def ofCodePoint (n : Nat) : Char :=
  Char.ofNat (if 0xd800 ≤ n && n < 0xe000 then n + 0x50000 else n)

/-- A number that is no surrogate and not too large is that of its character. -/
theorem toNat_ofNat {n : Nat} (h : n.isValidChar) : (Char.ofNat n).toNat = n := by
  rw [Char.ofNat, dif_pos h]
  rfl

/-- The number of the character for a code point. -/
theorem toNat_ofCodePoint {n : Nat} (h : n ≤ 0x10ffff) :
    (ofCodePoint n).toNat = if 0xd800 ≤ n ∧ n < 0xe000 then n + 0x50000 else n := by
  simp only [ofCodePoint, Bool.and_eq_true, decide_eq_true_eq]
  split
  · next hn => exact toNat_ofNat (.inr ⟨by omega, by omega⟩)
  · next hn =>
      rcases Nat.lt_or_ge n 0xd800 with hlt | hge
      · exact toNat_ofNat (.inl hlt)
      · exact toNat_ofNat (.inr ⟨by omega, by omega⟩)

/-- The code points whose characters stand in for something are the surrogates, and those characters
themselves. -/
theorem isStandIn_ofCodePoint {n : Nat} (h : n ≤ 0x10ffff) :
    isStandIn (ofCodePoint n) = true ↔
      (0xd800 ≤ n ∧ n < 0xe000) ∨ (0x5d800 ≤ n ∧ n < 0x5e000) := by
  rw [isStandIn, toNat_ofCodePoint h, Bool.and_eq_true, decide_eq_true_eq, decide_eq_true_eq]
  split <;> omega

/-- Code points that stand in for nothing have characters of their own. -/
theorem ofCodePoint_inj {m n : Nat} (hm : m ≤ 0x10ffff) (hn : n ≤ 0x10ffff)
    (hm' : ¬(0x5d800 ≤ m ∧ m < 0x5e000)) (hn' : ¬(0x5d800 ≤ n ∧ n < 0x5e000)) :
    ofCodePoint m = ofCodePoint n ↔ m = n := by
  refine ⟨fun heq => ?_, congrArg ofCodePoint⟩
  have hnumber := congrArg Char.toNat heq
  rw [toNat_ofCodePoint hm, toNat_ofCodePoint hn] at hnumber
  split at hnumber <;> split at hnumber <;> omega

end YamlNavigator.Text
