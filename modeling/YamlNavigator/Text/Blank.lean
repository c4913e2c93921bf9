/-!
Blank characters and the operations that cut them off.

* `Text.isBlank`: the characters that count as white space when a text is tested for being empty
  to the eye;
* `Text.isBlankText`: a text with nothing but blanks;
* `Text.strip`, `Text.stripIf`: a text without the blanks (or the characters of any class) at both
  ends;
* `Text.words`: the parts of a text between runs of blanks.
-/

namespace YamlNavigator.Text

/-- White space: the horizontal and vertical separators of Unicode, with the information separators
`U+001C` to `U+001F`. -/
def isBlank (c : Char) : Bool :=
  let n := c.toNat
  (9 ≤ n && n ≤ 13) || (0x1c ≤ n && n ≤ 0x20) || n == 0x85 || n == 0xa0 || n == 0x1680 ||
    (0x2000 ≤ n && n ≤ 0x200a) || n == 0x2028 || n == 0x2029 || n == 0x202f || n == 0x205f ||
    n == 0x3000

/-- Every white space character of ASCII is blank. -/
theorem isBlank_of_isWhitespace {c : Char} (h : c.isWhitespace = true) : isBlank c = true := by
  simp only [Char.isWhitespace, Bool.or_eq_true, decide_eq_true_eq] at h
  rcases h with ((rfl | rfl) | rfl) | rfl <;> decide

/-- A text of blanks only; the empty text is one. -/
def isBlankText (s : List Char) : Bool :=
  s.all isBlank

/-- A text without the characters of class `p` at its end. -/
def stripEndIf (p : Char → Bool) (s : List Char) : List Char :=
  (s.reverse.dropWhile p).reverse

/-- A text without the characters of class `p` at its two ends. -/
def stripIf (p : Char → Bool) (s : List Char) : List Char :=
  stripEndIf p (s.dropWhile p)

/-- A text without the blanks at its two ends. -/
def strip (s : List Char) : List Char :=
  stripIf isBlank s

/-- The words of a text, the word being read held apart in reverse. -/
def wordsFrom : List Char → List Char → List (List Char)
  | [], [] => []
  | w, [] => [w.reverse]
  | [], c :: s => if isBlank c then wordsFrom [] s else wordsFrom [c] s
  | d :: w, c :: s =>
      if isBlank c then (d :: w).reverse :: wordsFrom [] s else wordsFrom (c :: d :: w) s

/-- The non-empty parts of a text between runs of blanks. -/
def words (s : List Char) : List (List Char) :=
  wordsFrom [] s

end YamlNavigator.Text
