/-!
Cutting a text at a separator and putting the parts together again.

* `Text.splitOn`, `Text.joinWith`: the parts between separators, and the text that parts make;
* `Text.joinWith_splitOn`: a cut text is put together from its parts, so nothing is lost;
* `Text.lines`: the parts between line feeds;
* `Text.unifyBreaks`: a text in which every line break is a line feed;
* `Text.slice`: a stretch of a list whose bounds may count from its end;
* `Text.selectLines`: a window of lines of a text.
-/

namespace YamlNavigator.Text

/-- The parts of a text between the occurrences of a separator; there is always at least one. -/
def splitOn (sep : Char) : List Char → List (List Char)
  | [] => [[]]
  | c :: s =>
      if c = sep then [] :: splitOn sep s
      else
        match splitOn sep s with
        | [] => [[c]]
        | p :: ps => (c :: p) :: ps

/-- The parts of a text with a separator between neighbours. -/
def joinWith (sep : List Char) : List (List Char) → List Char
  | [] => []
  | [p] => p
  | p :: q :: ps => p ++ sep ++ joinWith sep (q :: ps)

/-- A cut text has at least one part. -/
theorem splitOn_ne_nil (sep : Char) (s : List Char) : splitOn sep s ≠ [] := by
  cases s with
  | nil => simp [splitOn]
  | cons c s =>
      rw [splitOn]
      split
      · simp
      · split <;> simp

/-- A text is put together again from its parts. -/
theorem joinWith_splitOn (sep : Char) (s : List Char) :
    joinWith [sep] (splitOn sep s) = s := by
  induction s with
  | nil => rfl
  | cons c s ih =>
      rw [splitOn]
      split
      · next h =>
          subst h
          cases hs : splitOn c s with
          | nil => exact absurd hs (splitOn_ne_nil c s)
          | cons p ps => rw [hs] at ih; simp [joinWith, ih]
      · split
        · next hs => exact absurd hs (splitOn_ne_nil sep s)
        · next p ps hs =>
            rw [hs] at ih
            cases ps with
            | nil => simpa [joinWith] using ih
            | cons q ps => simpa [joinWith] using ih

/-- No part of a cut text holds the separator. -/
theorem not_mem_of_mem_splitOn {sep : Char} {s p : List Char} (h : p ∈ splitOn sep s) :
    sep ∉ p := by
  induction s generalizing p with
  | nil => simp_all [splitOn]
  | cons c s ih =>
      rw [splitOn] at h
      split at h
      · rcases List.mem_cons.mp h with rfl | h
        · simp
        · exact ih h
      · next hc =>
          split at h
          · next hs => exact absurd hs (splitOn_ne_nil sep s)
          · next q qs hs =>
              rcases List.mem_cons.mp h with rfl | h
              · have := ih (p := q) (hs ▸ List.mem_cons_self)
                simp [this, Ne.symm hc]
              · exact ih (hs ▸ List.mem_cons_of_mem q h)

/-- The lines of a text: its parts between line feeds. -/
def lines (s : List Char) : List (List Char) :=
  splitOn '\n' s

/-- Lines put together with a line feed between neighbours. -/
def joinLines (ls : List (List Char)) : List Char :=
  joinWith ['\n'] ls

/-- A text in which every line break is a line feed: a carriage return becomes one, together with a
line feed behind it. -/
def unifyBreaks : List Char → List Char
  | '\r' :: '\n' :: s => '\n' :: unifyBreaks s
  | c :: s => (if c = '\r' then '\n' else c) :: unifyBreaks s
  | [] => []

/-- The place of a bound in a list of `n` items: a negative bound counts from the end, and a bound
outside the list is moved to its nearer end. -/
def clampBound (n : Nat) (bound : Int) : Nat :=
  let b := if bound < 0 then bound + n else bound
  min b.toNat n

/-- The items of a list from bound `lo` up to bound `hi`. -/
def slice {α : Type} (xs : List α) (lo hi : Int) : List α :=
  let a := clampBound xs.length lo
  let b := clampBound xs.length hi
  (xs.take b).drop a

/-- A window of `height` lines of a text, beginning at the line numbered `start` from zero. -/
def selectLines (content : String) (start height : Int) : String :=
  String.ofList (joinLines (slice (lines content.toList) start (start + height)))

end YamlNavigator.Text
