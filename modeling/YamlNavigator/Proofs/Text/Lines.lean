import Mathlib.Data.List.TakeWhile
import YamlNavigator.Proofs.Text.Parts

/-!
The lines of a text, and windows of them.

* `Text.length_lines`: a text has one line more than line feeds;
* `Text.takeWhile_of_lines`: the first line of a text begins with the characters that the text does;
* `Text.firstLine`, `Text.lastLine`, `Text.getElem?_lines_append`: the line in which one text goes
  on with another;
* `Text.slice_add`: a stretch of a list from a place on;
* `Text.lines_selectLines`: the lines of a window;
* `Text.selectLines_one`: a window of one line.
-/

namespace YamlNavigator.Text

/-- A cut text has one part more than separators. -/
lemma length_splitOn (sep : Char) (s : List Char) :
    (splitOn sep s).length = s.count sep + 1 := by
  induction s with
  | nil => rfl
  | cons c s ih =>
      rw [splitOn]
      split
      · next h => rw [List.length_cons, ih, h, List.count_cons_self]
      · next h =>
          rw [List.count_cons_of_ne h, ← ih]
          split
          · next hs => exact absurd hs (splitOn_ne_nil sep s)
          · next hs => rw [hs, List.length_cons, List.length_cons]

/-- A text has one line more than line feeds. -/
lemma length_lines (s : List Char) : (lines s).length = s.count '\n' + 1 := length_splitOn '\n' s

/-- Lines are got back from the text that they make. -/
lemma lines_joinLines {ls : List (List Char)} (hne : ls ≠ []) (h : ∀ l ∈ ls, '\n' ∉ l) :
    lines (joinLines ls) = ls := splitOn_joinWith hne h

/-- Different lines make different texts. -/
lemma joinLines_inj {ls ms : List (List Char)} (hls : ls ≠ []) (hms : ms ≠ [])
    (h : ∀ l ∈ ls, '\n' ∉ l) (h' : ∀ m ∈ ms, '\n' ∉ m) : joinLines ls = joinLines ms ↔ ls = ms := by
  refine ⟨fun heq => ?_, congrArg joinLines⟩
  rw [← lines_joinLines hls h, heq, lines_joinLines hms h']

/-- Behind the first of several lines stands a line feed. -/
lemma joinLines_cons_cons (l m : List Char) (ls : List (List Char)) :
    joinLines (l :: m :: ls) = l ++ '\n' :: joinLines (m :: ls) := by
  rw [joinLines, joinWith, ← joinLines, List.append_assoc, List.singleton_append]

/-- Joined lines begin with the first one. -/
lemma take_joinLines_of_le {l : List Char} {k : Nat} (h : k ≤ l.length) (ls : List (List Char)) :
    (joinLines (l :: ls)).take k = l.take k := by
  cases ls with
  | nil => rfl
  | cons m ls => rw [joinLines_cons_cons, List.take_append_of_le_length h]

/-- Behind the first line stand the others. -/
lemma take_joinLines_cons_cons (l m : List Char) (ls : List (List Char)) (n : Nat) :
    (joinLines (l :: m :: ls)).take (l.length + n + 1) =
      l ++ '\n' :: (joinLines (m :: ls)).take n := by
  rw [joinLines_cons_cons, Nat.add_assoc, List.take_length_add_append, List.take_succ_cons]

/-- The first line of a text begins with the characters that the text begins with. -/
lemma takeWhile_of_lines {s l : List Char} {ls : List (List Char)} (h : lines s = l :: ls)
    {p : Char → Bool} (hp : p '\n' = false) : s.takeWhile p = l.takeWhile p := by
  have hjoin : joinLines (l :: ls) = s := h ▸ joinWith_splitOn '\n' s
  cases ls with
  | nil => rw [← hjoin]; rfl
  | cons m ls =>
      rw [← hjoin, joinLines_cons_cons, List.takeWhile_append]
      split
      · next hall =>
          rw [List.takeWhile_cons_of_neg (by simp [hp]), List.append_nil]
          exact ((List.takeWhile_prefix p).eq_of_length hall).symm
      · rfl

/-- The text in front of the first line feed. -/
def firstLine (s : List Char) : List Char := s.takeWhile (· != '\n')

/-- The text behind the last line feed. -/
def lastLine (s : List Char) : List Char := (s.reverse.takeWhile (· != '\n')).reverse

/-- A text without line feeds is its last line. -/
lemma lastLine_of_not_mem {s : List Char} (h : '\n' ∉ s) : lastLine s = s := by
  rw [lastLine, List.takeWhile_eq_self_iff.mpr fun c hc => ?_, List.reverse_reverse]
  rw [bne_iff_ne]
  rintro rfl
  exact h (List.mem_reverse.mp hc)

/-- What stands in front of a line feed is not of the last line. -/
lemma lastLine_append_cons (s t : List Char) : lastLine (s ++ '\n' :: t) = lastLine t := by
  rw [lastLine, List.reverse_append, List.reverse_cons, List.append_assoc, List.takeWhile_append,
    lastLine]
  split
  · next h =>
      rw [List.singleton_append, List.takeWhile_cons_of_neg (by simp), List.append_nil,
        (List.takeWhile_prefix _).eq_of_length h]
  · rfl

/-- The last line of a text goes on with a text behind it that has no line feeds. -/
lemma lastLine_append (s t : List Char) :
    lastLine (s ++ t) = (if t.count '\n' = 0 then lastLine s else []) ++ lastLine t := by
  split
  · next h =>
      have ht : ∀ c ∈ t.reverse, (c != '\n') = true := fun c hc => by
        rw [bne_iff_ne]
        rintro rfl
        exact List.count_eq_zero.mp h (List.mem_reverse.mp hc)
      rw [lastLine_of_not_mem (List.count_eq_zero.mp h), lastLine, List.reverse_append,
        List.takeWhile_append_of_pos ht, List.reverse_append, List.reverse_reverse, lastLine]
  · next h =>
      obtain ⟨before, after, rfl, -⟩ := exists_last (List.count_pos_iff.mp (Nat.pos_of_ne_zero h))
      rw [← List.append_assoc, lastLine_append_cons, lastLine_append_cons, List.nil_append]

/-- The first line of a text. -/
lemma exists_lines_eq (s : List Char) : ∃ more, lines s = firstLine s :: more := by
  obtain ⟨l, more, h⟩ := List.exists_cons_of_ne_nil (splitOn_ne_nil '\n' s)
  have hl : '\n' ∉ l := not_mem_of_mem_splitOn (h ▸ List.mem_cons_self)
  refine ⟨more, h.trans ?_⟩
  rw [firstLine, takeWhile_of_lines h (by decide), List.takeWhile_eq_self_iff.mpr fun c hc => ?_]
  rw [bne_iff_ne]
  rintro rfl
  exact hl hc

/-- The first line of a text goes on with a text in front that has no line feeds. -/
lemma lines_append_of_not_mem {s t l : List Char} {ls : List (List Char)} (h : '\n' ∉ s)
    (ht : lines t = l :: ls) : lines (s ++ t) = (s ++ l) :: ls := by
  induction s with
  | nil => exact ht
  | cons c s ih =>
      obtain ⟨hc, hs⟩ := not_or.mp fun hmem => h (List.mem_cons.mpr hmem)
      have hrest : splitOn '\n' (s ++ t) = (s ++ l) :: ls := ih hs
      rw [List.cons_append, lines, splitOn, if_neg (Ne.symm hc), hrest]
      rfl

/-- **The last line of a text goes on with the first line of the text behind it.** -/
lemma getElem?_lines_append (s t : List Char) :
    (lines (s ++ t))[s.count '\n']? = some (lastLine s ++ firstLine t) := by
  obtain ⟨more, hmore⟩ := exists_lines_eq t
  by_cases hs : '\n' ∈ s
  · obtain ⟨before, after, rfl, hafter⟩ := exists_last hs
    have hcount : (before ++ '\n' :: after).count '\n' = (lines before).length := by
      rw [List.count_append, List.count_cons_self, List.count_eq_zero.mpr hafter, length_lines]
    rw [hcount, List.append_assoc, List.cons_append, lines, splitOn_append_cons, ← lines, ← lines,
      List.getElem?_append_right (Nat.le_refl _), Nat.sub_self,
      lines_append_of_not_mem hafter hmore, lastLine_append_cons, lastLine_of_not_mem hafter]
    rfl
  · rw [List.count_eq_zero.mpr hs, lines_append_of_not_mem hs hmore, lastLine_of_not_mem hs]
    rfl

/-- The last line of a text is the last of its lines. -/
lemma getLast?_lines (s : List Char) : (lines s).getLast? = some (lastLine s) := by
  have hlast := getElem?_lines_append s []
  rw [List.append_nil] at hlast
  rw [List.getLast?_eq_getElem?, length_lines, Nat.add_sub_cancel, hlast]
  exact congrArg some (List.append_nil _)

section Windows

variable {start height : Int}

/-- A stretch of a list from a place on, both counted from the front. -/
lemma slice_add {α : Type} (xs : List α) (hstart : 0 ≤ start) (hheight : 0 ≤ height) :
    slice xs start (start + height) = (xs.drop start.toNat).take height.toNat := by
  have hlo : clampBound xs.length start = min start.toNat xs.length := by
    rw [clampBound, if_neg (by omega)]
  have hhi : clampBound xs.length (start + height) =
      min (start.toNat + height.toNat) xs.length := by
    rw [clampBound, if_neg (by omega), Int.toNat_add hstart hheight]
  rw [slice, hlo, hhi]
  refine List.ext_getElem? fun i => ?_
  rw [List.getElem?_drop, List.getElem?_take, List.getElem?_take, List.getElem?_drop]
  -- behind the end of the list both stretches are empty
  rcases Nat.lt_or_ge start.toNat xs.length with hlt | hge
  · rw [Nat.min_eq_left (Nat.le_of_lt hlt)]
    by_cases hi : i < height.toNat
    · rw [if_pos hi]
      split
      · rfl
      · exact (List.getElem?_eq_none (by omega)).symm
    · rw [if_neg hi, if_neg (by omega)]
  · rw [Nat.min_eq_right hge, if_neg (by omega), List.getElem?_eq_none (by omega), ite_self]

/-- The lines of a window that begins within a text. -/
lemma lines_selectLines {content : String} (hstart : 0 ≤ start)
    (hlt : start < (lines content.toList).length) (hheight : 1 ≤ height) :
    lines (selectLines content start height).toList =
      ((lines content.toList).drop start.toNat).take height.toNat := by
  rw [selectLines, String.toList_ofList, slice_add _ hstart (by omega)]
  refine lines_joinLines ?_ fun l hl => ?_
  · rw [Ne, List.take_eq_nil_iff, List.drop_eq_nil_iff]
    omega
  · exact not_mem_of_mem_splitOn (List.mem_of_mem_drop (List.mem_of_mem_take hl))

/-- A window of one line is that line, and nothing behind the last line. -/
lemma selectLines_one (content : String) (hstart : 0 ≤ start) :
    selectLines content start 1 =
      String.ofList ((lines content.toList)[start.toNat]?.getD []) := by
  rw [selectLines, slice_add _ hstart (by omega)]
  generalize lines content.toList = ls
  cases h : ls[start.toNat]? with
  | none =>
      rw [List.drop_eq_nil_of_le (List.getElem?_eq_none_iff.mp h)]
      rfl
  | some l =>
      obtain ⟨hlt, rfl⟩ := List.getElem?_eq_some_iff.mp h
      rw [List.drop_eq_getElem_cons hlt]
      rfl

end Windows

end YamlNavigator.Text
