import Mathlib.Tactic.Lemma
import YamlNavigator.Document.Tiling
import YamlNavigator.Proofs.Text.Lines

/-!
The positions of offsets.

* `indentOf`: where the content of a line starts;
* `columnOf`: the distance of an offset from the start of its line;
* `LineTable.line_position`, `LineTable.column_position`, `LineTable.indent_position`: a position
  tells the line of an offset, its distance from the start of this line, and where the content of
  this line starts;
* `textAt`, `LineTable.textAt_position`: the text at the position of an offset is the text from the
  offset on.
-/

namespace YamlNavigator

open Text

/-- The column where the content of a line of a text starts; lines are counted from one. -/
def indentOf (s : List Char) (line : Int) : Nat :=
  contentColumn ((lines s)[line.toNat - 1]?.getD [])

/-- The number of characters between the start of the line of an offset and the offset. -/
def columnOf (s : List Char) (k : Nat) : Nat := (lastLine (s.take k)).length

/-- The text of which a position is the beginning; lines and columns are counted from one. -/
def textAt (s : List Char) (p : Position) : List Char :=
  (joinLines ((lines s).drop (p.line.toNat - 1))).drop (p.column.toNat - 1)

namespace LineTable

/-- No line behind the first one starts at an offset in this line. -/
lemma takeWhile_ofLines_of_le {l : List Char} {k : Nat} (h : k ≤ l.length) (start : Nat)
    (ls : List (List Char)) :
    (ofLines (start + l.length + 1) ls).takeWhile (·.start ≤ start + k) = [] := by
  cases ls with
  | nil => rfl
  | cons m ls =>
      have hlt : ¬start + l.length + 1 ≤ start + k := by omega
      rw [ofLines, List.takeWhile_cons_of_neg (by simpa using hlt)]

/-- The lines that start at an offset or before it are one more than the line feeds before it. -/
lemma length_takeWhile_ofLines (k : Nat) : ∀ (ls : List (List Char)) (start : Nat), ls ≠ [] →
    (∀ l ∈ ls, '\n' ∉ l) →
      ((ofLines start ls).takeWhile (·.start ≤ start + k)).length =
        ((joinLines ls).take k).count '\n' + 1 := by
  intro ls
  induction ls generalizing k with
  | nil => exact fun _ h => absurd rfl h
  | cons l ls ih =>
      intro start _ hls
      have hl : '\n' ∉ l := hls l List.mem_cons_self
      have hline : ∀ n, (l.take n).count '\n' = 0 := fun n =>
        List.count_eq_zero.mpr fun h => hl (List.mem_of_mem_take h)
      rw [ofLines, List.takeWhile_cons_of_pos (by simp), List.length_cons]
      congr 1
      rcases Nat.lt_or_ge l.length k with hlt | hle
      · cases ls with
        | nil => exact (hline k).symm
        | cons m ls =>
            obtain ⟨n, rfl⟩ := Nat.exists_eq_add_of_lt hlt
            have hstart : start + (l.length + n + 1) = start + l.length + 1 + n := by omega
            rw [hstart, take_joinLines_cons_cons, List.count_append, List.count_eq_zero.mpr hl,
              List.count_cons_self, Nat.zero_add]
            exact ih n _ (List.cons_ne_nil m ls) fun k hk => hls k (List.mem_cons_of_mem l hk)
      · rw [takeWhile_ofLines_of_le hle, take_joinLines_of_le hle, hline, List.length_nil]

/-- The entries of lines tell where the contents of the lines start. -/
lemma getElem?_ofLines : ∀ (ls : List (List Char)) (start i : Nat),
    (ofLines start ls)[i]?.map LineEntry.indent = ls[i]?.map contentColumn
  | [], _, _ => rfl
  | _ :: _, _, 0 => rfl
  | l :: ls, start, i + 1 => getElem?_ofLines ls (start + l.length + 1) i

/-- The distance of an offset from the start of the last line that starts at the offset or before
it. -/
lemma column_ofLines (k : Nat) : ∀ (ls : List (List Char)) (start : Nat), ls ≠ [] →
    (∀ l ∈ ls, '\n' ∉ l) → k ≤ (joinLines ls).length →
      start + k - (((ofLines start ls).takeWhile
        (·.start ≤ start + k)).getLast?.getD ⟨0, 0⟩).start = columnOf (joinLines ls) k := by
  intro ls
  induction ls generalizing k with
  | nil => exact fun _ h => absurd rfl h
  | cons l ls ih =>
      intro start _ hls hk
      have hl : '\n' ∉ l := hls l List.mem_cons_self
      rw [ofLines, List.takeWhile_cons_of_pos (by simp)]
      rcases Nat.lt_or_ge l.length k with hlt | hle
      · cases ls with
        | nil => exact absurd hk (Nat.not_le_of_lt hlt)
        | cons m ls =>
            obtain ⟨n, rfl⟩ := Nat.exists_eq_add_of_lt hlt
            have hstart : start + (l.length + n + 1) = start + l.length + 1 + n := by omega
            rw [joinLines_cons_cons, List.length_append, List.length_cons] at hk
            have hrest := ih n (start + l.length + 1) (List.cons_ne_nil m ls)
              (fun k hk => hls k (List.mem_cons_of_mem l hk)) (by omega)
            -- the next line starts at the offset or before it
            obtain ⟨e, more, hmore⟩ : ∃ e more,
                (ofLines (start + l.length + 1) (m :: ls)).takeWhile
                  (·.start ≤ start + l.length + 1 + n) = e :: more :=
              ⟨_, _, by rw [ofLines, List.takeWhile_cons_of_pos (by simp)]⟩
            rw [hstart, hmore, List.getLast?_cons_cons, ← hmore, hrest, columnOf, columnOf,
              take_joinLines_cons_cons, lastLine_append_cons]
      · have hlast : lastLine (l.take k) = l.take k :=
          lastLine_of_not_mem fun h => hl (List.mem_of_mem_take h)
        rw [takeWhile_ofLines_of_le hle, columnOf, take_joinLines_of_le hle, hlast,
          List.length_take, Nat.min_eq_left hle]
        exact Nat.add_sub_cancel_left start k

variable (s : List Char) (k : Nat)

/-- The line of an offset is one more than the line feeds before it. -/
lemma line_position : ((ofText s).position k).line = (s.take k).count '\n' + 1 := by
  have hlen := length_takeWhile_ofLines k (lines s) 0 (splitOn_ne_nil '\n' s)
    fun l hl => not_mem_of_mem_splitOn hl
  have hjoin : joinLines (lines s) = s := joinWith_splitOn '\n' s
  rw [hjoin, Nat.zero_add] at hlen
  exact congrArg Int.ofNat hlen

/-- The column of an offset is one more than its distance from the start of its line. -/
lemma column_position (h : k ≤ s.length) :
    ((ofText s).position k).column = columnOf s k + 1 := by
  have hcolumn := column_ofLines k (lines s) 0 (splitOn_ne_nil '\n' s)
    fun l hl => not_mem_of_mem_splitOn hl
  have hjoin : joinLines (lines s) = s := joinWith_splitOn '\n' s
  rw [hjoin, Nat.zero_add] at hcolumn
  -- no line up to the offset starts behind it
  have hle : (((ofText s).takeWhile (·.start ≤ k)).getLast?.getD ⟨0, 0⟩).start ≤ k := by
    cases hlast : ((ofText s).takeWhile (·.start ≤ k)).getLast? with
    | none => exact Nat.zero_le k
    | some e => simpa using List.mem_takeWhile_imp (List.mem_of_getLast? hlast)
  rw [← hcolumn h, position, ← ofText]
  dsimp only
  omega

/-- The position of an offset tells where the content of its line starts. -/
lemma indent_position :
    ((ofText s).position k).indent = indentOf s ((ofText s).position k).line := by
  obtain ⟨upTo, hupTo⟩ : ∃ upTo, upTo = (ofText s).takeWhile (·.start ≤ k) := ⟨_, rfl⟩
  have hlen : upTo.length = (s.take k).count '\n' + 1 := by
    have := line_position s k
    rw [position, ← hupTo] at this
    exact Int.ofNat_inj.mp this
  -- the last line up to the offset is the one with the number of these lines
  have hlast : upTo.getLast? = (ofText s)[upTo.length - 1]? := by
    have hpre := List.prefix_iff_eq_take.mp (List.takeWhile_prefix (·.start ≤ k) (l := ofText s))
    rw [← hupTo] at hpre
    calc upTo.getLast? = upTo[upTo.length - 1]? := List.getLast?_eq_getElem?
      _ = ((ofText s).take upTo.length)[upTo.length - 1]? := congrArg (·[upTo.length - 1]?) hpre
      _ = (ofText s)[upTo.length - 1]? := List.getElem?_take_of_lt (by omega)
  obtain ⟨e, he⟩ : ∃ e, upTo.getLast? = some e := by
    cases h : upTo.getLast? with
    | none => simp [List.getLast?_eq_none_iff.mp h] at hlen
    | some e => exact ⟨e, rfl⟩
  have hentry := getElem?_ofLines (lines s) 0 (upTo.length - 1)
  rw [← ofText, ← hlast, he, Option.map_some] at hentry
  obtain ⟨l, hl, hindent⟩ := Option.map_eq_some_iff.mp hentry.symm
  rw [position, ← hupTo, he, indentOf, Int.toNat_natCast, hl]
  exact congrArg Int.ofNat hindent.symm

/-- From the last line up to an offset on, the text is that of the lines from the offset of this
line on. -/
lemma drop_joinLines_ofLines (k : Nat) : ∀ (ls : List (List Char)) (start : Nat), ls ≠ [] →
    (joinLines (ls.drop
      (((ofLines start ls).takeWhile (·.start ≤ start + k)).length - 1))).drop
        (start + k - (((ofLines start ls).takeWhile
          (·.start ≤ start + k)).getLast?.getD ⟨0, 0⟩).start) = (joinLines ls).drop k := by
  intro ls
  induction ls generalizing k with
  | nil => exact fun _ h => absurd rfl h
  | cons l ls ih =>
      intro start _
      rw [ofLines, List.takeWhile_cons_of_pos (by simp)]
      cases hmore : (ofLines (start + l.length + 1) ls).takeWhile (·.start ≤ start + k) with
      | nil => simp
      | cons e more =>
          -- a line that starts at the offset or before it follows
          obtain ⟨m, ls, rfl⟩ : ∃ m ms, ls = m :: ms := by
            cases ls with
            | nil => cases hmore
            | cons m ms => exact ⟨m, ms, rfl⟩
          have hle : start + l.length + 1 ≤ start + k := by
            by_contra hgt
            rw [ofLines, List.takeWhile_cons_of_neg (by simpa using hgt)] at hmore
            cases hmore
          obtain ⟨n, rfl⟩ : ∃ n, k = l.length + 1 + n := ⟨k - (l.length + 1), by omega⟩
          have hstart : start + l.length + 1 + n = start + (l.length + 1 + n) := by omega
          have hrest := ih n (start + l.length + 1) (List.cons_ne_nil m ls)
          rw [hstart, hmore] at hrest
          have hjoin : (joinLines (l :: m :: ls)).drop (l.length + 1 + n) =
              (joinLines (m :: ls)).drop n := by
            rw [joinLines_cons_cons, Nat.add_assoc, List.drop_length_add_append, Nat.add_comm 1 n,
              List.drop_succ_cons]
          rw [hjoin, ← hrest]
          simp

/-- At the position of an offset stands the text from the offset on. -/
lemma textAt_position : textAt s ((ofText s).position k) = s.drop k := by
  have hdrop := drop_joinLines_ofLines k (lines s) 0 (splitOn_ne_nil '\n' s)
  have hjoin : joinLines (lines s) = s := joinWith_splitOn '\n' s
  rw [hjoin, Nat.zero_add] at hdrop
  have hcolumn : ∀ m n : Nat, ((m : Int) - n + 1).toNat - 1 = m - n := by omega
  rw [textAt, position, ← hdrop]
  dsimp only
  rw [hcolumn, Int.toNat_natCast]
  rfl

end LineTable

end YamlNavigator
