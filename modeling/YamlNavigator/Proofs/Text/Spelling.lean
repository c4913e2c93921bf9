import Mathlib.Data.List.Induction
import Mathlib.Data.List.TakeWhile
import Mathlib.Order.MinMax
import YamlNavigator.Proofs.Text.Parts

/-!
Texts that are spelled in another way.

* `Spelling`: whether a byte order mark stands in front of a text, and whether a carriage return
  stands in front of every line feed; `Spelling.byteOrderMark` and `Spelling.carriageReturns` have
  one of the two;
* `Spelling.text`: a text as it is spelled, made of `Spelling.front` and `Spelling.body`;
* `Spelling.offset`: where an offset of a text is found once the text is spelled;
* `Spelling.Suits`: the texts that hold nothing of what the spelling adds;
* `drop_text`, `slice_text`: what stands behind an offset, or between two of them, is spelled there;
* `Spelling.breakLines`, `lines_body`: the lines of a spelled text;
* `strip_body`: white space at the ends is stripped before or after spelling.
-/

namespace YamlNavigator

open Text

/-- A way to spell a text: with a byte order mark in front of it or without, and with a carriage
return in front of every line feed or without. -/
structure Spelling where
  marked : Bool
  returns : Bool
  deriving DecidableEq, Repr

namespace Spelling

/-- A byte order mark in front. -/
def byteOrderMark : Spelling := ⟨true, false⟩

/-- A carriage return in front of every line feed. -/
def carriageReturns : Spelling := ⟨false, true⟩

variable (w : Spelling)

/-- What stands in front of a text. -/
def front : List Char := if w.marked then ['\ufeff'] else []

/-- A character as it is spelled. -/
def char (c : Char) : List Char := if w.returns && c == '\n' then ['\r', '\n'] else [c]

/-- A part of a text as it is spelled. -/
def body (s : List Char) : List Char := s.flatMap w.char

/-- A text as it is spelled. -/
def text (s : List Char) : List Char := w.front ++ w.body s

/-- The offset in the spelled text that corresponds to an offset of a text. -/
def offset (s : List Char) (i : Nat) : Nat :=
  w.front.length + (w.body (s.take i)).length + (i - s.length)

/-- A text that does not begin with a byte order mark if one is put in front of it, and that holds
no carriage returns if they are put in front of line feeds. -/
structure Suits (s : List Char) : Prop where
  unmarked : w.marked = true → s.head? ≠ some '\ufeff'
  unreturned : w.returns = true → '\r' ∉ s

/-! ### Spelled parts -/

variable {w} {c : Char} {s t u : List Char} {i j : Nat}

/-- Only line feeds are spelled in another way. -/
lemma char_of_ne (h : c ≠ '\n') : w.char c = [c] := by
  simp [char, h]

/-- A line feed ends its spelling. -/
lemma char_lineFeed : w.char '\n' = (if w.returns then ['\r'] else []) ++ ['\n'] := by
  rw [char]
  cases w.returns <;> rfl

lemma char_ne_nil (c : Char) : w.char c ≠ [] := by
  rw [char]
  split <;> simp

@[simp]
lemma body_nil : w.body [] = [] := rfl

lemma body_cons (c : Char) (s : List Char) : w.body (c :: s) = w.char c ++ w.body s := by
  rw [body, List.flatMap_cons]
  rfl

lemma body_cons_of_ne (h : c ≠ '\n') (s : List Char) : w.body (c :: s) = c :: w.body s := by
  rw [body_cons, char_of_ne h]
  rfl

@[simp]
lemma body_append (s t : List Char) : w.body (s ++ t) = w.body s ++ w.body t :=
  List.flatMap_append

lemma body_singleton (c : Char) : w.body [c] = w.char c := by
  rw [body_cons, body_nil, List.append_nil]

/-- A part without line feeds is spelled as it is. -/
lemma body_of_not_mem (h : '\n' ∉ s) : w.body s = s := by
  induction s with
  | nil => rfl
  | cons c s ih =>
      obtain ⟨hc, hs⟩ := not_or.mp (fun hmem => h (List.mem_cons.mpr hmem))
      rw [body_cons_of_ne (Ne.symm hc), ih hs]

/-- Without carriage returns every part is spelled as it is. -/
lemma body_of_returns_eq_false (h : w.returns = false) (s : List Char) : w.body s = s := by
  have hchar : w.char = fun c => [c] := funext fun c => by simp [char, h]
  rw [body, hchar, List.flatMap_singleton']

@[simp]
lemma body_eq_nil_iff : w.body s = [] ↔ s = [] := by
  cases s with
  | nil => simp
  | cons c s => simp [body_cons, char_ne_nil]

/-- A part has as many line feeds as its spelling. -/
lemma count_lineFeed_body (s : List Char) : (w.body s).count '\n' = s.count '\n' := by
  induction s with
  | nil => rfl
  | cons c s ih =>
      rw [body_cons, List.count_append, ih]
      by_cases hc : c = '\n'
      · subst hc
        rw [char_lineFeed, List.count_append, List.count_cons_self, Nat.add_comm]
        cases w.returns <;> simp
      · rw [char_of_ne hc, List.count_cons, List.count_cons, List.count_nil]
        omega

/-- Spelling never shortens a part. -/
lemma length_le_body (s : List Char) : s.length ≤ (w.body s).length := by
  induction s with
  | nil => exact Nat.le_refl 0
  | cons c s ih =>
      have hchar := List.length_pos_iff.mpr (char_ne_nil (w := w) c)
      rw [body_cons, List.length_cons, List.length_append]
      omega

/-- A character of a part is one of its spelling. -/
lemma mem_body_of_mem (h : c ∈ s) : c ∈ w.body s := by
  refine List.mem_flatMap.mpr ⟨c, h, ?_⟩
  rw [char]
  split
  · next hc =>
      simp only [Bool.and_eq_true, beq_iff_eq] at hc
      simp [hc.2]
  · exact List.mem_singleton_self c

/-- The characters of the spelling of a part are those of the part and carriage returns. -/
lemma mem_of_mem_body (h : c ∈ w.body s) (hc : c ≠ '\r') : c ∈ s := by
  obtain ⟨d, hd, hmem⟩ := List.mem_flatMap.mp h
  rw [char] at hmem
  split at hmem
  · next hfeed =>
      simp only [Bool.and_eq_true, beq_iff_eq] at hfeed
      rcases List.mem_cons.mp hmem with rfl | hmem
      · exact absurd rfl hc
      · rw [List.mem_singleton.mp hmem, ← hfeed.2]
        exact hd
  · exact List.mem_singleton.mp hmem ▸ hd

/-- The first character of a spelled part. -/
def first (w : Spelling) (c : Char) : Char := if w.returns && c == '\n' then '\r' else c

lemma first_of_ne (h : c ≠ '\n') : w.first c = c := by
  simp [first, h]

/-- The first characters of spellings are of a class that holds both parts of a line break, or none
of them, if the characters are. -/
lemma class_first {p : Char → Bool} (hp : p '\r' = p '\n') (c : Char) : p (w.first c) = p c := by
  rw [first]
  split
  · next h =>
      simp only [Bool.and_eq_true, beq_iff_eq] at h
      rw [h.2, hp]
  · rfl

/-- A spelled character begins with its first one. -/
lemma head?_char (c : Char) : (w.char c).head? = some (w.first c) := by
  rw [char, first]
  split <;> rfl

lemma head?_body (s : List Char) : (w.body s).head? = s.head?.map w.first := by
  cases s with
  | nil => rfl
  | cons c s => rw [body_cons, List.head?_append, head?_char]; rfl

/-- A part ends as its spelling does. -/
lemma getLast?_body (s : List Char) : (w.body s).getLast? = s.getLast? := by
  rcases List.eq_nil_or_concat' s with rfl | ⟨s, c, rfl⟩
  · rfl
  · rw [body_append, body_singleton, List.getLast?_append, List.getLast?_append]
    by_cases hc : c = '\n'
    · rw [hc, char_lineFeed, List.getLast?_append]
      rfl
    · rw [char_of_ne hc]
      rfl

/-- A part is known from its spelling. -/
lemma body_injective : Function.Injective w.body := by
  intro s
  induction s using List.reverseRecOn with
  | nil => exact fun t h => (body_eq_nil_iff.mp h.symm).symm
  | append_singleton s c ih =>
      intro t h
      have hlast := congrArg List.getLast? h
      rw [getLast?_body, getLast?_body, List.getLast?_concat] at hlast
      obtain ⟨t, rfl⟩ := List.getLast?_eq_some_iff.mp hlast.symm
      rw [body_append, body_append] at h
      rw [ih (List.append_cancel_right h)]

/-- What holds no part of a line break stands at the front before and after spelling. -/
lemma prefix_body_iff (hn : '\n' ∉ u) (hr : '\r' ∉ u) : u <+: w.body s ↔ u <+: s := by
  induction u generalizing s with
  | nil => simp
  | cons c u ih =>
      obtain ⟨hcn, hun⟩ := not_or.mp (fun hmem => hn (List.mem_cons.mpr hmem))
      obtain ⟨hcr, hur⟩ := not_or.mp (fun hmem => hr (List.mem_cons.mpr hmem))
      cases s with
      | nil => simp
      | cons d s =>
          by_cases hd : d = '\n'
          · subst hd
            rw [body_cons, char_lineFeed]
            cases w.returns <;> simp [Ne.symm hcn, Ne.symm hcr]
          · rw [body_cons_of_ne hd, List.cons_prefix_cons, List.cons_prefix_cons, ih hun hur]

/-! ### Offsets -/

@[simp]
lemma offset_zero (s : List Char) : w.offset s 0 = w.front.length := by
  simp [offset]

/-- The offset behind a part that stands at an offset. -/
lemma offset_add (h : s.drop i = u ++ t) : w.offset s (i + u.length) =
    w.offset s i + (w.body u).length := by
  rcases u with _ | ⟨c, u⟩
  · simp
  · have hlen := congrArg List.length h
    have htake : s.take (i + (c :: u).length) = s.take i ++ c :: u := by
      rw [List.take_add, h, List.take_left' rfl]
    simp only [List.length_drop, List.length_append, List.length_cons] at hlen
    rw [offset, offset, htake, body_append, List.length_append]
    simp only [List.length_cons]
    omega

/-- Behind the end of a text offsets go on one by one. -/
lemma offset_of_length_le (h : s.length ≤ i) :
    w.offset s i = (w.text s).length + (i - s.length) := by
  rw [offset, List.take_of_length_le h, text, List.length_append]

@[simp]
lemma offset_length (s : List Char) : w.offset s s.length = (w.text s).length := by
  simp [offset_of_length_le (Nat.le_refl s.length)]

/-- Offsets keep their order. -/
lemma offset_strictMono (s : List Char) : StrictMono (w.offset s) := by
  refine strictMono_nat_of_lt_succ fun i => ?_
  rcases Nat.lt_or_ge i s.length with hi | hi
  · have hchar := List.length_pos_iff.mpr (char_ne_nil (w := w) s[i])
    have hstep := offset_add (w := w) (u := [s[i]]) (List.drop_eq_getElem_cons hi)
    rw [body_singleton, List.length_singleton] at hstep
    omega
  · rw [offset_of_length_le hi, offset_of_length_le (Nat.le_succ_of_le hi)]
    omega

@[simp]
lemma offset_le_iff : w.offset s i ≤ w.offset s j ↔ i ≤ j := (offset_strictMono s).le_iff_le

@[simp]
lemma offset_lt_iff : w.offset s i < w.offset s j ↔ i < j := (offset_strictMono s).lt_iff_lt

@[simp]
lemma offset_inj : w.offset s i = w.offset s j ↔ i = j := (offset_strictMono s).injective.eq_iff

/-- No offset is moved to the left. -/
lemma le_offset (s : List Char) (i : Nat) : i ≤ w.offset s i := by
  induction i with
  | zero => exact Nat.zero_le _
  | succ i ih => exact Nat.lt_of_le_of_lt ih (offset_strictMono s (Nat.lt_succ_self i))

/-- The larger of two offsets is spelled as the larger one. -/
lemma offset_max : w.offset s (max i j) = max (w.offset s i) (w.offset s j) :=
  Monotone.map_max (offset_strictMono s).monotone

/-- Nothing is moved to the left. -/
lemma front_length_le_offset (s : List Char) (i : Nat) : w.front.length ≤ w.offset s i := by
  rw [offset]
  omega

/-- Without carriage returns all offsets are moved by the same distance. -/
lemma offset_of_returns_eq_false (h : w.returns = false) (s : List Char) (i : Nat) :
    w.offset s i = i + w.front.length := by
  rw [offset, body_of_returns_eq_false h, List.length_take]
  omega

/-- The text behind an offset is spelled behind the offset that corresponds to it. -/
lemma drop_text (h : i ≤ s.length) : (w.text s).drop (w.offset s i) = w.body (s.drop i) := by
  have hsplit : w.text s = (w.front ++ w.body (s.take i)) ++ w.body (s.drop i) := by
    rw [List.append_assoc, ← body_append, List.take_append_drop, text]
  rw [hsplit]
  refine List.drop_left' ?_
  rw [List.length_append, offset, Nat.sub_eq_zero_of_le h, Nat.add_zero]

/-- The text in front of an offset is spelled in front of the offset that corresponds to it. -/
lemma take_text (h : i ≤ s.length) :
    (w.text s).take (w.offset s i) = w.front ++ w.body (s.take i) := by
  have hsplit : w.text s = (w.front ++ w.body (s.take i)) ++ w.body (s.drop i) := by
    rw [List.append_assoc, ← body_append, List.take_append_drop, text]
  rw [hsplit]
  refine List.take_left' ?_
  rw [List.length_append, offset, Nat.sub_eq_zero_of_le h, Nat.add_zero]

/-- The text between two offsets is spelled between the offsets that correspond to them. -/
lemma slice_text (s : List Char) (i j : Nat) :
    ((w.text s).drop (w.offset s i)).take (w.offset s j - w.offset s i) =
      w.body ((s.drop i).take (j - i)) := by
  rcases Nat.le_total s.length i with hi | hi
  · -- nothing is behind the end of the text
    have hi' : (w.text s).length ≤ w.offset s i := by
      rw [offset_of_length_le hi]
      omega
    rw [List.drop_of_length_le hi, List.drop_of_length_le hi', List.take_nil, List.take_nil,
      body_nil]
  rw [drop_text hi]
  rcases Nat.le_total j i with hj | hij
  · have hj' : w.offset s j ≤ w.offset s i := offset_le_iff.mpr hj
    rw [Nat.sub_eq_zero_of_le hj, Nat.sub_eq_zero_of_le hj', List.take_zero, List.take_zero,
      body_nil]
  have hsplit := List.take_append_drop (j - i) (s.drop i)
  have hadd := offset_add (w := w) hsplit.symm
  rcases Nat.le_total j s.length with hj | hj
  · have hlen : ((s.drop i).take (j - i)).length = j - i := by
      rw [List.length_take, List.length_drop]
      omega
    rw [hlen, Nat.add_sub_cancel' hij] at hadd
    have hbody : w.body (s.drop i) =
        w.body ((s.drop i).take (j - i)) ++ w.body ((s.drop i).drop (j - i)) := by
      rw [← body_append, hsplit]
    rw [hadd, Nat.add_sub_cancel_left, hbody]
    exact List.take_left' rfl
  · have htake : (s.drop i).take (j - i) = s.drop i :=
      List.take_of_length_le (by rw [List.length_drop]; omega)
    rw [htake, List.length_drop, Nat.add_sub_cancel' hi] at hadd
    have hle : w.offset s s.length ≤ w.offset s j := offset_le_iff.mpr hj
    rw [htake, List.take_of_length_le (by omega)]

/-! ### Lines -/

/-- What is spelled in front of a line feed. -/
def ending (w : Spelling) : List Char := if w.returns then ['\r'] else []

/-- Lines with what is spelled in front of the line feeds between them. -/
def breakLines (w : Spelling) : List (List Char) → List (List Char)
  | [] => []
  | [l] => [l]
  | l :: m :: ls => (l ++ w.ending) :: w.breakLines (m :: ls)

/-- Only the last line is left as it is. -/
lemma breakLines_concat (init : List (List Char)) (last : List Char) :
    w.breakLines (init ++ [last]) = init.map (· ++ w.ending) ++ [last] := by
  induction init with
  | nil => rfl
  | cons l init ih =>
      obtain ⟨k, ks, hks⟩ := List.exists_cons_of_ne_nil (l := init ++ [last]) (by simp)
      rw [List.cons_append, hks, breakLines, ← hks, ih, List.map_cons, List.cons_append]

lemma char_lineFeed_eq (w : Spelling) : w.char '\n' = w.ending ++ ['\n'] := w.char_lineFeed

/-- Lines are put together to the spelling of the text that they make. -/
lemma body_joinLines : ∀ {ls : List (List Char)}, (∀ l ∈ ls, '\n' ∉ l) →
    w.body (joinLines ls) = joinLines (w.breakLines ls)
  | [], _ => rfl
  | [l], h => body_of_not_mem (h l List.mem_cons_self)
  | l :: m :: ls, h => by
      have ih := body_joinLines fun k (hk : k ∈ m :: ls) => h k (List.mem_cons_of_mem l hk)
      have hne : w.breakLines (m :: ls) ≠ [] := by cases ls <;> simp [breakLines]
      obtain ⟨k, ks, hks⟩ := List.exists_cons_of_ne_nil hne
      rw [hks] at ih
      rw [joinLines, joinWith, ← joinLines, body_append, body_append, body_singleton,
        char_lineFeed_eq, body_of_not_mem (h l List.mem_cons_self), ih, breakLines, hks, joinLines,
        joinLines, joinWith]
      simp only [List.append_assoc]

/-- No line of a spelled text holds a line feed. -/
lemma not_mem_breakLines : ∀ {ls : List (List Char)}, (∀ l ∈ ls, '\n' ∉ l) →
    ∀ l ∈ w.breakLines ls, '\n' ∉ l
  | [], _, l, hl => by cases hl
  | [k], h, l, hl => h l hl
  | k :: m :: ls, h, l, hl => by
      rw [breakLines] at hl
      rcases List.mem_cons.mp hl with rfl | hl
      · have hending : '\n' ∉ w.ending := by
          rw [ending]
          split <;> decide
        exact fun hmem => (List.mem_append.mp hmem).elim (h k List.mem_cons_self) hending
      · exact not_mem_breakLines (fun k hk => h k (List.mem_cons_of_mem _ hk)) l hl

/-- The lines of a spelled text. -/
lemma lines_body (s : List Char) : lines (w.body s) = w.breakLines (lines s) := by
  have hlines : ∀ l ∈ lines s, '\n' ∉ l := fun l hl => not_mem_of_mem_splitOn hl
  have hne : w.breakLines (lines s) ≠ [] := by
    have hs := splitOn_ne_nil '\n' s
    rw [lines]
    generalize splitOn '\n' s = ls at hs
    rcases ls with _ | ⟨l, _ | ⟨m, ls⟩⟩
    · exact absurd rfl hs
    · simp [breakLines]
    · simp [breakLines]
  have hjoin : joinLines (lines s) = s := joinWith_splitOn '\n' s
  conv => lhs; rw [← hjoin, body_joinLines hlines]
  exact splitOn_joinWith hne (not_mem_breakLines hlines)

/-! ### Classes of characters -/

variable {p : Char → Bool}

/-- A spelled character is of a class with both parts of a line break if the character is. -/
lemma all_char (hp : p '\r' = p '\n') (c : Char) : (w.char c).all p = p c := by
  rw [char]
  split
  · next hc =>
      simp only [Bool.and_eq_true, beq_iff_eq] at hc
      simp [hc.2, hp]
  · simp

/-- A class that holds neither part of a line break, or both, is left at the same place. -/
lemma dropWhile_body (hp : p '\r' = p '\n') (s : List Char) :
    (w.body s).dropWhile p = w.body (s.dropWhile p) := by
  induction s with
  | nil => rfl
  | cons c s ih =>
      have hall := all_char (w := w) hp c
      by_cases hc : p c
      · rw [hc, List.all_eq_true] at hall
        rw [body_cons, List.dropWhile_append_of_pos hall, ih, List.dropWhile_cons_of_pos hc]
      · rw [List.dropWhile_cons_of_neg hc, body_cons, char]
        split
        · next hfeed =>
            simp only [Bool.and_eq_true, beq_iff_eq] at hfeed
            refine List.dropWhile_cons_of_neg ?_
            rw [hp, ← hfeed.2]
            exact hc
        · exact List.dropWhile_cons_of_neg hc

/-- A run of such a class is spelled as one. -/
lemma takeWhile_body (hp : p '\r' = p '\n') (s : List Char) :
    (w.body s).takeWhile p = w.body (s.takeWhile p) := by
  have hparts : (w.body s).takeWhile p ++ (w.body s).dropWhile p =
      w.body (s.takeWhile p) ++ (w.body s).dropWhile p := by
    rw [List.takeWhile_append_dropWhile, dropWhile_body hp, ← body_append,
      List.takeWhile_append_dropWhile]
  exact List.append_cancel_right hparts

/-- A run of a class without line breaks is spelled as it is. -/
lemma takeWhile_body_of_eq_false (hr : p '\r' = false) (hn : p '\n' = false) (s : List Char) :
    (w.body s).takeWhile p = s.takeWhile p := by
  rw [takeWhile_body (hr.trans hn.symm), body_of_not_mem]
  intro hmem
  have := List.mem_takeWhile_imp hmem
  rw [hn] at this
  cases this

/-- A class with both parts of a line break is stripped at the end before or after spelling. -/
lemma stripEndIf_body (hr : p '\r' = true) (hn : p '\n' = true) (s : List Char) :
    stripEndIf p (w.body s) = w.body (stripEndIf p s) := by
  induction s using List.reverseRecOn with
  | nil => rfl
  | append_singleton s c ih =>
      rw [body_append, body_singleton, stripEndIf_append_singleton p s c]
      by_cases hc : c = '\n'
      · rw [hc, if_pos hn, ← ih, char_lineFeed]
        cases w.returns with
        | false => rw [if_neg (by simp), List.nil_append, stripEndIf_append_singleton, if_pos hn]
        | true =>
            rw [if_pos rfl, ← List.append_assoc, stripEndIf_append_singleton, if_pos hn,
              stripEndIf_append_singleton, if_pos hr]
      · rw [char_of_ne hc, stripEndIf_append_singleton, ih, apply_ite w.body, body_append,
          body_singleton, char_of_ne hc]

/-- White space at the two ends is stripped before or after spelling. -/
lemma strip_body (s : List Char) : strip (w.body s) = w.body (strip s) := by
  have hr : isBlank '\r' = true := by decide
  have hn : isBlank '\n' = true := by decide
  rw [strip, strip, stripIf, stripIf, dropWhile_body (hr.trans hn.symm), stripEndIf_body hr hn]

end Spelling

end YamlNavigator
