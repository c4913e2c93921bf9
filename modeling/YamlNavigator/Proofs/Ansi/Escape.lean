import Mathlib.Data.List.DropRight
import Mathlib.Data.Nat.Digits.Defs
import YamlNavigator.Ansi.Escape
import YamlNavigator.Ansi.Style
import YamlNavigator.Proofs.Text.Parts

/-!
Taking the styles away from a text with codes.

* `stripSelections`: a text without the sequences that select styles;
* `Leaves`: what a text leaves when styles are taken away, whatever follows it;
* `toList_sequence`: the sequence of a list of codes as it is written;
* `behindReturn`, `plain_coded`: the part of a line that is shown;
* `isClipped`, `kept`, `exists_cleanBlank_coded`: what is kept of a text with codes around it.
-/

namespace YamlNavigator.Ansi

open Text

/-! ### Taking styles away -/

/-- Can the character stand between the bracket and the letter of a sequence that selects styles? -/
def isSelector (c : Char) : Bool := c.isDigit || c = ';'

/-- The length of the sequence at the front of a text that selects styles, if one is there; the text
begins behind an escape, which is not counted. -/
def selectionLength? : List Char → Option Nat
  | '[' :: s =>
      let selectors := s.takeWhile isSelector
      if (s.drop selectors.length).head? = some 'm' then some (selectors.length + 2) else none
  | _ => none

/-- A text without the sequences that select styles. The number counts the characters of a sequence
that are still to be passed over. -/
def stripFrom (pass : Nat) : List Char → List Char
  | [] => []
  | c :: s =>
      match pass with
      | n + 1 => stripFrom n s
      | 0 =>
          match (if c = escape then selectionLength? s else none) with
          | some n => stripFrom n s
          | none => c :: stripFrom 0 s

/-- A text without the sequences that select styles. -/
def stripSelections (s : List Char) : List Char := stripFrom 0 s

/-- A text leaves `kept` when styles are taken away, whatever follows it. -/
def Leaves (out kept : List Char) : Prop :=
  ∀ rest, stripSelections (out ++ rest) = kept ++ stripSelections rest

namespace Leaves

variable {out out' kept kept' : List Char}

/-- The text alone. -/
lemma strip_eq (h : Leaves out kept) : stripSelections out = kept := by
  have := h []
  rwa [List.append_nil, stripSelections, stripSelections, stripFrom, List.append_nil] at this

/-- Nothing leaves nothing. -/
lemma nil : Leaves [] [] := fun _ => rfl

/-- Texts that follow one another. -/
lemma append (h : Leaves out kept) (h' : Leaves out' kept') :
    Leaves (out ++ out') (kept ++ kept') := by
  intro rest
  rw [List.append_assoc, h, h', List.append_assoc]

/-- A text without escapes is left. -/
lemma of_not_mem (h : escape ∉ out) : Leaves out out := by
  induction out with
  | nil => exact nil
  | cons c s ih =>
      obtain ⟨hc, hs⟩ := not_or.mp fun hmem => h (List.mem_cons.mpr hmem)
      intro rest
      rw [List.cons_append, stripSelections, stripFrom, if_neg (Ne.symm hc), ← stripSelections,
        ih hs, List.cons_append]

end Leaves

/-- The characters of a sequence are passed over. -/
lemma stripFrom_append (s rest : List Char) :
    stripFrom s.length (s ++ rest) = stripFrom 0 rest := by
  induction s with
  | nil => rfl
  | cons c s ih => rw [List.length_cons, List.cons_append, stripFrom, ih]

/-! ### Sequences that select styles -/

/-- What stands between the bracket and the letter of the sequence that selects a list of codes. -/
def selectors (codes : List Nat) : List Char :=
  joinWith [';'] (codes.map fun n => (toString n).toList)

/-- The sequence that selects a list of codes, without its escape. -/
def selection (codes : List Nat) : List Char := '[' :: (selectors codes ++ ['m'])

/-- Codes are written with digits and semicolons. -/
lemma isSelector_of_mem_selectors {codes : List Nat} {c : Char} (h : c ∈ selectors codes) :
    isSelector c = true := by
  rcases mem_joinWith h with h | ⟨p, hp, h⟩
  · rw [List.mem_singleton.mp h]
    rfl
  · obtain ⟨n, -, rfl⟩ := List.mem_map.mp hp
    rw [isSelector, (digits_toString n).2 c h]
    rfl

/-- The sequence that selects a list of codes as it is written. -/
lemma toList_sequence (codes : List Nat) :
    (Style.sequence codes).toList = escape :: selection codes := by
  rw [Style.sequence, selection, selectors, joinWith_eq_intercalate, String.toList_append,
    String.toList_append, String.toList_intercalate, List.map_map]
  rfl

/-- A sequence that selects styles leaves nothing. -/
lemma leaves_sequence (codes : List Nat) : Leaves (Style.sequence codes).toList [] := by
  intro rest
  have hm : isSelector 'm' = false := by decide
  have hselectors : ∀ c ∈ selectors codes, isSelector c = true := fun c =>
    isSelector_of_mem_selectors
  have hlength : selectionLength? (selection codes ++ rest) = some (selection codes).length := by
    rw [selection, List.cons_append, selectionLength?, List.append_assoc,
      List.takeWhile_append_of_pos hselectors, List.singleton_append,
      List.takeWhile_cons_of_neg (by simp [hm]), List.append_nil, List.drop_left,
      if_pos (by rw [List.head?_cons])]
    simp
  rw [toList_sequence, List.cons_append, stripSelections, stripFrom, if_pos rfl, hlength]
  exact stripFrom_append (selection codes) rest

/-! ### Parts of lines -/

/-- The characters of a sequence are passed over. -/
lemma partsFrom_append (s rest : List Char) :
    partsFrom s.length (s ++ rest) = partsFrom 0 rest := by
  induction s with
  | nil => rfl
  | cons c s ih => rw [List.length_cons, List.cons_append, partsFrom, ih]

/-- The parts of a text without escapes are its characters. -/
lemma partsFrom_of_not_mem {s : List Char} (h : escape ∉ s) (rest : List Char) :
    partsFrom 0 (s ++ rest) = s.map Part.char ++ partsFrom 0 rest := by
  induction s with
  | nil => rfl
  | cons c s ih =>
      obtain ⟨hc, hs⟩ := not_or.mp fun hmem => h (List.mem_cons.mpr hmem)
      rw [List.cons_append, partsFrom, if_neg (Ne.symm hc), ih hs, List.map_cons, List.cons_append]

/-- A sequence that selects styles is one part. -/
lemma partsFrom_sequence (codes : List Nat) (rest : List Char) :
    partsFrom 0 ((Style.sequence codes).toList ++ rest) =
      .sequence (selection codes) :: partsFrom 0 rest := by
  have hselectors : ∀ c ∈ selectors codes, inSpan 0x30 0x3f c = true := by
    intro c hc
    have hselector := isSelector_of_mem_selectors hc
    rw [isSelector, Bool.or_eq_true, decide_eq_true_eq] at hselector
    rcases hselector with hdigit | rfl
    · obtain ⟨hlo, hhi⟩ := toNat_of_charIsDigit hdigit
      rw [inSpan, Bool.and_eq_true, decide_eq_true_eq, decide_eq_true_eq]
      omega
    · rfl
  have hparameter : inSpan 0x30 0x3f 'm' = false := by decide
  have hintermediate : inSpan 0x20 0x2f 'm' = false := by decide
  have hlast : inSpan 0x40 0x7e 'm' = true := by decide
  have hbracket : bracketLength? (selectors codes ++ ['m'] ++ rest) =
      some ((selectors codes).length + 1) := by
    rw [bracketLength?, List.append_assoc, List.takeWhile_append_of_pos hselectors,
      List.singleton_append, List.takeWhile_cons_of_neg (by simp [hparameter]), List.append_nil,
      List.drop_left, List.takeWhile_cons_of_neg (by simp [hintermediate])]
    simp [hlast]
  have hlength : sequenceLength? (selection codes ++ rest) = some (selection codes).length := by
    show (bracketLength? (selectors codes ++ ['m'] ++ rest)).map (· + 1) = _
    rw [hbracket]
    simp [selection]
  rw [toList_sequence, List.cons_append, partsFrom, if_pos rfl, hlength]
  dsimp only
  rw [List.take_left, partsFrom_append]

/-- The characters of a text are shown if none of them is hidden. -/
lemma shownChars_append {s : List Char} (h : ∀ c ∈ s, isHidden c = false) (ps : List Part) :
    shownChars false (s.map Part.char ++ ps) = s ++ shownChars false ps := by
  induction s with
  | nil => rfl
  | cons c s ih =>
      rw [List.map_cons, List.cons_append, shownChars, h c List.mem_cons_self,
        ih fun d hd => h d (List.mem_cons_of_mem c hd)]
      rfl

/-- Nothing of a sequence that selects styles is shown. -/
lemma shownChars_selection (codes : List Nat) (ps : List Part) :
    shownChars false (.sequence (selection codes) :: ps) = shownChars false ps := by
  have hset : (selection codes == ['(']) = false := by
    rw [selection, beq_eq_false_iff_ne]
    simp
  rw [shownChars, hset]

/-- The codes of a sequence that selects styles are those that it is written with. -/
lemma exists_of_mem_codes {codes : List Nat} {code : List Char}
    (h : code ∈ (Part.sequence (selection codes)).codes) :
    code = [] ∨ ∃ n ∈ codes, code = (toString n).toList := by
  rw [selection, Part.codes, List.getLast?_concat, beq_self_eq_true, if_pos rfl,
    List.dropLast_concat, selectors] at h
  have hmem := List.mem_of_mem_filter h
  rcases codes with _ | ⟨n, codes⟩
  · exact .inl (List.mem_singleton.mp hmem)
  · have hsemicolon : ∀ p ∈ (n :: codes).map fun n => (toString n).toList, ';' ∉ p := by
      intro p hp hmem
      obtain ⟨k, -, rfl⟩ := List.mem_map.mp hp
      exact absurd ((digits_toString k).2 ';' hmem) (by decide)
    rw [splitOn_joinWith (by simp) hsemicolon] at hmem
    obtain ⟨k, hk, rfl⟩ := List.mem_map.mp hmem
    exact .inr ⟨k, hk, rfl⟩

/-- Are the codes short enough to be read? They have five digits at most. -/
def AreShort (codes : List Nat) : Prop := ∀ n ∈ codes, n < 10 ^ 5

/-- Short codes can be read. -/
lemma length_le_of_mem_codes {codes : List Nat} (h : AreShort codes) {code : List Char}
    (hcode : code ∈ (Part.sequence (selection codes)).codes) :
    code.length ≤ Integer.digitLimit := by
  rcases exists_of_mem_codes hcode with rfl | ⟨n, hn, rfl⟩
  · exact Nat.zero_le _
  · have hlength : (Nat.repr n).length ≤ 5 := Nat.repr_length n 5 (by decide) (h n hn)
    rw [String.length_toList]
    exact hlength.trans (by decide)

/-- The codes of a line can be read if they are short enough. -/
lemma checkCodes_eq_ok {ps : List Part}
    (h : ∀ p ∈ ps, ∀ code ∈ p.codes, code.length ≤ Integer.digitLimit) :
    checkCodes ps = .ok () := by
  have hnone : (ps.flatMap Part.codes).find? (fun code => Integer.digitLimit < code.length) =
      none := by
    rw [List.find?_eq_none]
    intro code hcode
    obtain ⟨p, hp, hcode⟩ := List.mem_flatMap.mp hcode
    simpa using h p hp code hcode
  rw [checkCodes, hnone]

/-! ### Behind returns -/

/-- The part of a line behind its last carriage return. -/
def behindReturn (s : List Char) : List Char := s.rtakeWhile (· != '\r')

/-- A line without carriage returns is all behind the last one. -/
lemma behindReturn_of_not_mem {s : List Char} (h : '\r' ∉ s) : behindReturn s = s := by
  rw [behindReturn, List.rtakeWhile_eq_self_iff]
  intro c hc
  rw [bne_iff_ne]
  rintro rfl
  exact h hc

/-- No carriage return is behind the last one. -/
lemma not_mem_behindReturn (s : List Char) : '\r' ∉ behindReturn s := by
  intro h
  have := List.mem_rtakeWhile_imp h
  simp at this

/-- What is behind the last carriage return is the end of the line. -/
lemma behindReturn_suffix (s : List Char) : behindReturn s <:+ s := List.rtakeWhile_suffix _ s

/-- A text without carriage returns is behind them. -/
lemma behindReturn_append {t : List Char} (h : '\r' ∉ t) (s : List Char) :
    behindReturn (s ++ t) = behindReturn s ++ t := by
  have hall : ∀ c ∈ t.reverse, (c != '\r') = true := by
    intro c hc
    rw [bne_iff_ne]
    rintro rfl
    exact h (List.mem_reverse.mp hc)
  rw [behindReturn, List.rtakeWhile, List.reverse_append, List.takeWhile_append_of_pos hall,
    List.reverse_append, List.reverse_reverse]
  rfl

/-- What is in front of a carriage return is not behind the last one. -/
lemma behindReturn_append_of_mem {t : List Char} (h : '\r' ∈ t) (s : List Char) :
    behindReturn (s ++ t) = behindReturn t := by
  have hlength : (t.reverse.takeWhile (· != '\r')).length ≠ t.reverse.length := by
    intro heq
    have hself := (List.takeWhile_prefix (· != '\r')).eq_of_length heq
    have hreturn := List.mem_reverse.mpr h
    rw [← hself] at hreturn
    exact not_mem_behindReturn t (List.mem_reverse.mpr hreturn)
  rw [behindReturn, List.rtakeWhile, List.reverse_append, List.takeWhile_append, if_neg hlength]
  rfl

/-! ### Texts with codes -/

/-- A text with the sequence of its codes in front and the end of all styles behind. -/
def coded (codes : List Nat) (s : List Char) : List Char :=
  (Style.sequence codes).toList ++ s ++ (Style.sequence [0]).toList

/-- A text with codes leaves the text. -/
lemma leaves_coded {s : List Char} (h : escape ∉ s) (codes : List Nat) :
    Leaves (coded codes s) s := by
  have hleaves := ((leaves_sequence codes).append (.of_not_mem h)).append (leaves_sequence [0])
  rwa [List.nil_append, List.append_nil] at hleaves

/-- A sequence that selects styles holds no line break. -/
lemma not_mem_sequence (codes : List Nat) :
    '\r' ∉ (Style.sequence codes).toList ∧ '\n' ∉ (Style.sequence codes).toList := by
  have hselectors : ∀ c, isSelector c = false → c ∉ selectors codes := by
    intro c hc hmem
    rw [isSelector_of_mem_selectors hmem] at hc
    cases hc
  rw [toList_sequence, selection]
  simp [escape, hselectors '\r' (by decide), hselectors '\n' (by decide)]

/-- A text that holds no line feed, no escape, and of the characters that are not shown only
carriage returns. -/
structure IsShown (s : List Char) : Prop where
  lineFeed : '\n' ∉ s
  escape : escape ∉ s
  hidden : ∀ c ∈ s, isHidden c = true → c = '\r'

/-- A text with codes is one line. -/
lemma lines_coded {s : List Char} (h : '\n' ∉ s) (codes : List Nat) :
    lines (coded codes s) = [coded codes s] := by
  refine splitOn_of_not_mem ?_
  rw [coded, List.mem_append, List.mem_append]
  rintro ((hc | hc) | hc)
  · exact (not_mem_sequence codes).2 hc
  · exact h hc
  · exact (not_mem_sequence [0]).2 hc

/-- The parts of a text with codes behind its last carriage return: the codes in front are left out
with what is in front of a carriage return. -/
lemma exists_partsFrom_coded {s : List Char} (h : escape ∉ s) (codes : List Nat) :
    ∃ front, (∀ p ∈ front, p = Part.sequence (selection codes)) ∧
      partsFrom 0 (behindReturn (coded codes s)) =
        front ++ ((behindReturn s).map Part.char ++ [.sequence (selection [0])]) := by
  have hend : ∀ t, escape ∉ t → partsFrom 0 (t ++ (Style.sequence [0]).toList) =
      t.map Part.char ++ [.sequence (selection [0])] := by
    intro t ht
    have hsequence := partsFrom_sequence [0] []
    rw [List.append_nil] at hsequence
    rw [partsFrom_of_not_mem ht, hsequence, partsFrom]
  rw [coded, behindReturn_append (not_mem_sequence [0]).1]
  by_cases hreturn : '\r' ∈ s
  · refine ⟨[], by simp, ?_⟩
    rw [behindReturn_append_of_mem hreturn, List.nil_append]
    exact hend _ fun hc => h ((behindReturn_suffix s).subset hc)
  · refine ⟨[.sequence (selection codes)], by simp, ?_⟩
    rw [behindReturn_append hreturn, behindReturn_of_not_mem (not_mem_sequence codes).1,
      behindReturn_of_not_mem hreturn, List.append_assoc, partsFrom_sequence, hend _ h]
    rfl

/-- Nothing of sequences that select styles is shown. -/
lemma shownChars_front {codes : List Nat} {front : List Part}
    (h : ∀ p ∈ front, p = Part.sequence (selection codes)) (ps : List Part) :
    shownChars false (front ++ ps) = shownChars false ps := by
  induction front with
  | nil => rfl
  | cons p front ih =>
      rw [List.cons_append, h p List.mem_cons_self, shownChars_selection,
        ih fun q hq => h q (List.mem_cons_of_mem p hq)]

/-- Of a text with codes the part behind its last carriage return is shown. -/
lemma plain_coded {codes : List Nat} (hcodes : AreShort codes) {s : List Char} (h : IsShown s) :
    plain (coded codes s) = .ok (behindReturn s) := by
  obtain ⟨front, hfront, hparts⟩ := exists_partsFrom_coded h.escape codes
  have hshown : ∀ c ∈ behindReturn s, isHidden c = false := by
    intro c hc
    by_contra hhidden
    obtain rfl := h.hidden c ((behindReturn_suffix s).subset hc) ((Bool.not_eq_false _).mp hhidden)
    exact not_mem_behindReturn s hc
  have hcheck : checkCodes (front ++ ((behindReturn s).map Part.char ++
      [.sequence (selection [0])])) = .ok () := by
    refine checkCodes_eq_ok fun p hp code hcode => ?_
    have hzero : AreShort [0] := by simp [AreShort]
    simp only [List.mem_append, List.mem_map, List.mem_singleton] at hp
    rcases hp with hp | ⟨c, -, rfl⟩ | rfl
    · rw [hfront p hp] at hcode
      exact length_le_of_mem_codes hcodes hcode
    · cases hcode
    · exact length_le_of_mem_codes hzero hcode
  have hchars : shownChars false (front ++ ((behindReturn s).map Part.char ++
      [.sequence (selection [0])])) = behindReturn s := by
    rw [shownChars_front hfront, shownChars_append hshown, shownChars_selection, shownChars,
      List.append_nil]
  have hline : plainLine (coded codes s) = .ok (behindReturn s) := by
    show (do
      checkCodes (partsFrom 0 (behindReturn (coded codes s)))
      return shownChars false (partsFrom 0 (behindReturn (coded codes s)))) = _
    rw [hparts, hcheck, hchars]
    rfl
  rw [plain, lines_coded h.lineFeed, List.mapM_cons, hline]
  rfl

/-- Is a part of a text lost when its codes are decoded? It has a carriage return, and what is
behind its last one is blank, but not empty. -/
def isClipped (s : List Char) : Bool :=
  s.contains '\r' && !(behindReturn s).isEmpty && isBlankText (behindReturn s)

/-- What is kept of a text when its codes are decoded. -/
def kept (s : List Char) : List Char := if isClipped s then behindReturn s else s

/-- A text of which only blanks are shown is replaced by them. -/
lemma kept_eq (s : List Char) :
    kept s = if !(behindReturn s).isEmpty && isBlankText (behindReturn s) then behindReturn s
      else s := by
  rw [kept, isClipped, Bool.and_assoc]
  by_cases hreturn : '\r' ∈ s
  · rw [List.contains_iff_mem.mpr hreturn, Bool.true_and]
  · rw [behindReturn_of_not_mem hreturn, ite_self, ite_self]

/-- All of a text is kept if and only if it is not clipped. -/
lemma kept_eq_self_iff {s : List Char} : kept s = s ↔ isClipped s = false := by
  rw [kept]
  split
  · next h =>
      refine iff_of_false (fun heq => ?_) (by simp [h])
      rw [isClipped, Bool.and_eq_true, Bool.and_eq_true, List.contains_iff_mem] at h
      have hreturn := h.1.1
      rw [← heq] at hreturn
      exact not_mem_behindReturn s hreturn
  · next h => exact iff_of_true rfl ((Bool.not_eq_true _).mp h)

/-- The end of a text is kept. -/
lemma kept_suffix (s : List Char) : kept s <:+ s := by
  rw [kept]
  split
  · exact behindReturn_suffix s
  · exact List.suffix_rfl

/-- **A text with codes that is cleaned of blanks leaves what is kept of it.** -/
theorem exists_cleanBlank_coded {codes : List Nat} (hcodes : AreShort codes) {s : List Char}
    (h : IsShown s) :
    ∃ out, cleanBlank (String.ofList (coded codes s)) = .ok out ∧ Leaves out.toList (kept s) := by
  have hescape : (coded codes s).contains escape = true := by
    rw [List.contains_iff_mem, coded, toList_sequence]
    simp
  rw [cleanBlank, String.toList_ofList, hescape, plain_coded hcodes h, kept_eq]
  refine ⟨_, rfl, ?_⟩
  dsimp only
  split
  · rw [String.toList_ofList]
    exact .of_not_mem fun hc => h.escape ((behindReturn_suffix s).subset hc)
  · rw [String.toList_ofList]
    exact leaves_coded h.escape codes

/-- A text without escapes is not cleaned. -/
lemma cleanBlank_of_not_mem {s : List Char} (h : escape ∉ s) :
    cleanBlank (String.ofList s) = .ok (String.ofList s) := by
  rw [cleanBlank, String.toList_ofList, if_pos]
  simpa using h

end YamlNavigator.Ansi
