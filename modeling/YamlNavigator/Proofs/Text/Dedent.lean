import Mathlib.Data.List.Infix
import Mathlib.Data.List.TakeWhile
import YamlNavigator.Proofs.Text.Lines
import YamlNavigator.Text.Blank
import YamlNavigator.Text.Dedent

/-!
Blocks of lines that are moved to the left margin.

* `Text.prefix_commonPrefix_iff`: what two texts have in common is their meet in the order of
  prefixes;
* `Text.IsMargin`, `Text.isMargin_marginOf`: the margin of lines is the meet of the spaces and tabs
  in front of their contents;
* `Text.moveLine`, `Text.dedentLines`, `Text.dedent_eq`: a block is moved line by line;
* `Text.dedentLines_cons`: lines that are indented as far as the first one lose that much.
-/

namespace YamlNavigator.Text

/-! ### Common prefixes -/

/-- Two texts have in common whatever both begin with. -/
lemma prefix_commonPrefix_iff : ∀ {u s t : List Char},
    u <+: commonPrefix s t ↔ u <+: s ∧ u <+: t
  | [], _, _ => by simp
  | _ :: _, [], _ => by simp [commonPrefix]
  | _ :: _, _ :: _, [] => by simp [commonPrefix]
  | b :: u, c :: s, d :: t => by
      rw [commonPrefix, List.cons_prefix_cons, List.cons_prefix_cons]
      split
      · next h =>
          subst h
          rw [List.cons_prefix_cons, prefix_commonPrefix_iff, and_and_left]
      · next h =>
          simp only [List.prefix_nil, reduceCtorEq, false_iff]
          rintro ⟨⟨rfl, -⟩, rfl, -⟩
          exact h rfl

/-! ### Margins -/

/-- A line of spaces and tabs only. -/
def isMarginLine (l : List Char) : Bool := l.all isMarginChar

/-- The lines with more than spaces and tabs. -/
def contentLines (ls : List (List Char)) : List (List Char) := ls.filter fun l => !isMarginLine l

/-- What stands in front of the content of a line. -/
def indentation (l : List Char) : List Char := l.takeWhile isMarginChar

/-- The margin of lines, of which those with spaces and tabs only do not count. -/
def marginOf (ls : List (List Char)) : List Char := (margin? (clearBlankLines ls)).getD []

/-- The margin of lines is the longest text that the indentations of all lines with more than spaces
and tabs begin with: their meet in the order of prefixes. -/
def IsMargin (ls : List (List Char)) (m : List Char) : Prop :=
  ∀ m', m' <+: m ↔ ∀ l ∈ ls, isMarginLine l = false → m' <+: indentation l

namespace IsMargin

variable {ls : List (List Char)} {m m' l : List Char}

/-- Lines have one margin. -/
lemma unique (h : IsMargin ls m) (h' : IsMargin ls m') : m' = m := by
  have hle : m' <+: m := (h m').mpr ((h' m').mp List.prefix_rfl)
  have hge : m <+: m' := (h' m).mpr ((h m).mp List.prefix_rfl)
  exact hle.eq_of_length_le hge.length_le

/-- The lines that count begin with their margin. -/
lemma prefix_indentation (h : IsMargin ls m) (hl : l ∈ ls) (hcontent : isMarginLine l = false) :
    m <+: indentation l := (h m).mp List.prefix_rfl l hl hcontent

end IsMargin

/-- What a text and the indentations of lines have in common. -/
def narrowTo (m : List Char) (ls : List (List Char)) : List Char :=
  ls.foldl (fun m l => commonPrefix m (indentation l)) m

lemma prefix_narrowTo_iff {u : List Char} (ls : List (List Char)) (m : List Char) :
    u <+: narrowTo m ls ↔ u <+: m ∧ ∀ l ∈ ls, u <+: indentation l := by
  induction ls generalizing m with
  | nil => simp [narrowTo]
  | cons l ls ih =>
      have hrest : u <+: narrowTo (commonPrefix m (indentation l)) ls ↔ _ := ih _
      rw [prefix_commonPrefix_iff] at hrest
      rw [narrowTo, List.foldl_cons, ← narrowTo, hrest, List.forall_mem_cons, and_assoc]

/-- The margin is narrowed line by line, beginning with the first one that counts. -/
lemma margin?_clearBlankLines (ls : List (List Char)) : margin? (clearBlankLines ls) =
    match contentLines ls with
    | [] => none
    | l :: more => some (narrowTo (indentation l) more) := by
  have hcontents : margin? (clearBlankLines ls) = (contentLines ls).foldl
      (fun m l => some (m.elim (indentation l) (commonPrefix · (indentation l)))) none := by
    rw [margin?, clearBlankLines, List.foldl_map, contentLines, List.foldl_filter]
    refine congrArg (List.foldl · none ls) (funext fun m => funext fun l => ?_)
    rw [← isMarginLine]
    cases hl : isMarginLine l with
    | true => rfl
    | false =>
        have hne : l.isEmpty = false := by
          cases l with
          | nil => cases hl
          | cons c l => rfl
        simp only [Bool.false_eq_true, if_false, hne, Bool.not_false, if_true]
        cases m <;> rfl
  rw [hcontents]
  cases contentLines ls with
  | nil => rfl
  | cons l more =>
      rw [List.foldl_cons]
      exact List.foldl_hom some fun m l => show _ = some (commonPrefix m (indentation l)) from rfl

/-- **The margin of lines** is the longest that they share, if one of them has more than spaces and
tabs. -/
theorem isMargin_marginOf {ls : List (List Char)} (h : ∃ l ∈ ls, isMarginLine l = false) :
    IsMargin ls (marginOf ls) := by
  have hmem : ∀ {l}, l ∈ contentLines ls ↔ l ∈ ls ∧ isMarginLine l = false := by
    simp [contentLines]
  obtain ⟨l, more, hcontents⟩ : ∃ l more, contentLines ls = l :: more := by
    obtain ⟨l, hl⟩ := h
    exact List.exists_cons_of_ne_nil (List.ne_nil_of_mem (hmem.mpr hl))
  intro m'
  rw [marginOf, margin?_clearBlankLines, hcontents]
  show m' <+: narrowTo (indentation l) more ↔ _
  rw [prefix_narrowTo_iff, ← List.forall_mem_cons (p := fun l => m' <+: indentation l), ← hcontents]
  exact ⟨fun h l hl hcontent => h l (hmem.mpr ⟨hl, hcontent⟩),
    fun h l hl => h l (hmem.mp hl).1 (hmem.mp hl).2⟩

/-! ### Moving lines -/

/-- A line that is moved to the left; with spaces and tabs only it becomes empty. -/
def moveLine (width : Nat) (l : List Char) : List Char :=
  if isMarginLine l then [] else l.drop width

/-- Lines without their margin. -/
def dedentLines (ls : List (List Char)) : List (List Char) :=
  ls.map (moveLine (marginOf ls).length)

section Moving

variable {ls : List (List Char)} {l : List Char} {width : Nat}

lemma moveLine_of_margin (h : isMarginLine l = true) : moveLine width l = [] := if_pos h

lemma moveLine_of_content (h : isMarginLine l = false) : moveLine width l = l.drop width := by
  rw [moveLine, h, if_neg (by decide)]

/-- A line with more than spaces and tabs begins with the margin. -/
lemma marginOf_isPrefix (hl : l ∈ ls) (h : isMarginLine l = false) : marginOf ls <+: l :=
  ((isMargin_marginOf ⟨l, hl, h⟩).prefix_indentation hl h).trans (List.takeWhile_prefix _)

/-- A line that is moved by less than its indentation or as much becomes empty only if it has spaces
and tabs only. -/
lemma moveLine_eq_nil_iff (h : isMarginLine l = false → width ≤ (indentation l).length) :
    moveLine width l = [] ↔ isMarginLine l = true := by
  cases hcontent : isMarginLine l with
  | true => exact iff_of_true (moveLine_of_margin hcontent) rfl
  | false =>
      rw [moveLine_of_content hcontent, List.drop_eq_nil_iff]
      refine iff_of_false (fun hle => ?_) (by decide)
      -- the whole line would be its indentation
      have hwhole : indentation l = l :=
        (List.takeWhile_prefix _).eq_of_length_le (Nat.le_trans hle (h hcontent))
      have hall : ∀ c ∈ l, isMarginChar c = true := List.takeWhile_eq_self_iff.mp hwhole
      rw [isMarginLine, List.all_eq_false] at hcontent
      obtain ⟨c, hc, hne⟩ := hcontent
      exact hne (hall c hc)

/-- What is left of a line is a part of it. -/
lemma moveLine_suffix (width : Nat) (l : List Char) : moveLine width l <:+ l := by
  rw [moveLine]
  split
  · exact List.nil_suffix
  · exact List.drop_suffix width l

/-- A line that is moved keeps what it is indented by beyond the distance. -/
lemma indentation_moveLine (h : isMarginLine l = false) (hl : List.replicate width ' ' <+: l) :
    indentation l = List.replicate width ' ' ++ indentation (moveLine width l) := by
  have hspaces : ∀ b ∈ List.replicate width ' ', isMarginChar b = true := fun b hb => by
    rw [List.eq_of_mem_replicate hb]
    rfl
  obtain ⟨rest, rfl⟩ := hl
  rw [moveLine_of_content h, List.drop_left' List.length_replicate, indentation,
    List.takeWhile_append_of_pos hspaces, ← indentation]

end Moving

/-- **A block is moved line by line.** -/
theorem dedent_eq (s : List Char) : dedent s = joinLines (dedentLines (lines s)) := by
  rw [dedent, dedentLines, clearBlankLines, List.map_map]
  refine congrArg joinLines (List.map_congr_left fun l hl => ?_)
  rw [Function.comp_apply, ← clearBlankLines, ← marginOf]
  cases hcontent : isMarginLine l with
  | true =>
      rw [if_pos (show l.all isMarginChar = true from hcontent), moveLine_of_margin hcontent,
        dropMargin, List.drop_nil, ite_self]
  | false =>
      rw [if_neg (by rw [← isMarginLine, hcontent]; decide), moveLine_of_content hcontent,
        dropMargin, if_pos (List.isPrefixOf_iff_prefix.mpr (marginOf_isPrefix hl hcontent))]

/-- **Lines that are indented as far as the first one** lose that much. -/
theorem dedentLines_cons {width : Nat} {c : Char} {first : List Char} {later : List (List Char)}
    (hc : isMarginChar c = false)
    (hlater : ∀ l ∈ later, isMarginLine l = false → List.replicate width ' ' <+: l) :
    dedentLines ((List.replicate width ' ' ++ c :: first) :: later) =
      (c :: first) :: later.map (moveLine width) := by
  have hcontent : isMarginLine (List.replicate width ' ' ++ c :: first) = false := by
    rw [isMarginLine, List.all_append, List.all_cons, hc, Bool.false_and, Bool.and_false]
  have hmoved : moveLine width (List.replicate width ' ' ++ c :: first) = c :: first := by
    rw [moveLine_of_content hcontent, List.drop_left' List.length_replicate]
  have hfirst : indentation (List.replicate width ' ' ++ c :: first) =
      List.replicate width ' ' := by
    rw [indentation_moveLine hcontent (List.prefix_append _ _), hmoved, indentation,
      List.takeWhile_cons_of_neg (by simp [hc]), List.append_nil]
  have hmargin : IsMargin ((List.replicate width ' ' ++ c :: first) :: later)
      (List.replicate width ' ') := by
    intro m'
    rw [List.forall_mem_cons, hfirst]
    refine ⟨fun h => ⟨fun _ => h, fun l hl hl' => h.trans ?_⟩, fun h => h.1 hcontent⟩
    rw [indentation_moveLine hl' (hlater l hl hl')]
    exact List.prefix_append _ _
  have hwidth : (marginOf ((List.replicate width ' ' ++ c :: first) :: later)).length = width := by
    rw [hmargin.unique (isMargin_marginOf ⟨_, List.mem_cons_self, hcontent⟩), List.length_replicate]
  rw [dedentLines, hwidth, List.map_cons, hmoved]

end YamlNavigator.Text
