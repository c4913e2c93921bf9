import YamlNavigator.Navigator
import YamlNavigator.Proofs.Document.MirrorTree
import YamlNavigator.Proofs.Document.Nesting
import YamlNavigator.Proofs.Document.Positions
import YamlNavigator.Proofs.Text.Dedent

/-!
The text of a node, moved to the left margin.

* `Parsed.written`, `Parsed.block`: the source of a node, and that source in the column of the node;
* `Parsed.nodeText_eq`: the text of a node is its block, moved line by line;
* `excerpt_moved`: if the lines of a node are indented as far as its first one, they lose that much;
* `Text.BreaksAlike`: blocks that are moved alike whichever line ends they have;
* `strip_dedent_body_iff`: these are the blocks for which the line ends make no difference;
* `excerpt_returned_iff`: the texts of nodes in a text and in the same text with carriage returns;
* `excerpt_returned_margin`: a node that is not moved since a carriage return is in its empty line.
-/

namespace YamlNavigator

open Text Yaml

/-! ### Blocks with other line ends -/

/-- Blocks of one line, and those that begin and end with more than spaces and tabs and in which the
lines with nothing else hold the margin. -/
def Text.BreaksAlike (ls : List (List Char)) : Prop :=
  ls.length = 1 ∨
    (∀ l ∈ ls.head?, isMarginLine l = false) ∧ (∀ l ∈ ls.getLast?, isMarginLine l = false) ∧
      ∀ l ∈ ls, isMarginLine l = true → l = marginOf ls

instance (ls : List (List Char)) : Decidable (BreaksAlike ls) :=
  inferInstanceAs (Decidable (_ ∨ _))

/-- The margin of lines in front of carriage returns. -/
def returnedMargin (ls : List (List Char)) : List Char :=
  marginOf (Spelling.carriageReturns.breakLines ls)

/-- The lines of a block that is moved with carriage returns in front of its line feeds, without
these. -/
def returnedLines (init : List (List Char)) (last : List Char) : List (List Char) :=
  init.map (List.drop (returnedMargin (init ++ [last])).length) ++
    [moveLine (returnedMargin (init ++ [last])).length last]

section LineEnds

variable {init : List (List Char)} {first last l m : List Char}

/-- In front of a carriage return every line has more than spaces and tabs. -/
lemma isMarginLine_append_return (l : List Char) : isMarginLine (l ++ ['\r']) = false := by
  rw [isMarginLine, List.all_append]
  simp [isMarginChar]

/-- In front of carriage returns all lines count for the margin. -/
lemma prefix_returnedMargin_iff (hne : init ≠ []) : m <+: returnedMargin (init ++ [last]) ↔
    (∀ l ∈ init, m <+: indentation l) ∧ (isMarginLine last = false → m <+: indentation last) := by
  have hindent : ∀ l : List Char, indentation (l ++ ['\r']) = indentation l :=
    takeWhile_append_singleton rfl
  have hending : Spelling.carriageReturns.ending = ['\r'] := rfl
  have hmargin : IsMargin (Spelling.carriageReturns.breakLines (init ++ [last]))
      (returnedMargin (init ++ [last])) := by
    refine isMargin_marginOf ?_
    obtain ⟨first, more, rfl⟩ := List.exists_cons_of_ne_nil hne
    refine ⟨first ++ ['\r'], ?_, isMarginLine_append_return first⟩
    rw [Spelling.breakLines_concat]
    exact List.mem_cons_self
  rw [hmargin m, Spelling.breakLines_concat, hending, List.forall_mem_append, List.forall_mem_map,
    List.forall_mem_singleton]
  simp only [isMarginLine_append_return, hindent, forall_const]

/-- Lines in front of carriage returns begin with their margin. -/
lemma returnedMargin_isPrefix (hl : l ∈ init) : returnedMargin (init ++ [last]) <+: l :=
  (((prefix_returnedMargin_iff (List.ne_nil_of_mem hl)).mp List.prefix_rfl).1 l hl).trans
    (List.takeWhile_prefix _)

/-- In front of carriage returns all lines are moved as if they had more than spaces and tabs. -/
lemma dedentLines_breakLines (init : List (List Char)) (last : List Char) :
    dedentLines (Spelling.carriageReturns.breakLines (init ++ [last])) =
      Spelling.carriageReturns.breakLines (returnedLines init last) := by
  rw [dedentLines, ← returnedMargin, returnedLines, Spelling.breakLines_concat,
    Spelling.breakLines_concat, List.map_append, List.map_map, List.map_map, List.map_singleton]
  refine congrArg (· ++ [_]) (List.map_congr_left fun l hl => ?_)
  exact (moveLine_of_content (isMarginLine_append_return l)).trans
    (List.drop_append_of_le_length (returnedMargin_isPrefix hl).length_le)

/-- Lines that hold the margin do not make it shorter where they count. -/
lemma returnedMargin_eq_of_hold (hfirst : isMarginLine first = false)
    (h : ∀ l ∈ first :: init, isMarginLine l = true → l = marginOf (first :: init ++ [last])) :
    returnedMargin (first :: init ++ [last]) = marginOf (first :: init ++ [last]) := by
  have hmargin : IsMargin (first :: init ++ [last]) (marginOf (first :: init ++ [last])) :=
    isMargin_marginOf ⟨first, List.mem_cons_self, hfirst⟩
  refine hmargin.unique fun m => ?_
  rw [prefix_returnedMargin_iff (List.cons_ne_nil first init), List.forall_mem_append,
    List.forall_mem_singleton]
  refine and_congr_left fun hlast => ⟨fun hall l hl _ => hall l hl, fun hcontents l hl => ?_⟩
  cases hblank : isMarginLine l with
  | false => exact hcontents l hl hblank
  | true =>
      have hindent : indentation l = l :=
        List.takeWhile_eq_self_iff.mpr (List.all_eq_true.mp hblank)
      rw [hindent, h l hl hblank, hmargin m, List.forall_mem_append, List.forall_mem_singleton]
      exact ⟨hcontents, hlast⟩

/-- The first line tells how far all lines are moved. -/
lemma returnedMargin_eq_of_drop (hfirst : isMarginLine first = false)
    (h : first.drop (returnedMargin (first :: init ++ [last])).length =
      first.drop (marginOf (first :: init ++ [last])).length) :
    returnedMargin (first :: init ++ [last]) = marginOf (first :: init ++ [last]) := by
  have hfar : returnedMargin (first :: init ++ [last]) <+: first :=
    returnedMargin_isPrefix List.mem_cons_self
  have hown : marginOf (first :: init ++ [last]) <+: first :=
    marginOf_isPrefix List.mem_cons_self hfirst
  have hdrop := congrArg List.length h
  rw [List.length_drop, List.length_drop] at hdrop
  have hlength : (returnedMargin (first :: init ++ [last])).length =
      (marginOf (first :: init ++ [last])).length := by
    have := hfar.length_le
    have := hown.length_le
    omega
  exact (List.prefix_of_prefix_length_le hfar hown hlength.le).eq_of_length hlength

/-- If the first line has more than spaces and tabs, all lines are moved alike in front of carriage
returns if and only if those with nothing else hold the margin. -/
lemma returnedLines_eq_iff (hfirst : isMarginLine first = false) :
    returnedLines (first :: init) last = dedentLines (first :: init ++ [last]) ↔
    ∀ l ∈ first :: init, isMarginLine l = true → l = marginOf (first :: init ++ [last]) := by
  rw [returnedLines, dedentLines, List.map_append, List.map_singleton]
  constructor
  · intro heq l hl hblank
    have hlines := List.map_inj_left.mp (List.append_inj_left' heq rfl)
    have hdrop := hlines first List.mem_cons_self
    rw [moveLine_of_content hfirst] at hdrop
    have hempty := hlines l hl
    rw [moveLine_of_margin hblank, List.drop_eq_nil_iff] at hempty
    rw [← returnedMargin_eq_of_drop hfirst hdrop]
    exact ((returnedMargin_isPrefix hl).eq_of_length_le hempty).symm
  · intro hblanks
    rw [returnedMargin_eq_of_hold hfirst hblanks]
    refine congrArg (· ++ [_]) (List.map_congr_left fun l hl => ?_)
    cases hblank : isMarginLine l with
    | false => exact (moveLine_of_content hblank).symm
    | true => rw [moveLine_of_margin hblank, hblanks l hl hblank, List.drop_length]

/-- No line that is moved holds a line feed. -/
lemma not_mem_returnedLines (h : ∀ l ∈ init ++ [last], '\n' ∉ l) :
    ∀ l ∈ returnedLines init last, '\n' ∉ l := by
  rw [returnedLines, List.forall_mem_append, List.forall_mem_map, List.forall_mem_singleton]
  exact ⟨fun l hl hmem => h l (List.mem_append_left _ hl) (List.mem_of_mem_drop hmem),
    fun hmem => h last (List.mem_append_right _ List.mem_cons_self)
      ((moveLine_suffix _ last).subset hmem)⟩

/-- No line that is moved holds a line feed. -/
lemma not_mem_dedentLines {ls : List (List Char)} (h : ∀ l ∈ ls, '\n' ∉ l) :
    ∀ l ∈ dedentLines ls, '\n' ∉ l := by
  rw [dedentLines, List.forall_mem_map]
  exact fun l hl hmem => h l hl ((moveLine_suffix _ l).subset hmem)

/-- What is left of a block is made of its characters. -/
lemma mem_of_mem_dedent {t : List Char} {c : Char} (h : c ∈ dedent t) (hc : c ≠ '\n') : c ∈ t := by
  rw [dedent_eq] at h
  rcases mem_joinWith h with hmem | ⟨k, hk, hmem⟩
  · exact absurd (List.mem_singleton.mp hmem) hc
  · obtain ⟨l, hl, rfl⟩ := List.mem_map.mp hk
    exact mem_of_mem_splitOn hl ((moveLine_suffix _ l).subset hmem)

/-- Joined lines begin and end with characters of the lines, unless the first or the last one is
empty. -/
lemma ends_joinLines {ls : List (List Char)} (h : ∀ l ∈ ls, '\n' ∉ l) :
    ([] ∉ ls.head? → '\n' ∉ (joinLines ls).head?) ∧
      ([] ∉ ls.getLast? → '\n' ∉ (joinLines ls).getLast?) := by
  constructor
  · intro hne hmem
    rcases ls with _ | ⟨_ | ⟨c, l⟩, ls⟩
    · cases hmem
    · exact hne rfl
    · refine h (c :: l) List.mem_cons_self (List.mem_cons.mpr (.inl ?_))
      cases ls <;> exact (Option.some.inj hmem).symm
  · intro hne hmem
    rcases List.eq_nil_or_concat' ls with rfl | ⟨init, last, rfl⟩
    · cases hmem
    · rw [List.getLast?_concat, Option.mem_def, Option.some.injEq] at hne
      refine h last (List.mem_append_right _ List.mem_cons_self) (List.mem_of_getLast? ?_)
      rw [← hmem]
      cases init with
      | nil => rfl
      | cons first init =>
          rw [joinLines, joinWith_concat _ _ (List.cons_ne_nil first init),
            List.getLast?_append_of_ne_nil _ hne]

/-- Joined lines hold one line feed less than there are lines. -/
lemma count_joinLines {ls : List (List Char)} (hne : ls ≠ []) (h : ∀ l ∈ ls, '\n' ∉ l) :
    (joinLines ls).count '\n' + 1 = ls.length := by
  rw [← length_lines, lines_joinLines hne h]

/-- A text that does not end in a line feed is not stripped once carriage returns are put in front
of its line feeds. -/
lemma strip_returned {s : List Char} (h : '\n' ∉ s.getLast?) :
    stripIf (· = '\n') (Spelling.carriageReturns.body s) = Spelling.carriageReturns.body s := by
  refine stripIf_eq_self (fun c hc => ?_) fun c hc => ?_
  · rw [Spelling.head?_body, Option.mem_def, Option.map_eq_some_iff] at hc
    obtain ⟨b, -, rfl⟩ := hc
    rw [Spelling.first]
    split
    · rfl
    · next hb => simpa [Spelling.carriageReturns] using hb
  · rw [Spelling.getLast?_body] at hc
    refine decide_eq_false ?_
    rintro rfl
    exact h hc

/-- Of a text that ends in a carriage return and a line feed the carriage return is left. -/
lemma getLast?_strip_return (s : List Char) :
    (stripIf (· = '\n') (s ++ ['\r'] ++ ['\n'])).getLast? = some '\r' := by
  have hdrop : (s ++ ['\r'] ++ ['\n']).dropWhile (· = '\n') =
      s.dropWhile (· = '\n') ++ ['\r'] ++ ['\n'] := by
    rw [List.append_assoc, List.dropWhile_append]
    split
    · next h => rw [List.isEmpty_iff.mp h]; rfl
    · rw [List.append_assoc]
  rw [stripIf, hdrop, stripEndIf_append_singleton, if_pos (by decide), stripEndIf_append_singleton,
    if_neg (by decide), List.getLast?_concat]

/-- Behind a last line of spaces and tabs a carriage return is left. -/
lemma strip_returnedLines_ne {t : List Char} (hne : init ≠ []) (hlast : isMarginLine last = true)
    (hreturn : '\r' ∉ t) :
    stripIf (· = '\n') (Spelling.carriageReturns.body (joinLines (returnedLines init last))) ≠
      Spelling.carriageReturns.body (stripIf (· = '\n') (dedent t)) := by
  intro heq
  have hinit : init.map (List.drop (returnedMargin (init ++ [last])).length) ≠ [] := by
    rwa [Ne, List.map_eq_nil_iff]
  rw [returnedLines, moveLine_of_margin hlast, joinLines, joinWith_concat _ _ hinit,
    List.append_nil, Spelling.body_append, Spelling.body_singleton, Spelling.char_lineFeed_eq,
    ← List.append_assoc] at heq
  have hend := congrArg List.getLast? heq
  rw [Spelling.getLast?_body] at hend
  have hmem : '\r' ∈ stripIf (· = '\n') (dedent t) :=
    List.mem_of_getLast? (hend.symm.trans (getLast?_strip_return _))
  exact hreturn (mem_of_mem_dedent ((stripIf_sublist _ _).subset hmem) (by decide))

/-- Blocks of several lines that are moved alike. -/
lemma breaksAlike_iff : BreaksAlike (first :: init ++ [last]) ↔
    isMarginLine first = false ∧ isMarginLine last = false ∧
      ∀ l ∈ first :: init, isMarginLine l = true → l = marginOf (first :: init ++ [last]) := by
  have hlength : (first :: init ++ [last]).length ≠ 1 := by simp
  have hhead : ∀ l, l ∈ (first :: init ++ [last]).head? ↔ first = l := fun l => by simp
  have hlast : ∀ l, l ∈ (first :: init ++ [last]).getLast? ↔ last = l := fun l => by
    rw [List.getLast?_concat, Option.mem_def, Option.some.injEq]
  rw [BreaksAlike, or_iff_right hlength, List.forall_mem_append, List.forall_mem_singleton]
  simp only [hhead, hlast, forall_eq']
  refine and_congr_right fun _ => and_congr_right fun hcontent => ?_
  rw [hcontent]
  simp

/-- In front of the first line of spaces and tabs a line feed is stripped only if no carriage return
is in front of it. -/
lemma joinLines_returnedLines_ne (h : ∀ l ∈ first :: init ++ [last], '\n' ∉ l)
    (hfirst : isMarginLine first = true) : joinLines (returnedLines (first :: init) last) ≠
      stripIf (· = '\n') (joinLines (dedentLines (first :: init ++ [last]))) := by
  intro heq
  have hreturned := count_joinLines (by simp [returnedLines]) (not_mem_returnedLines h)
  have hkept := count_joinLines (by simp [dedentLines]) (not_mem_dedentLines h)
  have hlength : (returnedLines (first :: init) last).length =
      (dedentLines (first :: init ++ [last])).length := by
    simp [returnedLines, dedentLines]
  obtain ⟨s, hs⟩ : ∃ s, joinLines (dedentLines (first :: init ++ [last])) = '\n' :: s := by
    rw [dedentLines, List.cons_append, List.map_cons, moveLine_of_margin hfirst]
    cases hrest : (init ++ [last]).map (moveLine _) with
    | nil => simp at hrest
    | cons k ks => exact ⟨_, rfl⟩
  rw [hs] at heq hkept
  rw [List.count_cons_self] at hkept
  have hle : (stripIf (· = '\n') ('\n' :: s)).count '\n' ≤ s.count '\n' :=
    (stripIf_sublist (· = '\n') s).count_le '\n'
  have hcount := congrArg (List.count '\n') heq
  omega

/-- A block that begins and ends with more than spaces and tabs is not stripped. -/
lemma strip_joinLines_dedentLines {ls : List (List Char)} (h : ∀ l ∈ ls, '\n' ∉ l)
    (hfirst : ∀ l ∈ ls.head?, isMarginLine l = false)
    (hlast : ∀ l ∈ ls.getLast?, isMarginLine l = false) :
    stripIf (· = '\n') (joinLines (dedentLines ls)) = joinLines (dedentLines ls) := by
  have hne : ∀ l ∈ ls, isMarginLine l = false → moveLine (marginOf ls).length l ≠ [] := by
    intro l hl hcontent hnil
    have hindent := (isMargin_marginOf ⟨l, hl, hcontent⟩).prefix_indentation hl hcontent
    rw [moveLine_eq_nil_iff fun _ => hindent.length_le, hcontent] at hnil
    cases hnil
  obtain ⟨hhead, hend⟩ := ends_joinLines (not_mem_dedentLines h)
  rw [dedentLines, List.head?_map, List.getLast?_map, ← dedentLines] at *
  refine stripIf_eq_self (fun c hc => decide_eq_false ?_) fun c hc => decide_eq_false ?_
  · rintro rfl
    refine hhead (fun hmem => ?_) hc
    obtain ⟨l, hl, hnil⟩ := Option.map_eq_some_iff.mp hmem
    exact hne l (List.mem_of_head? hl) (hfirst l hl) hnil
  · rintro rfl
    refine hend (fun hmem => ?_) hc
    obtain ⟨l, hl, hnil⟩ := Option.map_eq_some_iff.mp hmem
    exact hne l (List.mem_of_getLast? hl) (hlast l hl) hnil

/-- A block whose last line has more than spaces and tabs is not stripped at its end, and with
carriage returns not at all. -/
lemma strip_body_returnedLines (h : ∀ l ∈ first :: init ++ [last], '\n' ∉ l)
    (hlast : isMarginLine last = false) :
    stripIf (· = '\n') (Spelling.carriageReturns.body
        (joinLines (returnedLines (first :: init) last))) =
      Spelling.carriageReturns.body (joinLines (returnedLines (first :: init) last)) := by
  have hindent := ((prefix_returnedMargin_iff (List.cons_ne_nil first init)).mp
    List.prefix_rfl).2 hlast
  refine strip_returned ((ends_joinLines (not_mem_returnedLines h)).2 ?_)
  rw [returnedLines, List.getLast?_concat, Option.mem_def, Option.some.injEq,
    moveLine_eq_nil_iff fun _ => hindent.length_le, hlast]
  decide

/-- A block of one line is moved in one way. -/
lemma strip_dedent_body_line {l : List Char} (h : '\n' ∉ l) :
    stripIf (· = '\n') (dedent (Spelling.carriageReturns.body l)) =
      Spelling.carriageReturns.body (stripIf (· = '\n') (dedent l)) := by
  have hfree : '\n' ∉ stripIf (· = '\n') (dedent l) := fun hmem => by
    have hline : dedent l = moveLine (marginOf [l]).length l := by
      rw [dedent_eq, lines, splitOn_of_not_mem h]
      rfl
    rw [hline] at hmem
    exact h ((moveLine_suffix _ l).subset ((stripIf_sublist _ _).subset hmem))
  rw [Spelling.body_of_not_mem h, Spelling.body_of_not_mem hfree]

/-- **Blocks that are moved alike whichever line ends they have.** A block is moved to the left
margin alike with line feeds and with carriage returns in front of them if and only if it is one
line, or it begins and ends with more than spaces and tabs and its lines with nothing else hold the
margin. -/
theorem strip_dedent_body_iff {t : List Char} (hreturn : '\r' ∉ t) :
    stripIf (· = '\n') (dedent (Spelling.carriageReturns.body t)) =
      Spelling.carriageReturns.body (stripIf (· = '\n') (dedent t)) ↔ BreaksAlike (lines t) := by
  obtain ⟨init, last, hls⟩ : ∃ init last, lines t = init ++ [last] :=
    (List.eq_nil_or_concat' (lines t)).resolve_left (splitOn_ne_nil '\n' t)
  have hfree : ∀ l ∈ init ++ [last], '\n' ∉ l := fun l hl => not_mem_of_mem_splitOn (hls ▸ hl)
  rcases init with _ | ⟨first, init⟩
  · have hline : t = last := by
      rw [← joinWith_splitOn '\n' t, ← lines, hls]
      rfl
    exact iff_of_true (strip_dedent_body_line (hline ▸ hfree last List.mem_cons_self))
      (.inl (congrArg List.length hls))
  rw [dedent_eq (Spelling.carriageReturns.body t), Spelling.lines_body, hls,
    dedentLines_breakLines, ← Spelling.body_joinLines (not_mem_returnedLines hfree),
    breaksAlike_iff]
  cases hlast : isMarginLine last with
  | true =>
      exact iff_of_false (strip_returnedLines_ne (List.cons_ne_nil _ _) hlast hreturn)
        fun h => Bool.noConfusion h.2.1
  | false =>
      rw [strip_body_returnedLines hfree hlast, Spelling.body_injective.eq_iff, dedent_eq t, hls]
      cases hfirst : isMarginLine first with
      | true =>
          exact iff_of_false (joinLines_returnedLines_ne hfree hfirst) fun h => Bool.noConfusion h.1
      | false =>
          have hkept := strip_joinLines_dedentLines hfree (fun l hl => Option.some.inj hl ▸ hfirst)
            fun l hl => by
              rw [List.getLast?_concat] at hl
              exact Option.some.inj hl ▸ hlast
          rw [hkept, joinLines_inj (by simp [returnedLines]) (by simp [dedentLines])
            (not_mem_returnedLines hfree) (not_mem_dedentLines hfree), returnedLines_eq_iff hfirst]
          simp

end LineEnds

/-! ### The text of a node -/

namespace Parsed

/-- The source of a node. -/
def written (d : Parsed) (n : Node) : List Char :=
  (d.source.toList.drop n.start).take (n.stop - n.start)

/-- The source of a node, in the column of the node. -/
def block (d : Parsed) (n : Node) : List Char :=
  List.replicate (columnOf d.source.toList n.start) ' ' ++ d.written n

/-- The text of a node is its block, moved to the left margin, without line feeds at its ends. -/
lemma nodeText_eq (d : Parsed) (n : Node) :
    d.nodeText n = String.ofList (stripIf (· = '\n') (dedent (d.block n))) := by
  rw [nodeText, block, written, columnOf, lastLine, List.length_reverse]

end Parsed

/-- **The text of a node is its source in the first column.** In a text that is accepted, let a node
that is not empty begin with neither a space or a tab nor a line feed, and let its later lines with
more than spaces and tabs be indented as far as the node. Then the later lines lose that much, those
with spaces and tabs only become empty, and line feeds at the ends are left out; what a line is
indented by beyond the node is kept. -/
theorem excerpt_moved {source : String} {d : Parsed} (h : parse source = .ok d) {n : Node}
    (hn : n ∈ d.documents.depthFirst) (hlt : n.start < n.stop)
    (hfirst : ∀ c ∈ source.toList[n.start]?, isMarginChar c = false ∧ c ≠ '\n')
    (hlater : ∀ l ∈ (lines (d.written n)).tail, isMarginLine l = false →
      List.replicate (columnOf source.toList n.start) ' ' <+: l) :
    ∃ first later, lines (d.written n) = first :: later ∧
      d.nodeText n = String.ofList (stripIf (· = '\n') (joinLines
        (first :: later.map (moveLine (columnOf source.toList n.start))))) ∧
      ∀ l ∈ later, isMarginLine l = false →
        indentation l = List.replicate (columnOf source.toList n.start) ' ' ++
          indentation (moveLine (columnOf source.toList n.start) l) := by
  obtain ⟨_, _, _, -, -, hstream, -, hsource⟩ := exists_stages_of_parse h
  obtain ⟨ds, -, htree⟩ := Compose.stream_eq_ok hstream
  -- the set of the documents has no text
  have htail : n ∈ d.documents.depthFirst.tail := by
    rw [htree, Node.depthFirst_eq] at hn ⊢
    rcases List.mem_cons.mp hn with rfl | hn
    · exact absurd hlt (Nat.lt_irrefl 0)
    · exact hn
  have hbound := ((spans_nested h).1 n htail).2.1
  have hstart : n.start < source.toList.length := by
    rw [String.length_toList]
    omega
  obtain ⟨hmargin, hfeed⟩ := hfirst _ (List.getElem?_eq_getElem hstart)
  obtain ⟨rest, hwritten⟩ : ∃ rest, d.written n = source.toList[n.start] :: rest := by
    refine ⟨(source.toList.drop (n.start + 1)).take (n.stop - n.start - 1), ?_⟩
    rw [Parsed.written, hsource, List.drop_eq_getElem_cons hstart, List.take_cons (by omega)]
  obtain ⟨first, later, hrest⟩ : ∃ first later, lines rest = first :: later :=
    List.exists_cons_of_ne_nil (splitOn_ne_nil '\n' rest)
  have hlines : lines (d.written n) = (source.toList[n.start] :: first) :: later := by
    rw [hwritten, ← List.singleton_append]
    exact lines_append_of_not_mem (by simpa using Ne.symm hfeed) hrest
  rw [hlines, List.tail_cons] at hlater
  refine ⟨_, later, hlines, ?_, fun l hl hcontent =>
    indentation_moveLine hcontent (hlater l hl hcontent)⟩
  have hspaces : '\n' ∉ List.replicate (columnOf source.toList n.start) ' ' := fun hmem =>
    absurd (List.eq_of_mem_replicate hmem) (by decide)
  rw [Parsed.nodeText_eq, dedent_eq, Parsed.block, hsource, lines_append_of_not_mem hspaces hlines,
    dedentLines_cons hmargin hlater]

/-- A mapping in a sequence, with a literal scalar that holds an empty line and a deeper one. -/
theorem excerpt_moved_literal :
    ∃ d n, parse "a:\n  - b: |\n      x\n\n       y\n    c: 2\n" = .ok d ∧
      n ∈ d.documents.depthFirst ∧ n.kind = .mapping ∧ n.start < n.stop ∧
      String.ofList (d.written n) = "b: |\n      x\n\n       y\n    c: 2" ∧
      d.nodeText n = "b: |\n  x\n\n   y\nc: 2" := by
  obtain ⟨d, hd, hcheck⟩ := Except.exists_ok_of_any
    (x := parse "a:\n  - b: |\n      x\n\n       y\n    c: 2\n")
    (p := fun d => d.documents.depthFirst.any fun n =>
      n.kind == .mapping && n.start == 7 && n.stop == 38) (by decide +kernel)
  obtain ⟨-, -, -, -, -, -, -, hsource⟩ := exists_stages_of_parse hd
  obtain ⟨n, hn, hspan⟩ := List.any_eq_true.mp hcheck
  obtain ⟨⟨hkind, hstart⟩, hstop⟩ : (n.kind = .mapping ∧ n.start = 7) ∧ n.stop = 38 := by
    simpa using hspan
  have hlt : n.start < n.stop := by omega
  have hwritten : d.written n = "b: |\n      x\n\n       y\n    c: 2".toList := by
    rw [Parsed.written, hsource, hstart, hstop]
    decide +kernel
  have hfirst : "a:\n  - b: |\n      x\n\n       y\n    c: 2\n".toList[n.start]? = some 'b' := by
    rw [hstart]
    decide +kernel
  obtain ⟨first, later, hlines, htext, -⟩ := excerpt_moved hd hn hlt
    (fun c hc => by obtain rfl := Option.some.inj (hfirst.symm.trans hc); decide)
    (by rw [hwritten, hstart]; decide +kernel)
  have hcons : first :: later = ["b: |".toList, "      x".toList, [], "       y".toList,
      "    c: 2".toList] := by
    rw [← hlines, hwritten]
    decide +kernel
  refine ⟨d, n, hd, hn, hkind, hlt, by rw [hwritten, String.ofList_toList], ?_⟩
  obtain ⟨rfl, rfl⟩ := List.cons.inj hcons
  rw [htext, hstart]
  decide +kernel

/-! ### Nodes of texts with other line ends -/

section Returned

variable {s : List Char}

/-- The last line of a part is spelled as it is. -/
lemma lastLine_body (w : Spelling) (s : List Char) : lastLine (w.body s) = lastLine s := by
  by_cases hs : '\n' ∈ s
  · obtain ⟨before, after, rfl, hafter⟩ := exists_last hs
    rw [Spelling.body_append, Spelling.body_cons, Spelling.char_lineFeed_eq,
      Spelling.body_of_not_mem hafter, List.append_assoc, ← List.append_assoc (w.body before),
      List.singleton_append, lastLine_append_cons, lastLine_append_cons]
  · rw [Spelling.body_of_not_mem hs]

/-- Carriage returns in front of line feeds leave offsets in their columns. -/
lemma columnOf_returned (s : List Char) (i : Nat) :
    columnOf (Spelling.carriageReturns.text s) (Spelling.carriageReturns.offset s i) =
      columnOf s i := by
  rcases Nat.le_total i s.length with hi | hi
  · rw [columnOf, Spelling.take_text hi]
    exact congrArg List.length (lastLine_body _ _)
  · have hle : (Spelling.carriageReturns.text s).length ≤ Spelling.carriageReturns.offset s i := by
      rw [Spelling.offset_of_length_le hi]
      exact Nat.le_add_right _ _
    rw [columnOf, columnOf, List.take_of_length_le hle, List.take_of_length_le hi]
    exact congrArg List.length (lastLine_body _ _)

/-- The block of a node is spelled as the block of the node that corresponds to it. -/
lemma block_returned {d d' : Parsed} {n n' : Node} (hsource : d'.source.toList =
      Spelling.carriageReturns.text d.source.toList)
    (hstart : n'.start = Spelling.carriageReturns.offset d.source.toList n.start)
    (hstop : n'.stop = Spelling.carriageReturns.offset d.source.toList n.stop) :
    d'.block n' = Spelling.carriageReturns.body (d.block n) := by
  have hspaces : '\n' ∉ List.replicate (columnOf d.source.toList n.start) ' ' := fun hmem =>
    absurd (List.eq_of_mem_replicate hmem) (by decide)
  rw [Parsed.block, Parsed.block, Parsed.written, hsource, hstart, hstop, columnOf_returned,
    Spelling.slice_text, Spelling.body_append, Spelling.body_of_not_mem hspaces, Parsed.written]

/-- The texts of two nodes that correspond. -/
lemma nodeText_returned_iff {d d' : Parsed} {n n' : Node} (hreturn : '\r' ∉ d.source.toList)
    (hblock : d'.block n' = Spelling.carriageReturns.body (d.block n)) :
    d'.nodeText n' =
        String.ofList (Spelling.carriageReturns.body (d.nodeText n).toList) ↔
      BreaksAlike (lines (d.block n)) := by
  have hfree : '\r' ∉ d.block n := fun hmem => by
    rcases List.mem_append.mp hmem with hmem | hmem
    · exact absurd (List.eq_of_mem_replicate hmem) (by decide)
    · exact hreturn (List.mem_of_mem_drop (List.mem_of_mem_take hmem))
  rw [Parsed.nodeText_eq, Parsed.nodeText_eq, hblock, String.toList_ofList,
    String.ofList_inj, strip_dedent_body_iff hfree]

end Returned

/-- **The texts of nodes depend on the line ends** where lines are blank. If a text without carriage
returns is accepted, it is accepted with carriage returns in front of all line feeds, and its tree
has the same shape. There the text of a node is that of the node at the same place, with carriage
returns in front of all line feeds, if and only if the node is one line, or it begins and ends with
lines of more than spaces and tabs and its lines with nothing else hold the margin. -/
theorem excerpt_returned_iff {source : String} {d : Parsed} (h : parse source = .ok d)
    (hreturn : '\r' ∉ source.toList) :
    ∃ d', parse (String.ofList (Spelling.carriageReturns.body source.toList)) = .ok d' ∧
      Node.Corresponds (fun n n' => n'.kind = n.kind ∧
        (d'.nodeText n' =
            String.ofList (Spelling.carriageReturns.body (d.nodeText n).toList) ↔
          BreaksAlike (lines (d.block n)))) d.documents d'.documents := by
  obtain ⟨-, -, -, -, -, -, -, hsource⟩ := exists_stages_of_parse h
  obtain ⟨d', ds, ds', -, hd', hds, hds', htwins, -⟩ :=
    parse_text (w := .carriageReturns) ⟨(fun hm => by cases hm), fun _ => hreturn⟩ h
  obtain ⟨-, -, -, -, -, -, -, hsource'⟩ := exists_stages_of_parse hd'
  have hspelled : d'.source.toList = Spelling.carriageReturns.text d.source.toList := by
    rw [hsource', hsource, String.toList_ofList]
  rw [← hsource] at hreturn htwins
  refine ⟨d', hd', ?_⟩
  rw [hds, hds']
  have hzero : 0 = Spelling.carriageReturns.offset d.source.toList 0 :=
    (Spelling.offset_zero (w := .carriageReturns) _).symm
  refine ⟨⟨rfl, nodeText_returned_iff hreturn (block_returned hspelled hzero hzero)⟩,
    htwins.imp fun n n' hn => hn.mono fun m m' hm => ⟨hm.kind, nodeText_returned_iff hreturn
      (block_returned hspelled hm.start hm.stop)⟩⟩

/-- A mapping in a sequence, at the end of a text without a line feed behind it. -/
theorem excerpt_returned_sequence :
    ∃ d d', parse "- a: 1\n  b: 2\n- c" = .ok d ∧ parse "- a: 1\r\n  b: 2\r\n- c" = .ok d' ∧
      List.Forall₂ (fun n n' => d'.nodeText n' =
        String.ofList (Spelling.carriageReturns.body (d.nodeText n).toList))
        d.documents.depthFirst d'.documents.depthFirst := by
  obtain ⟨d, hd, hcheck⟩ := Except.exists_ok_of_any (x := parse "- a: 1\n  b: 2\n- c")
    (p := fun d => d.documents.depthFirst.all fun n => decide (BreaksAlike (lines (d.block n))))
    (by decide +kernel)
  obtain ⟨d', hd', htrees⟩ := excerpt_returned_iff hd (by decide)
  refine ⟨d, d', hd, hd', (forall₂_mem htrees.depthFirst).imp fun n n' ⟨hn, hmem, _⟩ => ?_⟩
  obtain ⟨⟨-, htext⟩, -⟩ := hn
  exact htext.mpr (of_decide_eq_true (List.all_eq_true.mp hcheck n hmem))

/-- In front of a carriage return an empty line has no margin, and so the value of the first entry
is not moved. -/
theorem excerpt_returned_margin :
    ∃ d d', parse "a:\n  b: 1\n\n  c: 2\n" = .ok d ∧
      parse "a:\r\n  b: 1\r\n\r\n  c: 2\r\n" = .ok d' ∧
      d.documents.depthFirst[5]?.map d.nodeText = some "b: 1\n\nc: 2" ∧
      d'.documents.depthFirst[5]?.map d'.nodeText = some "  b: 1\r\n\r\n  c: 2" := by
  obtain ⟨d, hd, hcheck⟩ := Except.exists_ok_of_any (x := parse "a:\n  b: 1\n\n  c: 2\n")
    (p := fun d => decide (d.documents.depthFirst[5]?.map d.nodeText = some "b: 1\n\nc: 2"))
    (by decide +kernel)
  obtain ⟨d', hd', hcheck'⟩ := Except.exists_ok_of_any
    (x := parse "a:\r\n  b: 1\r\n\r\n  c: 2\r\n")
    (p := fun d => decide (d.documents.depthFirst[5]?.map d.nodeText =
      some "  b: 1\r\n\r\n  c: 2")) (by decide +kernel)
  exact ⟨d, d', hd, hd', of_decide_eq_true hcheck, of_decide_eq_true hcheck'⟩

end YamlNavigator
