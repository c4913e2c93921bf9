import YamlNavigator.Proofs.Document.Collecting
import YamlNavigator.Proofs.Document.Positions
import YamlNavigator.Proofs.Program.Exit
import YamlNavigator.Proofs.Render.Lines
import YamlNavigator.Proofs.Render.Respelling

/-!
The window around the match that has the focus.

* `line_of_mem_nodes`: the line of a match is one of the lines of the text;
* `Navigator.ShowsLine`, `Navigator.showsLine_of_focused`: what a window shows of the line of the
  match in focus, and of which heights it does;
* `Program.after_matches`: the state in which the program shows the match with a number;
* `Program.prints_showDocument`: what the program prints of it;
* `window_shows_line`: the window shows the line, unless it is one line high;
* `window_misses_line`: a window of one line shows the line behind.

The first visible line counts from zero and the line of a node from one. The difference is lost in
the lines above the middle, of which there are none in a window of one line.
-/

namespace YamlNavigator

open Text

/-! ### Lines of matches -/

/-- The line of a match of a query is one of the lines of the text. -/
theorem line_of_mem_nodes {source : String} {d : Parsed} (h : parse source = .ok d) {q : String}
    {f : Found} (hf : f ∈ (d.documents.query q).nodes) {line : Int}
    (hline : f.node.line = some line) : 1 ≤ line ∧ line ≤ (lines source.toList).length := by
  obtain ⟨t, ht, rfl⟩ := Option.map_eq_some_iff.mp hline
  obtain ⟨k, hk⟩ := exists_position_of_mem_nodes h hf ht
  have hcount : (source.toList.take k).count '\n' ≤ source.toList.count '\n' :=
    (List.take_sublist _ _).count_le '\n'
  rw [hk, LineTable.line_position, length_lines]
  omega

/-! ### Windows -/

namespace Navigator

/-- What the window of some height shows of a line of the content, which has as many lines as the
source: the line if the window is higher than one line, and else only the line behind it. -/
structure ShowsLine (x : Navigator) (source : String) (line height : Int) : Prop where
  length_eq : (lines x.content.toList).length = (lines source.toList).length
  line_le : 1 ≤ line ∧ line ≤ (lines x.content.toList).length
  inside_iff : x.scrollTarget height ≤ line - 1 ∧ line - 1 < x.scrollTarget height + height ↔
    height ≠ 1
  shown : height ≠ 1 →
    (lines (selectLines x.content (x.scrollTarget height) height).toList)[
      (line - 1 - x.scrollTarget height).toNat]? = (lines x.content.toList)[(line - 1).toNat]?
  missed : height = 1 → selectLines x.content (x.scrollTarget height) height =
    String.ofList ((lines x.content.toList)[line.toNat]?.getD [])

/-- The first line of the window around the match in focus. -/
lemma scrollTarget_eq {x : Navigator} {f : Found} {line height : Int} (hf : x.focused? = some f)
    (hline : f.node.line = some line) : x.scrollTarget height = max 0 (line - height / 2) := by
  rw [scrollTarget, hf, Option.bind_some, hline]
  dsimp only
  rw [Int.fdiv_eq_ediv_of_nonneg height (by decide)]

/-- **The window around the match in focus** shows the line of the match if it is higher than one
line. -/
theorem showsLine_of_focused {source : String} {d : Parsed} (hd : parse source = .ok d)
    {p : Printer} (hp : p.AddsNoBreaks) {shown : Bool} {ops : List Operation} {x : Navigator}
    (hx : after d p shown ops = .ok x) {f : Found} {line height : Int}
    (hf : x.focused? = some f) (hline : f.node.line = some line) (hheight : 1 ≤ height) :
    x.ShowsLine source line height := by
  have hrendered := (follows_of_after hx).rendered
  have hlength : (lines x.content.toList).length = (lines source.toList).length :=
    length_lines_render hd hp hrendered
  have hmatched : x.matched = (d.documents.query (pathAfter ops)).nodes := by
    have hnodes := Printer.snd_of_renderQuery hrendered
    rwa [if_neg (size_tokens_ne_zero hd)] at hnodes
  have hmem : f ∈ x.matched := by
    obtain ⟨i, -, hi⟩ := Option.bind_eq_some_iff.mp hf
    exact List.mem_of_getElem? hi
  rw [hmatched] at hmem
  have hbounds := line_of_mem_nodes hd hmem hline
  rw [← hlength] at hbounds
  have htarget : x.scrollTarget height = max 0 (line - height / 2) := scrollTarget_eq hf hline
  refine ⟨hlength, hbounds, by omega, fun hne => ?_, fun heq => ?_⟩
  · have hnonneg : 0 ≤ x.scrollTarget height := by omega
    have hlt : x.scrollTarget height < (lines x.content.toList).length := by omega
    have hplace : (x.scrollTarget height).toNat + (line - 1 - x.scrollTarget height).toNat =
        (line - 1).toNat := by omega
    rw [lines_selectLines hnonneg hlt hheight, List.getElem?_take_of_lt (by omega),
      List.getElem?_drop, hplace]
  · have hstart : x.scrollTarget height = line := by omega
    rw [hstart, heq]
    exact selectLines_one x.content (by omega)

end Navigator

/-! ### The window that the program prints -/

namespace Program

open Navigator

section Printing

variable {d : Parsed} {p : Printer} {shown : Bool} {q : String}

/-- The focus is moved on as often as is asked for. -/
lemma after_matches {y : Navigator} (hy : after d p shown [.navigate q] = .ok y) (k : Nat) :
    after d p shown (.navigate q :: List.replicate k .nextMatch) =
        .ok (k.repeat Navigator.nextMatch y) ∧
      moveCount (.navigate q :: List.replicate k .nextMatch) = k := by
  induction k with
  | zero => exact ⟨hy, rfl⟩
  | succ k ih =>
      obtain ⟨hafter, hcount⟩ := ih
      rw [List.replicate_succ', ← List.cons_append]
      refine ⟨?_, ?_⟩
      · rw [after_append, hafter]
        rfl
      · rw [moveCount_append, hcount]
        rfl

/-- The matches stay while the focus is moved on. -/
lemma matched_repeat (k : Nat) (y : Navigator) :
    (k.repeat Navigator.nextMatch y).matched = y.matched := by
  induction k with
  | zero => rfl
  | succ k ih =>
      rw [Nat.repeat, nextMatch_eq]
      exact ih

/-- A match has the focus if there are matches, and the focus was moved on. -/
lemma exists_focused {y : Navigator} {k : Nat} (hk : 0 < k)
    (hy : after d p shown (.navigate q :: List.replicate k .nextMatch) = .ok y)
    (hcount : moveCount (.navigate q :: List.replicate k .nextMatch) = k)
    (hfound : y.matched ≠ []) : ∃ f, y.focused? = some f := by
  have hfocus := (follows_of_after hy).focus
  have hlt : (k - 1) % y.matched.length < y.matched.length :=
    Nat.mod_lt _ (List.length_pos_of_ne_nil hfound)
  rw [hcount, focusAfter, if_neg (by omega)] at hfocus
  refine ⟨y.matched[(k - 1) % y.matched.length], ?_⟩
  rw [focused?, hfocus, Option.bind_some]
  exact List.getElem?_eq_getElem hlt

/-- **The program prints the window around a match** that is asked for by its number, if there are
matches. -/
theorem prints_showDocument {source : String} {x : Settings} {r : Request} {n height : Int}
    (hd : parse source = .ok d) (hp : Printer.ofSettings x r.color = .ok p)
    (houtput : r.output = false) (hfocus : r.focus = some (.value n))
    (hheight : r.height = .value height)
    (hfound : (d.documents.query (r.query.getD "")).nodes ≠ []) :
    ∃ y, after d p (r.lineNumbers || x.lineNumbers)
        (.navigate (r.query.getD "") :: List.replicate (max n 1).toNat .nextMatch) = .ok y ∧
      (∃ f, y.focused? = some f) ∧
      Run.Prints (showDocument d x r)
        (selectLines y.content (y.scrollTarget height) height ++ "\n") := by
  obtain ⟨nav, hstart, hparsed, hprinter, -⟩ :=
    Navigator.exists_start hd hp (r.lineNumbers || x.lineNumbers)
  obtain ⟨y, hy, hmatched⟩ := Navigator.exists_navigate hd hp hparsed hprinter (r.query.getD "")
  have hafter : after d p (r.lineNumbers || x.lineNumbers) [.navigate (r.query.getD "")] =
      .ok y := by
    have hperform : nav.perform (.navigate (r.query.getD "")) = .ok y := hy
    rw [after, hstart]
    show List.foldlM perform nav _ = _
    rw [List.foldlM_cons, hperform]
    rfl
  obtain ⟨hz, hcount⟩ := after_matches hafter (max n 1).toNat
  have hmatched' := (matched_repeat (max n 1).toNat y).trans hmatched
  refine ⟨_, hz, exists_focused (by omega) hz hcount (by rwa [hmatched']), ?_⟩
  refine (isQuiet_printer hp).bind_prints ?_
  refine (isQuiet_navigator hstart r.verbose).bind_prints ?_
  dsimp only
  rw [hy, houtput, hfocus, hheight]
  refine (Run.isQuiet_pure y).bind_prints ((Run.isQuiet_note _ _).bind_prints ?_)
  -- there are matches, so none is missed and the window is asked for
  have hmissed : y.matched.isEmpty = false := by simpa [hmatched] using hfound
  simp only [hmissed, Bool.and_false, Bool.false_eq_true, if_false]
  exact (isQuiet_window y n height r.verbose).bind_prints (Run.prints_print _)

end Printing

end Program

open Navigator in
/-- **The window around the match in focus.** Of every accepted text, with every printer that adds
no line feeds and after any operations, the window shows the line of the match in focus if it is
higher than one line; a window of one line shows the line behind. This window is what the program
prints for a match that is asked for by its number, with line numbers and without. -/
theorem window_shows_line {source : String} {d : Parsed} (hd : parse source = .ok d) :
    (∀ p : Printer, p.AddsNoBreaks → ∀ shown ops x, after d p shown ops = .ok x →
      ∀ f line, x.focused? = some f → f.node.line = some line →
        ∀ height, 1 ≤ height → x.ShowsLine source line height) ∧
    ∀ (s : Settings) (r : Request) (p : Printer) (n height : Int),
      Printer.ofSettings s r.color = .ok p → '\n' ∉ s.gutterSeparator.toList →
      r.output = false → r.focus = some (.value n) → r.height = .value height → 1 ≤ height →
      (d.documents.query (r.query.getD "")).nodes ≠ [] →
        ∃ y f, after d p (r.lineNumbers || s.lineNumbers) (.navigate (r.query.getD "") ::
            List.replicate (max n 1).toNat .nextMatch) = .ok y ∧ y.focused? = some f ∧
          Run.Prints (Program.showDocument d s r)
            (selectLines y.content (y.scrollTarget height) height ++ "\n") ∧
          ∀ line, f.node.line = some line → y.ShowsLine source line height := by
  have hshows : ∀ p : Printer, p.AddsNoBreaks → ∀ shown ops x, after d p shown ops = .ok x →
      ∀ f line, x.focused? = some f → f.node.line = some line →
        ∀ height, 1 ≤ height → x.ShowsLine source line height := by
    intro p hp shown ops x hx f line hf hline height hheight
    exact showsLine_of_focused hd hp hx hf hline hheight
  refine ⟨hshows, fun s r p n height hp hs houtput hfocus hheight hpos hfound => ?_⟩
  obtain ⟨y, hy, ⟨f, hf⟩, hprints⟩ :=
    Program.prints_showDocument hd hp houtput hfocus hheight hfound
  refine ⟨y, f, hy, hf, hprints, fun line hline => ?_⟩
  exact hshows p (Printer.addsNoBreaks_ofSettings hp hs) _ _ y hy f line hf hline height hpos

open Navigator in
/-- The second line of a text is shown in a window of two lines, with line numbers. -/
theorem window_shows_line_secondLine :
    let r : Request :=
      { query := .value "b", lineNumbers := true, color := false, focus := some (.value 1)
        height := .value 2 }
    ∃ d, parse "a: 1\nb: 2\n" = .ok d ∧
      (∃ x f, after d Printer.bracketed true [.confirm "b"] = .ok x ∧ x.focused? = some f ∧
        f.node.line = some 2 ∧ x.ShowsLine "a: 1\nb: 2\n" 2 2 ∧
        selectLines x.content (x.scrollTarget 2) 2 = "2<b><:>< 2>\n3") ∧
      ∃ y f, after d { separator := " │ " } true [.navigate "b", .nextMatch] = .ok y ∧
        y.focused? = some f ∧ Run.Prints (Program.showDocument d {} r)
          (selectLines y.content (y.scrollTarget 2) 2 ++ "\n") := by
  intro r
  obtain ⟨d, hd, hcheck⟩ := Except.exists_ok_of_any (x := parse "a: 1\nb: 2\n") (p := fun d =>
    (!(d.documents.query "b").nodes.isEmpty) &&
      (after d Printer.bracketed true [.confirm "b"]).toOption.any fun x =>
        x.focused?.any fun f => f.node.line == some 2 &&
          selectLines x.content (x.scrollTarget 2) 2 == "2<b><:>< 2>\n3") (by decide +kernel)
  rw [Bool.and_eq_true, Option.any_eq_true] at hcheck
  obtain ⟨hfound, x, hx, hcheck⟩ := hcheck
  obtain ⟨f, hf, hcheck⟩ := (Option.any_eq_true _ _).mp hcheck
  rw [Bool.and_eq_true, beq_iff_eq, beq_iff_eq] at hcheck
  have hbracketed : Printer.bracketed.AddsNoBreaks :=
    ⟨Printer.sparesBreaks_bracketed, fun _ hs => hs, List.not_mem_nil⟩
  obtain ⟨hshows, hprints⟩ := window_shows_line hd
  have hx := Except.toOption_eq_some_iff.mp hx
  have hne : (d.documents.query "b").nodes ≠ [] := by simpa using hfound
  obtain ⟨y, g, hy, hg, hwindow, -⟩ := hprints {} r { separator := " │ " } 1 2 rfl (by decide) rfl
    rfl rfl (by decide) hne
  exact ⟨d, hd, ⟨x, f, hx, hf, hcheck.1, hshows _ hbracketed true _ x hx f 2 hf hcheck.1 2
    (by decide), hcheck.2⟩, y, g, hy, hg, hwindow⟩

/-- A window of one line around a match on the only line of a text shows nothing of it: of
`yn -q a --match 1 --height 1` an empty line is printed. -/
theorem window_misses_line :
    (∃ d, parse "a: 1\n" = .ok d ∧ (d.documents.query "a").nodes.map (·.node.line) = [some 1] ∧
      lines "a: 1\n".toList = ["a: 1".toList, []]) ∧
    (Program.run { disk := fun _ => .error .missing, input := "a: 1\n".toUTF8.toList } none
      ["-q", "a", "--match", "1", "--height", "1", "--no-color"]).1 =
        ⟨.code 0, { out := "\n" }⟩ := by
  refine ⟨?_, by decide +kernel⟩
  obtain ⟨d, hd, hcheck⟩ := Except.exists_ok_of_any (x := parse "a: 1\n") (p := fun d =>
    (d.documents.query "a").nodes.map (·.node.line) == [some 1]) (by decide +kernel)
  exact ⟨d, hd, beq_iff_eq.mp hcheck, by decide⟩

end YamlNavigator
