import YamlNavigator.Proofs.Render.MirrorLayout

/-!
Rendering a text that begins with a byte order mark, or whose lines end in a carriage return and a
line feed.

* `keepsMargins_marked`, `keepsMargins_returned`: texts in which all margins keep their widths;
* `renderQuery_of_writeStrokes`: documents are rendered as their strokes are written;
* `render_marked`: a byte order mark changes nothing else, but for margins;
* `render_returned`: what is written does not depend on the line ends, but for margins;
* `render_marked_margin`, `render_returned_margin`: texts whose margins are cut in another place
  once they are spelled in one of these two ways.
-/

namespace YamlNavigator

open Text

/-- The printer that sets highlighted text in angle brackets. -/
def Printer.bracketed : Printer :=
  Printer.ofFunctions (fun _ s => s) (fun _ s => "<" ++ s ++ ">") id ""

/-- Angle brackets are no line feeds. -/
lemma Printer.sparesBreaks_bracketed : Printer.bracketed.SparesBreaks := by
  rintro (_ | _) c s out hout hs
  · cases hout
    exact hs
  · cases hout
    simpa [String.toList_append] using hs

/-! ### Texts that keep their margins -/

/-- The content of a line with nothing but spaces starts at its end. -/
lemma contentColumn_of_nil {l : List Char} (h : l.dropWhile (· = ' ') = []) :
    contentColumn l = (l.takeWhile (· = ' ')).length := by
  rw [contentColumn]
  split
  · rfl
  · next hcons => rw [h] at hcons; cases hcons

/-- The content of a line starts behind the spaces, or behind an indicator there. -/
lemma contentColumn_of_cons {l after : List Char} {c : Char}
    (h : l.dropWhile (· = ' ') = c :: after) : contentColumn l =
      if (c = '-' || c = '?') &&
          (after.isEmpty || !(after.takeWhile contentColumn.isMarginBlank).isEmpty) then
        (l.takeWhile (· = ' ')).length + 1 + (after.takeWhile contentColumn.isMarginBlank).length +
          contentColumn (after.dropWhile contentColumn.isMarginBlank)
      else (l.takeWhile (· = ' ')).length := by
  rw [contentColumn]
  split
  · next hnil => rw [h] at hnil; cases hnil
  · next hcons =>
      obtain ⟨rfl, rfl⟩ := List.cons.inj (h.symm.trans hcons)
      rfl

/-- The content of a line that does not end in an indicator starts in the same column in front of a
carriage return. -/
lemma contentColumn_append_return {l : List Char} (hhyphen : ¬['-'] <:+ l) (hmark : ¬['?'] <:+ l) :
    contentColumn (l ++ ['\r']) = contentColumn l := by
  induction hn : l.length using Nat.strong_induction_on generalizing l with
  | _ n ih =>
      have hspaces : (l ++ ['\r']).takeWhile (· = ' ') = l.takeWhile (· = ' ') :=
        takeWhile_append_singleton (by decide) l
      have hdrop : (l ++ ['\r']).dropWhile (· = ' ') = l.dropWhile (· = ' ') ++ ['\r'] :=
        dropWhile_append_singleton (by decide) l
      cases hl : l.dropWhile (· = ' ') with
      | nil =>
          rw [hl] at hdrop
          rw [contentColumn_of_nil hl, contentColumn_of_cons hdrop, hspaces]
          rfl
      | cons c after =>
          rw [hl, List.cons_append] at hdrop
          have hblank : contentColumn.isMarginBlank '\r' = false := by decide
          have hsuffix : c :: after <:+ l := hl ▸ List.dropWhile_suffix _
          rw [contentColumn_of_cons hl, contentColumn_of_cons hdrop, hspaces,
            takeWhile_append_singleton hblank, dropWhile_append_singleton hblank]
          rcases after with _ | ⟨b, after⟩
          · -- the only character behind the spaces is no indicator
            have hc : (decide (c = '-') || decide (c = '?')) = false := by
              rw [Bool.or_eq_false_iff, decide_eq_false_iff_not, decide_eq_false_iff_not]
              exact ⟨fun h => hhyphen (h ▸ hsuffix), fun h => hmark (h ▸ hsuffix)⟩
            rw [hc, Bool.false_and, Bool.false_and]
            rfl
          · have hrest : (b :: after).dropWhile contentColumn.isMarginBlank <:+ l :=
              ((List.dropWhile_suffix _).trans (List.suffix_cons c _)).trans hsuffix
            have hlt : ((b :: after).dropWhile contentColumn.isMarginBlank).length < n := by
              have h₁ := (List.dropWhile_suffix contentColumn.isMarginBlank
                (l := b :: after)).length_le
              have h₂ := hsuffix.length_le
              rw [List.length_cons] at h₂
              omega
            rw [ih _ hlt (fun h => hhyphen (h.trans hrest)) (fun h => hmark (h.trans hrest)) rfl]
            rfl

/-- If all lines are indented as in the spelling, all margins keep their widths. -/
lemma keepsMargins_of_indentOf {w : Spelling} {d : Parsed}
    (h : ∀ line, indentOf (w.text d.source.toList) line = indentOf d.source.toList line)
    (query : String) : d.keepsMargins w query = true := by
  refine List.all_eq_true.mpr fun t _ => ?_
  rw [Stream.keepsMargins]
  split
  · next x _ =>
      rw [Marked.keepsMargins, Bool.or_eq_true]
      refine .inr (List.all_eq_true.mpr fun l _ => ?_)
      rw [Highlight.marginIn, Highlight.marginIn, beq_iff_eq]
      split
      · rw [h]
      · rfl
  · rfl

/-- Behind a byte order mark all margins keep their widths, if the first line is not indented. -/
lemma keepsMargins_marked {d : Parsed} (h : indentOf d.source.toList 1 = 0) (query : String) :
    d.keepsMargins .byteOrderMark query = true := by
  refine keepsMargins_of_indentOf (fun line => ?_) query
  have htext : Spelling.byteOrderMark.text d.source.toList = '\ufeff' :: d.source.toList :=
    congrArg ('\ufeff' :: ·) (Spelling.body_of_returns_eq_false rfl _)
  obtain ⟨l, ls, hlines⟩ := List.exists_cons_of_ne_nil (splitOn_ne_nil '\n' d.source.toList)
  have hmarked : lines ('\ufeff' :: d.source.toList) = ('\ufeff' :: l) :: ls := by
    rw [lines, splitOn, if_neg (by decide), hlines]
  have hsource : lines d.source.toList = l :: ls := hlines
  rw [htext, indentOf, indentOf, hmarked, hsource]
  rw [indentOf, hsource] at h
  cases line.toNat - 1 with
  | zero =>
      have hzero : contentColumn ('\ufeff' :: l) = 0 := by
        have hcons : ('\ufeff' :: l).dropWhile (· = ' ') = '\ufeff' :: l := rfl
        rw [contentColumn_of_cons hcons]
        rfl
      exact hzero.trans h.symm
  | succ i => rfl

/-- With carriage returns in front of the line feeds all margins keep their widths, if no line ends
in an indicator. -/
lemma keepsMargins_returned {d : Parsed}
    (h : ∀ l ∈ lines d.source.toList, ¬['-'] <:+ l ∧ ¬['?'] <:+ l) (query : String) :
    d.keepsMargins .carriageReturns query = true := by
  refine keepsMargins_of_indentOf (fun line => ?_) query
  have hlines : lines (Spelling.carriageReturns.text d.source.toList) =
      Spelling.carriageReturns.breakLines (lines d.source.toList) := Spelling.lines_body _
  rw [indentOf, indentOf, hlines]
  generalize lines d.source.toList = ls at h
  generalize line.toNat - 1 = i
  induction ls generalizing i with
  | nil => rfl
  | cons l ls ih =>
      cases ls with
      | nil => rfl
      | cons m ls =>
          cases i with
          | zero =>
              obtain ⟨hhyphen, hmark⟩ := h l List.mem_cons_self
              exact contentColumn_append_return hhyphen hmark
          | succ i => exact ih (fun k hk => h k (List.mem_cons_of_mem l hk)) i

/-! ### Rendering -/

/-- A document is written as its strokes. -/
lemma renderQuery_eq_writeStrokes {source : String} {d : Parsed} (h : parse source = .ok d)
    (p : Printer) (query : String) : (p.renderQuery d query false).map (·.1) =
      (p.writeStrokes (d.strokes query)).mapError .code := by
  obtain ⟨hmissing, -, -⟩ := layout_of_parse h (d.documents.query query)
  rw [Printer.renderQuery, Printer.render, Parsed.strokes]
  split
  · next hsize =>
      have hnil : d.tokens.tokens.toList = [] := by simpa [Stream.size] using hsize
      rw [Stream.layout, hnil]
      rfl
  · dsimp only
    rw [hmissing, ← Printer.write_eq_writeStrokes]
    cases p.write false _ <;> rfl

/-- Documents are rendered as their strokes are written. -/
lemma renderQuery_of_writeStrokes {source source' : String} {d d' : Parsed}
    (h : parse source = .ok d) (h' : parse source' = .ok d') {p : Printer} {query : String}
    {f : String → String}
    (hwrite : p.writeStrokes (d'.strokes query) = (p.writeStrokes (d.strokes query)).map f) :
    (p.renderQuery d' query false).map (·.1) =
      (p.renderQuery d query false).map fun r => f r.1 := by
  calc (p.renderQuery d' query false).map (·.1)
      = (p.writeStrokes (d'.strokes query)).mapError .code :=
        renderQuery_eq_writeStrokes h' p query
    _ = ((p.writeStrokes (d.strokes query)).mapError .code).map f := by
        rw [hwrite]
        cases p.writeStrokes (d.strokes query) <;> rfl
    _ = ((p.renderQuery d query false).map (·.1)).map f := by
        rw [renderQuery_eq_writeStrokes h p query]
    _ = (p.renderQuery d query false).map fun r => f r.1 := by
        cases p.renderQuery d query false <;> rfl

/-- No styled text of a document holds a line feed. -/
lemma not_mem_of_styled {source : String} {d : Parsed} (h : parse source = .ok d) (query : String)
    {on : Bool} {c : Category} {s : List Char} (hs : .styled on c s ∈ d.strokes query) :
    '\n' ∉ s := by
  obtain ⟨-, -, hshown⟩ := layout_of_parse h (d.documents.query query)
  obtain ⟨x, hx, hmem⟩ := List.mem_flatMap.mp hs
  rcases x with r | ⟨on', _ | c', r⟩
  · simp [Piece.strokes] at hmem
  · simp [Piece.strokes] at hmem
  · obtain ⟨rfl, rfl, rfl⟩ : on = on' ∧ c = c' ∧ s = r := by simpa [Piece.strokes] using hmem
    exact (hshown _ hx).2.lineFeed

/-! ### A byte order mark -/

/-- A node of the same kind, path, value and anchor, one place further on. -/
structure Node.Moved (n n' : Node) : Prop where
  kind : n'.kind = n.kind
  path : n'.path = n.path
  value : n'.value? = n.value?
  anchor : n'.info.anchor = n.info.anchor
  start : n'.start = n.start + 1
  stop : n'.stop = n.stop + 1

/-- Behind a byte order mark nodes are one place further on. -/
lemma Node.Twin.moved {s : List Char} {n n' : Node} (h : Twin .byteOrderMark s "" "" n n') :
    n.Moved n' := by
  have hoffset : ∀ i, Spelling.byteOrderMark.offset s i = i + 1 :=
    Spelling.offset_of_returns_eq_false rfl s
  obtain ⟨p, p', hp, hp', halike⟩ := h.ending
  have hpath : n'.path.toList = n.path.toList := by
    rcases halike with rfl | ⟨hreturns, -⟩
    · exact hp'.trans hp.symm
    · cases hreturns
  exact ⟨h.kind, String.toList_injective hpath, h.value, h.anchor, h.start.trans (hoffset _),
    h.stop.trans (hoffset _)⟩

/-- **A byte order mark changes nothing else**, but for margins. If a text is accepted that does not
begin with a byte order mark, it is accepted with one in front; the documents have the same trees,
one place further on. For a query the mark and what is written for the text are written if and only
if all margins keep their widths; this holds for every printer. -/
theorem render_marked {source : String} {d : Parsed} (h : parse source = .ok d)
    (hmark : source.toList.head? ≠ some '\ufeff') :
    ∃ d' ds ds', parse ("\ufeff" ++ source) = .ok d' ∧ d.documents = .documentSetOf ds ∧
      d'.documents = .documentSetOf ds' ∧
      List.Forall₂ (Node.Corresponds Node.Moved) ds ds' ∧
      ∀ query,
        (d'.strokes query = .plain '\ufeff' :: d.strokes query ↔
          d.keepsMargins .byteOrderMark query = true) ∧
        (d.keepsMargins .byteOrderMark query = true →
          ∀ p : Printer, (p.renderQuery d' query false).map (·.1) =
            (p.renderQuery d query false).map fun r => "\ufeff" ++ r.1) := by
  obtain ⟨d', ds, ds', hd', hds, hds', htwins, hstrokes⟩ :=
    strokes_text (w := .byteOrderMark) ⟨fun _ => hmark, fun hr => by cases hr⟩ h
  have htext : String.ofList (Spelling.byteOrderMark.text source.toList) = "\ufeff" ++ source := by
    rw [Spelling.text, Spelling.body_of_returns_eq_false rfl, String.ofList_append,
      String.ofList_toList]
    rfl
  rw [htext] at hd'
  refine ⟨d', ds, ds', hd', hds, hds', htwins.imp fun n n' hn => hn.mono fun _ _ hm => hm.moved,
    fun query => ?_⟩
  have hquery := hstrokes query fun hr => by cases hr
  rw [Spelling.strokes_of_returns_eq_false _ rfl] at hquery
  refine ⟨hquery, fun hkeeps p => ?_⟩
  have hwrite : p.writeStrokes (d'.strokes query) =
      (p.writeStrokes (d.strokes query)).map fun out => "\ufeff" ++ out := by
    rw [hquery.mpr hkeeps, Printer.writeStrokes_append, Printer.writeStrokes_plain]
    cases p.writeStrokes (d.strokes query) <;> rfl
  exact renderQuery_of_writeStrokes h hd' hwrite

/-- A quoted scalar on two lines with a comment, whose first line is not indented. -/
theorem render_marked_quotedLines :
    ∃ d d' ds ds', parse "a: 'x\n    y' # c\n" = .ok d ∧
      parse ("\ufeff" ++ "a: 'x\n    y' # c\n") = .ok d' ∧ d.documents = .documentSetOf ds ∧
      d'.documents = .documentSetOf ds' ∧ List.Forall₂ (Node.Corresponds Node.Moved) ds ds' ∧
      ∀ (query : String) (p : Printer), (p.renderQuery d' query false).map (·.1) =
        (p.renderQuery d query false).map fun r => "\ufeff" ++ r.1 := by
  obtain ⟨d, hd⟩ := Except.exists_ok_of_toBool (x := parse "a: 'x\n    y' # c\n")
    (by decide +kernel)
  obtain ⟨d', ds, ds', hd', hds, hds', htrees, hrender⟩ := render_marked hd (by decide)
  obtain ⟨-, -, -, -, -, -, -, hsource⟩ := exists_stages_of_parse hd
  refine ⟨d, d', ds, ds', hd, hd', hds, hds', htrees, fun query p => (hrender query).2 ?_ p⟩
  exact keepsMargins_marked (by rw [hsource]; decide +kernel) query

/-- Behind a byte order mark the first line counts as unindented, and so the margin of the second
line of the scalar is painted. -/
theorem render_marked_margin :
    ∃ d d', parse "- \"a\n  b\"\n" = .ok d ∧ parse "\ufeff- \"a\n  b\"\n" = .ok d' ∧
      (Printer.bracketed.renderQuery d "0" false).map (·.1) = .ok "<->< \"a>\n  <b\">\n" ∧
      (Printer.bracketed.renderQuery d' "0" false).map (·.1) =
        .ok "\ufeff<->< \"a>\n<  b\">\n" := by
  obtain ⟨d, hd, hcheck⟩ := Except.exists_ok_of_any (x := parse "- \"a\n  b\"\n") (p := fun d =>
    (Printer.bracketed.renderQuery d "0" false).toOption.any fun r =>
      r.1 == "<->< \"a>\n  <b\">\n") (by decide +kernel)
  obtain ⟨d', hd', hcheck'⟩ := Except.exists_ok_of_any (x := parse "\ufeff- \"a\n  b\"\n")
    (p := fun d => (Printer.bracketed.renderQuery d "0" false).toOption.any fun r =>
      r.1 == "\ufeff<->< \"a>\n<  b\">\n") (by decide +kernel)
  obtain ⟨r, hr, hcheck⟩ := Except.exists_ok_of_any hcheck
  obtain ⟨r', hr', hcheck'⟩ := Except.exists_ok_of_any hcheck'
  refine ⟨d, d', hd, hd', ?_, ?_⟩
  · rw [hr, ← eq_of_beq hcheck]
    rfl
  · rw [hr', ← eq_of_beq hcheck']
    rfl

/-! ### Carriage returns -/

/-- **What is written does not depend on the line ends**, but for margins. If a text without
carriage returns is accepted, it is accepted with carriage returns in front of all line feeds. For
a query without line feeds the same texts are styled if and only if all margins keep their widths.
Then every printer that adds no line feeds writes what it writes for the text, with carriage returns
in front of all line feeds. -/
theorem render_returned {source : String} {d : Parsed} (h : parse source = .ok d)
    (hreturn : '\r' ∉ source.toList) :
    ∃ d', parse (String.ofList (Spelling.carriageReturns.body source.toList)) = .ok d' ∧
      ∀ query, '\n' ∉ query.toList →
        (d'.strokes query = Spelling.carriageReturns.strokes (d.strokes query) ↔
          d.keepsMargins .carriageReturns query = true) ∧
        (d.keepsMargins .carriageReturns query = true →
          ∀ p : Printer, p.SparesBreaks → (p.renderQuery d' query false).map (·.1) =
            (p.renderQuery d query false).map fun r =>
              String.ofList (Spelling.carriageReturns.body r.1.toList)) := by
  obtain ⟨d', -, -, hd', -, -, -, hstrokes⟩ :=
    strokes_text (w := .carriageReturns) ⟨(fun hm => by cases hm), fun _ => hreturn⟩ h
  refine ⟨d', hd', fun query hquery => ?_⟩
  have hspelled := hstrokes query fun _ => hquery
  refine ⟨hspelled, fun hkeeps p hp => ?_⟩
  have hwrite : p.writeStrokes (d'.strokes query) = (p.writeStrokes (d.strokes query)).map
      fun out => String.ofList (Spelling.carriageReturns.body out.toList) := by
    rw [hspelled.mpr hkeeps]
    exact Printer.writeStrokes_spelled (fun _ => hp) fun _ _ _ hs => not_mem_of_styled h query hs
  exact renderQuery_of_writeStrokes h hd' hwrite

/-- A quoted scalar on two lines with a comment behind it in a sequence, in angle brackets. -/
theorem render_returned_quotedLines :
    ∃ d d', parse "- 'x\n    y' # c\n- z\n" = .ok d ∧
      parse "- 'x\r\n    y' # c\r\n- z\r\n" = .ok d' ∧
      (Printer.bracketed.renderQuery d' "0" false).map (·.1) =
        (Printer.bracketed.renderQuery d "0" false).map fun r =>
          String.ofList (Spelling.carriageReturns.body r.1.toList) := by
  obtain ⟨d, hd⟩ := Except.exists_ok_of_toBool (x := parse "- 'x\n    y' # c\n- z\n")
    (by decide +kernel)
  obtain ⟨d', hd', hrender⟩ := render_returned hd (by decide)
  obtain ⟨-, -, -, -, -, -, -, hsource⟩ := exists_stages_of_parse hd
  have hkeeps := keepsMargins_returned (d := d) (by rw [hsource]; decide +kernel) "0"
  exact ⟨d, d', hd, hd', (hrender "0" (by decide)).2 hkeeps _ Printer.sparesBreaks_bracketed⟩

/-- In front of a carriage return a hyphen at the end of a line does not count as indentation, and
so the last column of the margin of the second line is painted. -/
theorem render_returned_margin :
    ∃ d d', parse "- -\n    x\n" = .ok d ∧ parse "- -\r\n    x\r\n" = .ok d' ∧
      (Printer.bracketed.renderQuery d "0" false).map (·.1) = .ok "<->< ->\n   < x>\n" ∧
      (Printer.bracketed.renderQuery d' "0" false).map (·.1) = .ok "<->< ->\r\n  <  x>\r\n" := by
  obtain ⟨d, hd, hcheck⟩ := Except.exists_ok_of_any (x := parse "- -\n    x\n") (p := fun d =>
    (Printer.bracketed.renderQuery d "0" false).toOption.any fun r =>
      r.1 == "<->< ->\n   < x>\n") (by decide +kernel)
  obtain ⟨d', hd', hcheck'⟩ := Except.exists_ok_of_any (x := parse "- -\r\n    x\r\n")
    (p := fun d => (Printer.bracketed.renderQuery d "0" false).toOption.any fun r =>
      r.1 == "<->< ->\r\n  <  x>\r\n") (by decide +kernel)
  obtain ⟨r, hr, hcheck⟩ := Except.exists_ok_of_any hcheck
  obtain ⟨r', hr', hcheck'⟩ := Except.exists_ok_of_any hcheck'
  refine ⟨d, d', hd, hd', ?_, ?_⟩
  · rw [hr, ← eq_of_beq hcheck]
    rfl
  · rw [hr', ← eq_of_beq hcheck']
    rfl

end YamlNavigator
