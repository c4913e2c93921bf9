import YamlNavigator.Proofs.Document.Aggregation
import YamlNavigator.Proofs.Document.Collecting
import YamlNavigator.Proofs.Document.Positions
import YamlNavigator.Proofs.Render.Lines
import YamlNavigator.Proofs.Render.Respelling

/-!
The margin in front of a match: the indentation of the line where the match starts, as far as the
lines of its tokens begin with spaces.

* `mem_nodes_of_highlight`, `exists_ownIndent`: the match that a token belongs to, and its margin;
* `exists_tokenLines_split`: the pieces of the line that begins behind the front of a token;
* `margin_strokes_iff`: the margin of a line of a token stays unpainted if the line is continued, if
  there is no margin, or if the token has no category;
* `margin_unpainted_iff`: the margins of the lines of a document;
* `margin_painted`: the margin is painted behind a block scalar, which ends with its own line feed.

A token cuts the margins of its lines but for the first one, which goes on with a line that the
token before began. If that token ended its line, the margin is the front of the first piece.
-/

namespace YamlNavigator

open Text

/-! ### Margins of tokens -/

/-- The match that a highlighted token belongs to is one of the matches of the query. -/
lemma mem_nodes_of_highlight {s : Stream} {n : Node} {q : String} {t : Token} {on : Bool}
    {o : Found} (h : s.highlight (n.query q) t = .ok ⟨on, some o⟩) : o ∈ (n.query q).nodes := by
  have howner : ∀ u, (n.query q).owner? u = some o → o ∈ (n.query q).nodes := by
    intro u hu
    rw [Matches.owner?, Node.lookup_owners_query] at hu
    exact List.mem_of_find?_eq_some hu
  rw [Stream.highlight] at h
  split at h
  · simp only [pure, Except.pure, Except.ok.injEq, Highlight.mk.injEq] at h
    exact howner t h.2
  · split at h
    · obtain ⟨u, -, h⟩ := Except.bind_eq_ok_iff.mp h
      split at h
      · next u =>
          split at h
          · simp only [pure, Except.pure, Except.ok.injEq, Highlight.mk.injEq] at h
            exact howner u h.2
          · cases h
      · cases h
    · cases h

/-- The indentation of a match is a column of the text. -/
lemma exists_ownIndent {source : String} {d : Parsed} (h : parse source = .ok d) {q : String}
    {o : Found} (ho : o ∈ (d.documents.query q).nodes) {u : Token} (hu : o.node.token = some u)
    (c : Option Category) (origin : List Char) :
    ∃ k : Nat, u.position.indent = k ∧
      Marked.ownIndent ⟨⟨true, some o⟩, c, origin⟩ = some (k : Int) := by
  obtain ⟨offset, hoffset⟩ := exists_position_of_mem_nodes h ho hu
  have hindent := LineTable.indent_position source.toList offset
  rw [← hoffset] at hindent
  refine ⟨_, hindent, ?_⟩
  rw [Marked.ownIndent, if_pos rfl, Option.bind_some, hu, Option.map_some, hindent]

section Lines

variable {t : Marked} {continued broken : Bool} {line : List Char}

/-- The pieces of a line among lines of a token. -/
lemma exists_getElem?_linePieces : ∀ (continued : Bool) {ls : List (List Char)} {j : Nat}
    {l : List Char}, ls[j]? = some l →
      ∃ broken, (linePieces t continued ls)[j]? = some (cutLine t (continued || j != 0) broken l)
  | continued, k :: ls, 0, l, h => by
      cases h
      exact ⟨!ls.isEmpty, by rw [linePieces, bne_self_eq_false, Bool.or_false]; rfl⟩
  | continued, k :: ls, j + 1, l, h => by
      have hnext : ls[j]? = some l := h
      obtain ⟨broken, hbroken⟩ := exists_getElem?_linePieces true hnext
      refine ⟨broken, ?_⟩
      rw [linePieces, List.getElem?_cons_succ, continuedLines_eq, hbroken]
      simp

/-- The line of a token that begins behind a front with line feeds only at the ends of its lines. -/
lemma exists_tokenLines_split {front rest : List Char} (horigin : t.origin = front ++ rest)
    (hfront : front = [] ∨ front.getLast? = some '\n') :
    ∃ broken l more, lines rest = l :: more ∧ (tokenLines t)[front.count '\n']? =
      some (cutLine t (!front.isEmpty) broken l) := by
  obtain ⟨l, more, hmore⟩ := List.exists_cons_of_ne_nil (splitOn_ne_nil '\n' rest)
  have hline : (lines t.origin)[front.count '\n']? = some l := by
    rcases hfront with rfl | hfeed
    · rw [horigin, List.nil_append, lines, hmore]
      rfl
    · obtain ⟨s, rfl⟩ := List.getLast?_eq_some_iff.mp hfeed
      rw [horigin, List.append_assoc, List.singleton_append, lines, splitOn_append_cons, ← lines,
        List.count_append, List.count_singleton_self, ← length_lines,
        List.getElem?_append_right (Nat.le_refl _), Nat.sub_self, hmore]
      rfl
  have hcontinued : (false || front.count '\n' != 0) = !front.isEmpty := by
    rcases hfront with rfl | hfeed
    · rfl
    · obtain ⟨s, rfl⟩ := List.getLast?_eq_some_iff.mp hfeed
      simp
  obtain ⟨broken, hpieces⟩ := exists_getElem?_linePieces (t := t) false hline
  rw [← tokenLines_eq, hcontinued] at hpieces
  exact ⟨broken, l, more, hmore, hpieces⟩

/-- The first spaces of a line are written as they are where a front of the line stays unpainted. -/
lemma replicate_prefix_map {k : Nat} {text : List Char}
    (h : k ≤ (text.takeWhile (· = ' ')).length) :
    List.replicate k (Stroke.plain ' ') <+: (text.take k).map .plain := by
  have hspaces : text.take k = List.replicate k ' ' := by
    have htake := List.prefix_iff_eq_take.mp (List.takeWhile_prefix (· = ' ') (l := text))
    refine List.eq_replicate_iff.mpr ⟨?_, fun c hc => ?_⟩
    · have := (List.takeWhile_prefix (· = ' ') (l := text)).length_le
      rw [List.length_take]
      omega
    · have hmem : c ∈ text.takeWhile (· = ' ') := by
        rw [htake]
        exact (List.take_sublist_take_left h).subset hc
      simpa using List.mem_takeWhile_imp hmem
  simp only [hspaces, List.map_replicate, List.prefix_rfl]

/-- **The margin of a line of a token** stays unpainted if and only if the line is continued, there
is no margin, or the token has no category. -/
theorem margin_strokes_iff {indent : Nat} (hindent : t.ownIndent = some (indent : Int))
    (behind : List Stroke) :
    List.replicate (min indent (line.takeWhile (· = ' ')).length) (Stroke.plain ' ') <+:
        strokesOf (cutLine t continued broken line) ++ behind ↔
      continued = true ∨ min indent (line.takeWhile (· = ' ')).length = 0 ∨ t.category = none := by
  obtain ⟨width, hwidth⟩ : ∃ width, width = min indent (line.takeWhile (· = ' ')).length := ⟨_, rfl⟩
  have hle : width ≤ (line.takeWhile (· = ' ')).length := by omega
  rw [← hwidth]
  cases hc : t.category with
  | none =>
      -- the line stands as it is
      have hstrokes : strokesOf (cutLine t continued broken line) = line.map .plain := by
        rw [strokesOf_of_none fun on c s hs => (painted_of_mem_cutLine hs).2.1.trans hc,
          text_cutLine]
      refine iff_of_true ?_ (.inr (.inr rfl))
      rw [hstrokes]
      exact (replicate_prefix_map hle).trans
        (((List.take_prefix width line).map _).trans (List.prefix_append _ _))
  | some c =>
      have hspaces := takeWhile_splitReturn broken line
      obtain ⟨text, htext⟩ : ∃ text, text = (splitReturn broken line).1 := ⟨_, rfl⟩
      rw [← htext] at hspaces
      rw [strokes_cutLine hc]
      dsimp only
      rw [← htext, marginStrokes]
      cases continued with
      | true =>
          have hmargin : t.margin line = width := by
            rw [Marked.margin, hindent, Option.map_some, Option.getD_some]
            omega
          have hunpainted := (unpaintedWidth_eq broken hmargin hle).1
          rw [← htext] at hunpainted
          refine iff_of_true ?_ (.inl rfl)
          rw [hunpainted]
          refine (replicate_prefix_map (by rwa [hspaces])).trans ?_
          simp only [List.append_assoc]
          exact List.prefix_append _ _
      | false =>
          have hunpainted : unpaintedWidth t false text = 0 := by
            simp [unpaintedWidth, clampBound]
          rw [hunpainted, List.take_zero, List.drop_zero, List.map_nil, List.nil_append]
          simp only [Bool.false_eq_true, reduceCtorEq, or_false, false_or]
          cases width with
          | zero => simp
          | succ n =>
              -- the line begins with a space, and so all of it is painted
              have hne : text ≠ [] := by
                rintro rfl
                rw [← hspaces] at hle
                exact absurd hle (by simp)
              rw [if_neg (by simpa using hne), List.replicate_succ, List.singleton_append,
                List.cons_append, List.cons_prefix_cons]
              simp

end Lines

/-! ### Margins of documents -/

/-- What is rendered of an accepted text is written of the strokes of its lines. -/
lemma exists_strokes_of_renderQuery {source : String} {d : Parsed} (h : parse source = .ok d)
    {p : Printer} {query : String} {lineNumbers : Bool} {r : String × List Found}
    (hr : p.renderQuery d query lineNumbers = .ok r) :
    ∃ outs, List.Forall₂ (fun l out => p.writeStrokes (strokesOf l) = .ok out)
        (d.tokens.layout (d.documents.query query)).1 outs ∧
      r.1 = "\n".intercalate (if lineNumbers then p.numberLines outs else outs) := by
  have hwrite := Printer.write_of_render (size_tokens_ne_zero h) hr
  obtain ⟨outs, houts, hr⟩ := Except.map_eq_ok_iff.mp hwrite
  refine ⟨outs, (Except.forall₂_of_mapM houts).imp fun l out hout => ?_, hr.symm⟩
  rw [← hout, Printer.writeLine_eq_writeStrokes]

/-- **The margin in front of a match.** In every accepted text and for every query let a token be
highlighted whose match has a token, and let a part of the token begin a line. Its margin is made of
the spaces that it begins with, as far as the line of the match is indented. Then the margin is
written as it is if and only if the token began before that line, there is no margin, or the token
has no category. Every printer writes the lines as their strokes. -/
theorem margin_unpainted_iff {source : String} {d : Parsed} (h : parse source = .ok d)
    {query : String} {before after : List Token} {t u : Token} {o : Found}
    (htokens : d.tokens.tokens.toList = before ++ t :: after)
    (hhighlight : d.tokens.highlight (d.documents.query query) t = .ok ⟨true, some o⟩)
    (hu : o.node.token = some u) {front rest : List Char}
    (horigin : t.origin.toList = front ++ rest) (hrest : rest ≠ [])
    (hline : before.flatMap (·.origin.toList) ++ front = [] ∨
      (before.flatMap (·.origin.toList) ++ front).getLast? = some '\n') :
    let layout := (d.tokens.layout (d.documents.query query)).1
    layout.map lineText = lines source.toList ∧
      (∃ (margin : Nat) (l : List Piece),
        (margin : Int) = min u.position.indent (rest.takeWhile (· = ' ')).length ∧
        layout[(before.flatMap (·.origin.toList) ++ front).count '\n']? = some l ∧
        (List.replicate margin (Stroke.plain ' ') <+: strokesOf l ↔
          front ≠ [] ∨ margin = 0 ∨ d.tokens.categorize t = .ok none)) ∧
      ∀ (p : Printer) (lineNumbers : Bool) (r : String × List Found),
        p.renderQuery d query lineNumbers = .ok r →
          ∃ outs, List.Forall₂ (fun l out => p.writeStrokes (strokesOf l) = .ok out) layout outs ∧
            r.1 = "\n".intercalate (if lineNumbers then p.numberLines outs else outs) := by
  intro layout
  refine ⟨map_lineText_layout h _, ?_, fun p lineNumbers r hr => exists_strokes_of_renderQuery h hr⟩
  obtain ⟨as, x, bs, hlayout, has, hmark⟩ := Stream.exists_layout_split d.isIndexed
    (d.documents.query query) htokens (by simp [horigin, hrest])
  have hfront : front = [] ∨ front.getLast? = some '\n' := by
    rcases List.eq_nil_or_concat front with rfl | ⟨s, c, rfl⟩
    · exact .inl rfl
    · refine .inr ?_
      rcases hline with hnil | hfeed
      · simp at hnil
      · simpa [← List.append_assoc] using hfeed
  -- the token is marked with the match and its category
  obtain ⟨highlight, category, hh, hc⟩ := Stream.exists_mark d.isIndexed (d.documents.query query)
    (t := t) (by rw [htokens]; simp)
  obtain rfl : x = ⟨⟨true, some o⟩, category, front ++ rest⟩ := by
    rw [Stream.mark, hhighlight, hc, horigin] at hmark
    exact (Except.ok.inj hmark).symm
  obtain ⟨indent, hindent, hown⟩ :=
    exists_ownIndent h (mem_nodes_of_highlight hhighlight) hu category (front ++ rest)
  obtain ⟨broken, line, lines, hlines, hpieces⟩ := exists_tokenLines_split
    (t := ⟨⟨true, some o⟩, category, front ++ rest⟩) rfl hfront
  obtain ⟨more, hmore⟩ := exists_getElem?_layoutLines as bs hpieces
  have hlead : rest.takeWhile (· = ' ') = line.takeWhile (· = ' ') :=
    takeWhile_of_lines hlines (by decide)
  rw [← hlayout, has, ← List.count_append] at hmore
  refine ⟨min indent (rest.takeWhile (· = ' ')).length, _, by omega, hmore, ?_⟩
  -- in front of the first line of the token stands a line without strokes
  have hbefore : strokesOf (if front.count '\n' = 0 then (layoutLines as).getLastD [] else []) =
      [] := by
    split
    · next hzero =>
        obtain rfl : front = [] := by
          refine hfront.resolve_right fun hfeed => ?_
          exact List.count_eq_zero.mp hzero (List.mem_of_getLast? hfeed)
        rw [List.append_nil, ← has] at hline
        exact strokesOf_getLastD_layoutLines hline
    · rfl
  rw [strokesOf_append, hbefore, List.nil_append, strokesOf_append, hlead,
    margin_strokes_iff hown]
  simp [hc]

/-- The margin of an entry stays unpainted where its token begins on the line before. -/
theorem margin_unpainted_iff_nestedEntry :
    ∃ d, parse "a:\n  b: 1\n" = .ok d ∧ ∃ before t after o u,
      d.tokens.tokens.toList = before ++ t :: after ∧
      d.tokens.highlight (d.documents.query "a.b") t = .ok ⟨true, some o⟩ ∧
      o.node.token = some u ∧ u.position.indent = 2 ∧ t.origin = "\n  b" ∧
      ∃ l, (d.tokens.layout (d.documents.query "a.b")).1[1]? = some l ∧
        List.replicate 2 (Stroke.plain ' ') <+: strokesOf l := by
  obtain ⟨d, hd, hcheck⟩ := Except.exists_ok_of_any (x := parse "a:\n  b: 1\n") (p := fun d =>
    (d.tokens.tokens.toList.take 7).flatMap (·.origin.toList) == ['a', ':'] &&
      d.tokens.tokens.toList[7]?.any fun t => t.origin == "\n  b" &&
        (d.tokens.highlight (d.documents.query "a.b") t).toOption.any fun x => x.isOn &&
          x.owner.any fun o => o.node.token.any fun u => u.position.indent == 2) (by decide +kernel)
  rw [Bool.and_eq_true, beq_iff_eq, Option.any_eq_true] at hcheck
  obtain ⟨hbefore, t, ht, hcheck⟩ := hcheck
  rw [Bool.and_eq_true, beq_iff_eq, Option.any_eq_true] at hcheck
  obtain ⟨horigin, ⟨on, owner⟩, hhighlight, hcheck⟩ := hcheck
  rw [Bool.and_eq_true, Option.any_eq_true] at hcheck
  obtain ⟨hon, o, howner, hcheck⟩ := hcheck
  obtain rfl : on = true := hon
  obtain rfl : owner = some o := howner
  obtain ⟨u, hu, hindent⟩ := (Option.any_eq_true _ _).mp hcheck
  have htokens : d.tokens.tokens.toList =
      d.tokens.tokens.toList.take 7 ++ t :: d.tokens.tokens.toList.drop 8 := by
    obtain ⟨hlt, rfl⟩ := List.getElem?_eq_some_iff.mp ht
    rw [← List.drop_eq_getElem_cons hlt, List.take_append_drop]
  have hhighlight := Except.toOption_eq_some_iff.mp hhighlight
  have hsplit : t.origin.toList = ['\n'] ++ "  b".toList := by rw [horigin]; decide
  obtain ⟨-, ⟨margin, l, hmargin, hl, hiff⟩, -⟩ := margin_unpainted_iff hd htokens hhighlight hu
    hsplit (by decide) (by rw [hbefore]; decide)
  rw [beq_iff_eq] at hindent
  have hspaces : ("  b".toList.takeWhile (· = ' ')).length = 2 := by decide
  obtain rfl : margin = 2 := by omega
  rw [hbefore] at hl
  exact ⟨d, hd, _, t, _, o, u, htokens, hhighlight, hu, hindent, horigin, l, hl,
    hiff.mpr (.inl (by simp))⟩

/-- Behind a block scalar, which ends with its own line feed, the margin of the next entry is
painted. -/
theorem margin_painted :
    ∃ d, parse "a:\n  s: |\n    t\n  b: 1\n" = .ok d ∧
      (Printer.bracketed.renderQuery d "a.b" false).map (·.1) =
        .ok "a:\n  s: |\n    t\n<  b><:>< 1>\n" ∧
      (d.documents.query "a.b").nodes.map (·.node.token.map (·.position.indent)) = [some 2] := by
  obtain ⟨d, hd, hcheck⟩ := Except.exists_ok_of_any
    (x := parse "a:\n  s: |\n    t\n  b: 1\n") (p := fun d =>
      ((Printer.bracketed.renderQuery d "a.b" false).toOption.any fun r =>
        r.1 == "a:\n  s: |\n    t\n<  b><:>< 1>\n") &&
      ((d.documents.query "a.b").nodes.map (·.node.token.map (·.position.indent)) == [some 2]))
    (by decide +kernel)
  rw [Bool.and_eq_true, Option.any_eq_true, beq_iff_eq] at hcheck
  obtain ⟨⟨r, hr, htext⟩, hindent⟩ := hcheck
  refine ⟨d, hd, ?_, hindent⟩
  rw [Except.toOption_eq_some_iff.mp hr, ← beq_iff_eq.mp htext]
  rfl

end YamlNavigator
