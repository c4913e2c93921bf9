import YamlNavigator.Proofs.Render.Strokes
import YamlNavigator.Proofs.Render.Styles
import YamlNavigator.Proofs.Text.Lines

/-!
The lines of rendered documents.

* `lineText`, `map_lineText_layoutLines`: the lines into which the texts of tokens are cut are the
  lines of the text that they make;
* `layoutLines_append`, `exists_getElem?_layoutLines`: the lines of a token among those of others;
* `Printer.AddsNoBreaks`, `Printer.addsNoBreaks_ofSettings`: printers that write no line feeds of
  their own, and the settings that make such printers;
* `lines_write`: such a printer writes one line for each line of pieces;
* `length_lines_render`: a rendered document has as many lines as its source.
-/

namespace YamlNavigator

open Text

/-! ### Lines of pieces -/

/-- The text of a line of pieces. -/
def lineText (l : List Piece) : List Char := l.flatMap Piece.text

lemma lineText_append (l m : List Piece) : lineText (l ++ m) = lineText l ++ lineText m :=
  List.flatMap_append

/-- The pieces of lines hold the lines, with line feeds between them. -/
lemma lineText_joinPieces : ∀ ls : List (List Piece),
    lineText (joinPieces ls) = joinLines (ls.map lineText)
  | [] => rfl
  | [l] => by
      rw [joinPieces, List.intercalate_singleton]
      rfl
  | l :: m :: ls => by
      rw [joinPieces, List.intercalate_cons_cons, ← joinPieces, lineText_append, lineText_append,
        lineText_joinPieces (m :: ls)]
      rfl

/-- The lines of a token behind its first one hold what they are cut from. -/
lemma map_lineText_continuedLines (t : Marked) (ls : List (List Char)) :
    (continuedLines t ls).map lineText = ls := by
  induction ls with
  | nil => rfl
  | cons l ls ih =>
      rw [continuedLines_cons, List.map_cons, ih]
      exact congrArg (· :: ls) text_cutLine

/-- The lines of a token hold the lines of its text. -/
lemma map_lineText_tokenLines (t : Marked) : (tokenLines t).map lineText = lines t.origin := by
  rw [tokenLines]
  split
  · next h => exact h.symm
  · next l ls h =>
      rw [List.map_cons, map_lineText_continuedLines, h]
      exact congrArg (· :: ls) text_cutLine

/-- Lines that are glued to others hold no line feeds if neither of them do. -/
lemma not_mem_glueLines : ∀ {ls ms : List (List Piece)}, (∀ l ∈ ls, '\n' ∉ lineText l) →
    (∀ m ∈ ms, '\n' ∉ lineText m) → ∀ k ∈ glueLines ls ms, '\n' ∉ lineText k
  | [], ms, _, hms, k, hk => hms k hk
  | [l], [], hls, _, k, hk => hls k hk
  | [l], m :: ms, hls, hms, k, hk => by
      rw [glueLines] at hk
      rcases List.mem_cons.mp hk with rfl | hk
      · rw [lineText_append, List.mem_append, not_or]
        exact ⟨hls l List.mem_cons_self, hms m List.mem_cons_self⟩
      · exact hms k (List.mem_cons_of_mem m hk)
  | l :: l' :: ls, ms, hls, hms, k, hk => by
      rw [glueLines] at hk
      rcases List.mem_cons.mp hk with rfl | hk
      · exact hls k List.mem_cons_self
      · exact not_mem_glueLines (fun m hm => hls m (List.mem_cons_of_mem l hm)) hms k hk

/-- Lines of pieces hold no line feeds. -/
lemma not_mem_layoutLines (ts : List Marked) : ∀ l ∈ layoutLines ts, '\n' ∉ lineText l := by
  induction ts with
  | nil =>
      intro l hl
      rw [layoutLines, List.mem_singleton] at hl
      rw [hl]
      exact List.not_mem_nil
  | cons t ts ih =>
      rw [layoutLines]
      refine not_mem_glueLines (fun l hl => ?_) ih
      have hmem := List.mem_map_of_mem (f := lineText) hl
      rw [map_lineText_tokenLines] at hmem
      exact not_mem_of_mem_splitOn hmem

/-- **The lines of tokens that follow one another are the lines of the text that they make.** -/
theorem map_lineText_layoutLines (ts : List Marked) :
    (layoutLines ts).map lineText = lines (ts.flatMap Marked.origin) := by
  have htext : lineText (joinPieces (layoutLines ts)) = ts.flatMap Marked.origin := by
    rw [joinPieces_layoutLines, lineText, List.flatMap_assoc]
    exact List.flatMap_congr fun t _ => (isCut_tokenLines t).text_eq
  have hfree : ∀ l ∈ (layoutLines ts).map lineText, '\n' ∉ l := by
    intro l hl
    obtain ⟨k, hk, rfl⟩ := List.mem_map.mp hl
    exact not_mem_layoutLines ts k hk
  calc (layoutLines ts).map lineText
      = lines (joinLines ((layoutLines ts).map lineText)) :=
        (lines_joinLines (by simp [layoutLines_ne_nil]) hfree).symm
    _ = lines (lineText (joinPieces (layoutLines ts))) := by rw [lineText_joinPieces]
    _ = lines (ts.flatMap Marked.origin) := by rw [htext]

/-- The lines of an accepted text, as they are laid out for a query, hold its lines. -/
lemma map_lineText_layout {source : String} {d : Parsed} (h : parse source = .ok d) (m : Matches) :
    (d.tokens.layout m).1.map lineText = lines source.toList := by
  obtain ⟨-, htext, -⟩ := layout_of_parse h m
  obtain ⟨marked, hmarked⟩ : ∃ marked, (d.tokens.layout m).1 = layoutLines marked := ⟨_, rfl⟩
  rw [hmarked] at htext ⊢
  have hlines := map_lineText_layoutLines marked
  have hjoin := congrArg joinLines hlines
  rw [← lineText_joinPieces, lineText, htext] at hjoin
  rw [hlines, hjoin]
  exact congrArg lines (joinWith_splitOn '\n' _).symm

/-! ### The lines of one token -/

/-- Nothing is changed in front of lines by a line without pieces. -/
lemma glueLines_nil {ms : List (List Piece)} (h : ms ≠ []) : glueLines [[]] ms = ms := by
  cases ms with
  | nil => exact absurd rfl h
  | cons m ms => rfl

/-- Lines may be glued in any order. -/
lemma glueLines_assoc : ∀ {ls ms : List (List Piece)} (ns : List (List Piece)), ls ≠ [] → ms ≠ [] →
    glueLines (glueLines ls ms) ns = glueLines ls (glueLines ms ns)
  | [], _, _, h, _ => absurd rfl h
  | _, [], _, _, h => absurd rfl h
  | [l], [m], [], _, _ => rfl
  | [l], [m], n :: ns, _, _ => by simp [glueLines]
  | [l], m :: k :: ms, ns, _, _ => rfl
  | l :: k :: ls, m :: ms, ns, _, _ => by
      have ih := glueLines_assoc ns (List.cons_ne_nil k ls) (List.cons_ne_nil m ms)
      have hne : glueLines (k :: ls) (m :: ms) ≠ [] := by cases ls <;> simp [glueLines]
      obtain ⟨j, js, hjs⟩ := List.exists_cons_of_ne_nil hne
      rw [glueLines, glueLines, ← ih, hjs, glueLines]

/-- The lines of tokens and of those behind them are glued. -/
lemma layoutLines_append (as bs : List Marked) :
    layoutLines (as ++ bs) = glueLines (layoutLines as) (layoutLines bs) := by
  induction as with
  | nil => exact (glueLines_nil (layoutLines_ne_nil bs)).symm
  | cons a as ih =>
      rw [List.cons_append, layoutLines, ih, layoutLines,
        glueLines_assoc _ (tokenLines_ne_nil a) (layoutLines_ne_nil as)]

/-- A line goes on with the line that is glued to it, if there is one. -/
lemma exists_getElem?_glueLines : ∀ {ls ms : List (List Piece)} {j : Nat} {l : List Piece},
    ls[j]? = some l → ∃ more, (glueLines ls ms)[j]? = some (l ++ more)
  | [k], [], j, l, h => ⟨[], by rw [glueLines, List.append_nil]; exact h⟩
  | [k], m :: ms, 0, l, h => ⟨m, by cases h; rfl⟩
  | k :: k' :: ls, ms, 0, l, h => ⟨[], by rw [glueLines, List.append_nil]; exact h⟩
  | k :: k' :: ls, ms, j + 1, l, h => @exists_getElem?_glueLines (k' :: ls) ms j l h

/-- Lines that are glued to others stand behind these, the first one on the same line. -/
lemma getElem?_glueLines_add : ∀ {ls ms : List (List Piece)} {j : Nat} {m : List Piece}, ls ≠ [] →
    ms[j]? = some m → (glueLines ls ms)[ls.length - 1 + j]? =
      some ((if j = 0 then ls.getLastD [] else []) ++ m)
  | [], _, _, _, h, _ => absurd rfl h
  | [l], m :: ms, 0, k, _, h => by cases h; rfl
  | [l], m :: ms, j + 1, k, _, h => by
      rw [List.length_singleton, Nat.sub_self, Nat.zero_add]
      exact h
  | l :: l' :: ls, ms, j, m, _, h => by
      have ih := getElem?_glueLines_add (List.cons_ne_nil l' ls) h
      have hlength : (l :: l' :: ls).length - 1 + j = (l' :: ls).length - 1 + j + 1 := by
        simp only [List.length_cons]
        omega
      rw [glueLines, hlength, List.getElem?_cons_succ]
      exact ih

/-- A line of a token stands as many lines behind the beginning as there are line feeds in front of
it, behind the last line of the tokens in front if it is the first one of the token. -/
theorem exists_getElem?_layoutLines (as bs : List Marked) {t : Marked} {j : Nat} {l : List Piece}
    (h : (tokenLines t)[j]? = some l) :
    ∃ more, (layoutLines (as ++ t :: bs))[(as.flatMap Marked.origin).count '\n' + j]? =
      some ((if j = 0 then (layoutLines as).getLastD [] else []) ++ (l ++ more)) := by
  have hlength : (layoutLines as).length - 1 = (as.flatMap Marked.origin).count '\n' := by
    have hlines := congrArg List.length (map_lineText_layoutLines as)
    rw [List.length_map, length_lines] at hlines
    omega
  obtain ⟨more, hmore⟩ : ∃ more,
      (glueLines (tokenLines t) (layoutLines bs))[j]? = some (l ++ more) :=
    exists_getElem?_glueLines h
  refine ⟨more, ?_⟩
  rw [layoutLines_append, layoutLines, ← hlength]
  exact getElem?_glueLines_add (layoutLines_ne_nil as) hmore

/-- The last of the lines of tokens holds the last line of their text. -/
lemma lineText_getLastD_layoutLines (as : List Marked) :
    lineText ((layoutLines as).getLastD []) = lastLine (as.flatMap Marked.origin) := by
  obtain ⟨l, hl⟩ : ∃ l, (layoutLines as).getLast? = some l :=
    Option.isSome_iff_exists.mp (by simp [layoutLines_ne_nil])
  have hlast : ((layoutLines as).map lineText).getLast? = some (lineText l) := by
    rw [List.getLast?_map, hl, Option.map_some]
  rw [map_lineText_layoutLines, getLast?_lines] at hlast
  rw [List.getLastD_eq_getLast?, hl, Option.getD_some]
  exact (Option.some.inj hlast).symm

/-- Behind a text that ends with a line feed the last line has no strokes. -/
lemma strokesOf_getLastD_layoutLines {as : List Marked}
    (h : as.flatMap Marked.origin = [] ∨ (as.flatMap Marked.origin).getLast? = some '\n') :
    strokesOf ((layoutLines as).getLastD []) = [] := by
  -- the last line has no text, and no text without characters is painted
  have htext := lineText_getLastD_layoutLines as
  have hempty : lastLine (as.flatMap Marked.origin) = [] := by
    rcases h with hnil | hfeed
    · rw [hnil]
      rfl
    · obtain ⟨s, hs⟩ := List.getLast?_eq_some_iff.mp hfeed
      rw [hs]
      exact lastLine_append_cons s []
  rw [hempty] at htext
  obtain ⟨l, hl⟩ : ∃ l, (layoutLines as).getLast? = some l :=
    Option.isSome_iff_exists.mp (by simp [layoutLines_ne_nil])
  rw [List.getLastD_eq_getLast?, hl, Option.getD_some] at htext ⊢
  have hmem := List.mem_of_getLast? hl
  refine List.flatMap_eq_nil_iff.mpr fun y hy => ?_
  have hnil : y.text = [] := List.flatMap_eq_nil_iff.mp htext y hy
  rcases y with s | ⟨on, c, s⟩
  · exact congrArg (List.map Stroke.plain) hnil
  · have hpiece := mem_joinPieces hmem hy
    rw [joinPieces_layoutLines] at hpiece
    obtain ⟨t, -, ht⟩ := List.mem_flatMap.mp hpiece
    exact absurd hnil ((isCut_tokenLines t).painted ht).2.2.1

namespace Stream

variable {s : Stream}

/-- A marked token holds the text of the token. -/
lemma origin_of_mark {m : Matches} {t : Token} {x : Marked} (h : s.mark m t = .ok x) :
    x.origin = t.origin.toList := by
  obtain ⟨_, -, h⟩ := Except.bind_eq_ok_iff.mp h
  obtain ⟨_, -, h⟩ := Except.bind_eq_ok_iff.mp h
  rw [← Except.pure_eq_ok_iff.mp h]

/-- The marks of tokens in front of others hold their texts. -/
lemma exists_markAll (hs : s.IsIndexed) (m : Matches) (us : List Token) : ∀ ts : List Token,
    (∀ t ∈ ts, t ∈ s.tokens.toList) →
      ∃ xs, xs.flatMap Marked.origin = ts.flatMap (·.origin.toList) ∧
        (s.markAll m ((ts ++ us).filter fun t => !t.origin.isEmpty)).1 =
          xs ++ (s.markAll m (us.filter fun t => !t.origin.isEmpty)).1
  | [], _ => ⟨[], rfl, rfl⟩
  | t :: ts, hmem => by
      obtain ⟨xs, hxs, hall⟩ := exists_markAll hs m us ts fun u hu =>
        hmem u (List.mem_cons_of_mem t hu)
      obtain ⟨h, c, hh, hc⟩ := exists_mark hs m (hmem t List.mem_cons_self)
      rw [List.cons_append, List.flatMap_cons]
      by_cases hempty : t.origin.isEmpty
      · have horigin : t.origin.toList = [] := by simpa using hempty
        rw [List.filter_cons_of_neg (by simpa using hempty), horigin]
        exact ⟨xs, hxs, hall⟩
      · have hmark : s.mark m t = .ok ⟨h, c, t.origin.toList⟩ := by
          rw [mark, hh, hc]
          rfl
        refine ⟨⟨h, c, t.origin.toList⟩ :: xs, by rw [List.flatMap_cons, hxs], ?_⟩
        rw [List.filter_cons_of_pos (by simpa using hempty), markAll, hmark]
        exact congrArg _ hall

/-- The lines of an indexed stream around one of its tokens. -/
lemma exists_layout_split (hs : s.IsIndexed) (m : Matches) {before after : List Token} {t : Token}
    (h : s.tokens.toList = before ++ t :: after) (ht : t.origin.toList ≠ []) :
    ∃ as x bs, (s.layout m).1 = layoutLines (as ++ x :: bs) ∧
      as.flatMap Marked.origin = before.flatMap (·.origin.toList) ∧ s.mark m t = .ok x := by
  obtain ⟨as, has, hall⟩ := exists_markAll hs m (t :: after) before fun u hu =>
    h ▸ List.mem_append_left _ hu
  obtain ⟨a, c, ha, hc⟩ := exists_mark hs m (t := t) (h ▸ by simp)
  have hmark : s.mark m t = .ok ⟨a, c, t.origin.toList⟩ := by
    rw [mark, ha, hc]
    rfl
  have hne : t.origin.isEmpty = false := by simpa using ht
  rw [List.filter_cons_of_pos (by simp [hne]), markAll, hmark] at hall
  refine ⟨as, ⟨a, c, t.origin.toList⟩, (s.markAll m (after.filter fun t => !t.origin.isEmpty)).1,
    ?_, has, hmark⟩
  rw [layout, h]
  exact congrArg layoutLines hall

end Stream

/-! ### Printers that add no line feeds -/

namespace Ansi

/-- The characters of a line that are shown are characters of the line. -/
lemma shownChars_subset : ∀ (pass : Nat) (nameFollows : Bool) (s : List Char),
    shownChars nameFollows (partsFrom pass s) ⊆ s
  | _, _, [] => by simp [partsFrom, shownChars]
  | n + 1, b, c :: s => by
      rw [partsFrom]
      exact List.Subset.trans (shownChars_subset n b s) (List.subset_cons_self c s)
  | 0, b, c :: s => by
      rw [partsFrom]
      split
      · rw [shownChars]
        exact List.Subset.trans (shownChars_subset _ _ s) (List.subset_cons_self c s)
      · rw [shownChars]
        split
        · exact List.Subset.trans (shownChars_subset 0 false s) (List.subset_cons_self c s)
        · exact List.cons_subset_cons c (shownChars_subset 0 false s)

/-- A line that is cleaned of blanks stays one line. -/
lemma not_mem_cleanBlank {text out : String} (h : cleanBlank text = .ok out)
    (hline : '\n' ∉ text.toList) : '\n' ∉ out.toList := by
  rw [cleanBlank] at h
  split at h
  · cases h
    exact hline
  · obtain ⟨shown, hshown, rfl⟩ := Except.map_eq_ok_iff.mp h
    have hsingle : lines text.toList = [text.toList] := splitOn_of_not_mem hline
    rw [plain, hsingle, List.mapM_cons] at hshown
    obtain ⟨ls, hls, rfl⟩ := Except.map_eq_ok_iff.mp hshown
    obtain ⟨l, hl, hls⟩ := Except.bind_eq_ok_iff.mp hls
    obtain rfl : [l] = ls := by simpa [List.mapM_nil] using Except.pure_eq_ok_iff.mp hls
    obtain ⟨-, -, hl⟩ := Except.bind_eq_ok_iff.mp hl
    have hsub : l ⊆ text.toList := by
      rw [← Except.pure_eq_ok_iff.mp hl]
      refine List.Subset.trans (shownChars_subset _ _ _) fun c hc => ?_
      exact List.mem_reverse.mp ((List.takeWhile_prefix _).subset (List.mem_reverse.mp hc))
    split
    · rw [String.toList_ofList]
      exact fun hc => hline (hsub hc)
    · exact hline

/-- A style writes no line feed for a text without one. -/
lemma Style.not_mem_render (s : Style) (system : Option ColorSystem) {text : String}
    (h : '\n' ∉ text.toList) : '\n' ∉ (s.render system text).toList := by
  cases system with
  | none => exact h
  | some system =>
      cases hempty : text.isEmpty with
      | true =>
          obtain rfl : text = "" := by simpa using hempty
          exact h
      | false =>
          rw [render_some s system hempty]
          split
          · exact h
          · rw [String.toList_append, String.toList_append, List.mem_append, List.mem_append]
            rintro ((hc | hc) | hc)
            · exact (not_mem_sequence _).2 hc
            · exact h hc
            · exact (not_mem_sequence _).2 hc

end Ansi

namespace Printer

/-- The printer writes no line feed for a text without one, neither in the text of a document nor in
front of it. -/
structure AddsNoBreaks (p : Printer) : Prop where
  palettes : p.SparesBreaks
  gutter : ∀ s : String, '\n' ∉ s.toList → '\n' ∉ (p.gutter s).toList
  separator : '\n' ∉ p.separator.toList

/-- The printer of settings adds no line feeds if the separator of the settings holds none. -/
theorem addsNoBreaks_ofSettings {x : Settings} {color : Bool} {p : Printer}
    (hp : Printer.ofSettings x color = .ok p) (hx : '\n' ∉ x.gutterSeparator.toList) :
    p.AddsNoBreaks := by
  cases color with
  | false =>
      cases hp
      refine ⟨fun on c s out hout hs => ?_, fun s hs => hs, hx⟩
      cases on <;> cases hout <;> exact hs
  | true =>
      refine ⟨fun on c s out hout hs => ?_, ?_, ?_⟩
      · obtain ⟨style, -, hpalette⟩ := exists_style_of_ofSettings hp on c
        rw [hpalette] at hout
        exact Ansi.not_mem_cleanBlank hout (style.not_mem_render _ hs)
      all_goals
        rw [Printer.ofSettings] at hp
        obtain ⟨plain, -, hp⟩ := Except.bind_eq_ok_iff.mp hp
        obtain ⟨highlighted, -, hp⟩ := Except.bind_eq_ok_iff.mp hp
        obtain ⟨gutter, hgutter, hp⟩ := Except.bind_eq_ok_iff.mp hp
        cases hp
      · obtain ⟨style, -, rfl⟩ := Except.map_eq_ok_iff.mp hgutter
        exact fun s hs => style.not_mem_render _ hs
      · exact hx

/-! ### Written lines -/

variable {p : Printer}

/-- What is written of a piece without line feeds holds none. -/
lemma not_mem_writePiece (hp : p.SparesBreaks) {x : Piece} {out : String}
    (hx : '\n' ∉ x.text) (hout : p.writePiece x = .ok out) : '\n' ∉ out.toList := by
  rcases x with s | ⟨on, _ | c, s⟩
  · cases hout
    rwa [String.toList_ofList]
  · cases on <;> cases hout <;> rwa [String.toList_ofList]
  · exact hp on c _ out hout (by rwa [String.toList_ofList])

/-- What is written of a line of pieces without line feeds holds none. -/
lemma not_mem_writeLine (hp : p.SparesBreaks) {l : List Piece} {out : String}
    (hl : '\n' ∉ lineText l) (hout : p.writeLine l = .ok out) : '\n' ∉ out.toList := by
  obtain ⟨outs, houts, rfl⟩ := Except.map_eq_ok_iff.mp hout
  have hall := Except.forall₂_of_mapM houts
  clear hout houts
  induction hall with
  | nil => exact List.not_mem_nil
  | @cons x out ps outs hx _ ih =>
      rw [lineText, List.flatMap_cons, List.mem_append, not_or] at hl
      rw [String.join_cons, String.toList_append, List.mem_append, not_or]
      exact ⟨not_mem_writePiece hp hl.1 hx, ih hl.2⟩

/-- What is written of lines of pieces without line feeds holds none. -/
lemma not_mem_writeLines (hp : p.SparesBreaks) {layout : List (List Piece)} {ls : List String}
    (hlayout : ∀ l ∈ layout, '\n' ∉ lineText l) (hls : layout.mapM p.writeLine = .ok ls) :
    ∀ k ∈ ls, '\n' ∉ k.toList := by
  have hall := Except.forall₂_of_mapM hls
  intro k hk
  obtain ⟨i, hi, rfl⟩ := List.getElem_of_mem hk
  have hi' : i < layout.length := hall.length_eq ▸ hi
  exact not_mem_writeLine hp (hlayout _ (List.getElem_mem hi'))
    (List.forall₂_iff_get.mp hall |>.2 i hi' hi)

/-- A number is written without line feeds. -/
lemma not_mem_padded (width n : Nat) : '\n' ∉ (Integer.padded width n).toList := by
  rw [Integer.padded, String.toList_ofList, List.mem_append, not_or, Integer.decimal]
  refine ⟨fun h => absurd (List.eq_of_mem_replicate h) (by decide), fun h => ?_⟩
  exact absurd (Nat.isDigit_of_mem_toDigits (by omega) (by omega) h) (by decide)

/-- Numbered lines hold no line feeds if the lines do not. -/
lemma not_mem_numberLines (hp : p.AddsNoBreaks) {ls : List String}
    (hls : ∀ l ∈ ls, '\n' ∉ l.toList) : ∀ l ∈ p.numberLines ls, '\n' ∉ l.toList := by
  intro l hl
  obtain ⟨⟨k, n⟩, hk, rfl⟩ := List.mem_map.mp hl
  rw [String.toList_append, List.mem_append, not_or]
  refine ⟨hp.gutter _ ?_, hls k (List.fst_mem_of_mem_zipIdx hk)⟩
  rw [String.toList_append, List.mem_append, not_or]
  exact ⟨not_mem_padded _ n, hp.separator⟩

lemma length_numberLines (p : Printer) (ls : List String) :
    (p.numberLines ls).length = ls.length := by
  simp [numberLines]

/-- Lines that are put together. -/
lemma toList_intercalate_lines (ls : List String) :
    ("\n".intercalate ls).toList = joinLines (ls.map String.toList) := by
  rw [String.toList_intercalate, joinLines, joinWith_eq_intercalate]
  rfl

/-- The lines of lines that are put together. -/
lemma lines_intercalate {ls : List String} (hne : ls ≠ []) (h : ∀ l ∈ ls, '\n' ∉ l.toList) :
    lines ("\n".intercalate ls).toList = ls.map String.toList := by
  rw [toList_intercalate_lines]
  refine lines_joinLines (by simpa using hne) fun l hl => ?_
  obtain ⟨k, hk, rfl⟩ := List.mem_map.mp hl
  exact h k hk

/-- **One line is written for each line of pieces** by a printer that adds no line feeds, behind a
number or without. -/
theorem lines_write (hp : p.AddsNoBreaks) {lineNumbers : Bool} {layout : List (List Piece)}
    {out : String} (hne : layout ≠ []) (hlayout : ∀ l ∈ layout, '\n' ∉ lineText l)
    (hout : p.write lineNumbers layout = .ok out) :
    ∃ ls, List.Forall₂ (fun l k => p.writeLine l = .ok k) layout ls ∧
      lines out.toList = (if lineNumbers then p.numberLines ls else ls).map String.toList := by
  obtain ⟨ls, hls, rfl⟩ := Except.map_eq_ok_iff.mp hout
  have hall := Except.forall₂_of_mapM hls
  have hlength : 0 < ls.length := hall.length_eq ▸ List.length_pos_of_ne_nil hne
  have hfree := not_mem_writeLines hp.palettes hlayout hls
  refine ⟨ls, hall, ?_⟩
  split
  · refine lines_intercalate ?_ (not_mem_numberLines hp hfree)
    rw [← List.length_pos_iff, length_numberLines]
    exact hlength
  · exact lines_intercalate (List.length_pos_iff.mp hlength) hfree

end Printer

/-! ### Rendered documents -/

/-- What is rendered of a stream with tokens is written of its lines. -/
lemma Printer.write_of_render {p : Printer} {s : Stream} {m : Matches} {lineNumbers : Bool}
    {r : String × List Found} (hs : s.size ≠ 0) (h : p.render s m lineNumbers = .ok r) :
    p.write lineNumbers (s.layout m).1 = .ok r.1 := by
  rw [render, if_neg hs] at h
  obtain ⟨text, htext, h⟩ := Except.bind_eq_ok_iff.mp h
  rw [Except.mapError_eq_ok_iff] at htext
  split at h
  · cases h
  · cases h
    exact htext

/-- **A rendered document has as many lines as its source** if the printer adds no line feeds, with
line numbers and without. -/
theorem length_lines_render {source : String} {d : Parsed} (h : parse source = .ok d)
    {p : Printer} (hp : p.AddsNoBreaks) {m : Matches} {lineNumbers : Bool}
    {r : String × List Found} (hr : p.render d.tokens m lineNumbers = .ok r) :
    (lines r.1.toList).length = (lines source.toList).length := by
  have hlines := map_lineText_layout h m
  have hwrite := Printer.write_of_render (size_tokens_ne_zero h) hr
  have hne : (d.tokens.layout m).1 ≠ [] := by
    rw [Ne, ← List.map_eq_nil_iff (f := lineText), hlines]
    exact splitOn_ne_nil '\n' _
  obtain ⟨ls, hall, hout⟩ := Printer.lines_write hp hne (not_mem_layoutLines _) hwrite
  calc (lines r.1.toList).length
      = ls.length := by
        rw [hout, List.length_map]
        split
        · exact Printer.length_numberLines p ls
        · rfl
    _ = ((d.tokens.layout m).1.map lineText).length := by
        rw [List.length_map, hall.length_eq]
    _ = (lines source.toList).length := by rw [hlines]

end YamlNavigator
