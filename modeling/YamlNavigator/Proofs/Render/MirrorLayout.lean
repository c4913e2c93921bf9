import YamlNavigator.Proofs.Document.MirrorQuery
import YamlNavigator.Proofs.Render.Strokes
import YamlNavigator.Proofs.Render.Styles

/-!
The strokes of a text and of its spelling.

* `Marked.margin`, `agreeIff_linePieces`: the strokes of lines are the same if and only if their
  margins are;
* `Stream.Twins`, `Stream.Twins.categorize_eq`, `Stream.Twins.rel_highlight`: the tokens of a text
  and of its spelling have the same categories, and are highlighted alike;
* `Parsed.keepsMargins`, `sameMargins_iff`: no margin that a query leaves unpainted changes its
  width in the spelling;
* `strokes_text`: the strokes of a spelled text are those of the text, as they are spelled, if and
  only if no margin changes its width.
-/

namespace YamlNavigator

open Text Yaml

/-! ### Strokes of lines -/

namespace Marked

/-- The width of the margin of a continued line that stays unpainted, before it is cut to the length
of the line. -/
def margin (t : Marked) (line : List Char) : Int :=
  (t.ownIndent.map fun i => min i ((line.takeWhile (· = ' ')).length : Int)).getD 0

/-- Tokens that are marked alike, but for the margins. A margin does not reach behind the spaces
that a line begins with. -/
structure Twins (t t' : Marked) : Prop where
  isOn : t'.highlight.isOn = t.highlight.isOn
  category : t'.category = t.category
  margin : ∀ line : List Char, ∃ k k' : Nat, t.margin line = k ∧ t'.margin line = k' ∧
    k ≤ (line.takeWhile (· = ' ')).length ∧ k' ≤ (line.takeWhile (· = ' ')).length

end Marked

section Lines

variable {w : Spelling} {t t' : Marked} {continued broken : Bool} {line : List Char}

/-- Without its carriage return a line begins with the same blanks. -/
lemma takeWhile_splitReturn (broken : Bool) (line : List Char) :
    (splitReturn broken line).1.takeWhile (· = ' ') = line.takeWhile (· = ' ') := by
  have happend := splitReturn_append broken line
  rcases splitReturn_cases broken line with hending | ⟨hending, -⟩
  · rw [hending] at happend
    conv => rhs; rw [← happend]
    rw [List.takeWhile_append]
    split
    · next hall =>
        rw [List.takeWhile_cons_of_neg (by decide), List.append_nil]
        exact (List.takeWhile_prefix _).eq_of_length hall
    · rfl
  · rw [hending, List.append_nil] at happend
    rw [happend]

/-- Tokens that are marked alike have the same pieces in a line, if the margin is the same. -/
lemma cutLine_congr (h : t.Twins t') (hmargin : continued = true → t'.margin line = t.margin line) :
    cutLine t' continued broken line = cutLine t continued broken line := by
  have hwidth : unpaintedWidth t' continued (splitReturn broken line).1 =
      unpaintedWidth t continued (splitReturn broken line).1 := by
    cases continued with
    | false => rfl
    | true =>
        have hblanks := takeWhile_splitReturn broken line
        have hmargin := hmargin rfl
        rw [Marked.margin, Marked.margin, ← hblanks] at hmargin
        exact congrArg (clampBound _) hmargin
  rw [cutLine_eq, cutLine_eq]
  dsimp only
  rw [hwidth, h.isOn, h.category]

/-- A margin within the spaces that a continued line begins with is the width of what stays
unpainted. -/
lemma unpaintedWidth_eq (broken : Bool) {k : Nat} (h : t.margin line = k)
    (hle : k ≤ (line.takeWhile (· = ' ')).length) :
    unpaintedWidth t true (splitReturn broken line).1 = k ∧
      k ≤ (splitReturn broken line).1.length := by
  have hblanks := takeWhile_splitReturn broken line
  rw [Marked.margin, ← hblanks] at h
  have hlength := (List.takeWhile_prefix (· = ' ') (l := (splitReturn broken line).1)).length_le
  rw [hblanks] at hlength
  refine ⟨?_, by omega⟩
  show clampBound _ (Option.getD _ 0) = k
  rw [h, clampBound, if_neg (by omega)]
  omega

/-- The strokes of a text of which a front stays unpainted. -/
def marginStrokes (on : Bool) (c : Category) (text : List Char) (width : Nat) : List Stroke :=
  (text.take width).map .plain ++
    if (text.drop width).isEmpty then [] else [.styled on c (text.drop width)]

/-- The strokes of a line of a token with a category. -/
lemma strokes_cutLine {c : Category} (hc : t.category = some c) :
    strokesOf (cutLine t continued broken line) =
      let (text, ending) := splitReturn broken line
      marginStrokes t.highlight.isOn c text (unpaintedWidth t continued text) ++
        ending.map .plain := by
  rw [cutLine_eq]
  dsimp only
  rw [strokesOf_append, strokesOf_append, marginStrokes, hc]
  split <;> simp [strokesOf, Piece.strokes]

/-- If a narrower front of a text stays unpainted, its strokes differ behind that front. -/
lemma diverge_of_lt {k k' : Nat} {text : List Char} (hlt : k < k') (hle : k' ≤ text.length)
    (on : Bool) (c : Category) :
    Diverge (marginStrokes on c text k) (marginStrokes on c text k') := by
  obtain ⟨b, rest, hdrop⟩ : ∃ b rest, text.drop k = b :: rest :=
    List.exists_cons_of_ne_nil (by simp; omega)
  obtain ⟨n, rfl⟩ := Nat.exists_eq_add_of_lt hlt
  have htake : text.take (k + n + 1) = text.take k ++ b :: rest.take n := by
    rw [Nat.add_assoc, List.take_add, hdrop, List.take_succ_cons]
  rw [marginStrokes, marginStrokes, htake, hdrop, if_neg (by simp), List.map_append, List.map_cons,
    List.append_assoc, List.cons_append]
  exact Diverge.append_left ⟨[], _, _, _, _, by simp, rfl, rfl⟩ _

/-- A line has the same strokes if the margin is the same, and other strokes if it is not. -/
lemma agreeIff_cutLine (h : t.Twins t') {c : Category} (hc : t.category = some c)
    (continued broken : Bool) (line : List Char) :
    AgreeIff (continued = true → t'.margin line = t.margin line)
      (strokesOf (cutLine t' continued broken line))
      (strokesOf (cutLine t continued broken line)) where
  eq hmargin := by rw [cutLine_congr h hmargin]
  diverge hnot := by
    obtain ⟨rfl, hne⟩ := Classical.not_imp.mp hnot
    obtain ⟨k, k', hk, hk', hle, hle'⟩ := h.margin line
    obtain ⟨hwidth, hlength⟩ := unpaintedWidth_eq broken hk hle
    obtain ⟨hwidth', hlength'⟩ := unpaintedWidth_eq broken hk' hle'
    rw [strokes_cutLine hc, strokes_cutLine (h.category.trans hc)]
    dsimp only
    rw [hwidth, hwidth', h.isOn]
    rcases Nat.lt_trichotomy k k' with hlt | rfl | hlt
    · exact (diverge_of_lt hlt hlength' _ c).symm.append_right _ _
    · exact absurd (hk'.trans hk.symm) hne
    · exact (diverge_of_lt hlt hlength _ c).append_right _ _

/-- A character that stands as it is belongs to the text. -/
lemma mem_text_of_plain {c : Char} {ps : List Piece} (h : .plain c ∈ strokesOf ps) :
    c ∈ ps.flatMap Piece.text := by
  obtain ⟨x, hx, hc⟩ := List.mem_flatMap.mp h
  refine List.mem_flatMap.mpr ⟨x, hx, ?_⟩
  rcases x with s | ⟨on, _ | category, s⟩
  · simpa [Piece.strokes, Piece.text] using hc
  · simpa [Piece.strokes, Piece.text] using hc
  · simp [Piece.strokes] at hc

/-- A line has the same strokes with what is spelled in front of its line feed, and these
characters. -/
lemma strokes_cutLine_ending (h : w.returns = true → '\r' ∉ line) :
    strokesOf (cutLine t continued true (line ++ w.ending)) =
      strokesOf (cutLine t continued true line) ++ w.ending.map .plain := by
  cases hreturns : w.returns with
  | false =>
      rw [Spelling.ending, if_neg (by simp [hreturns]), List.append_nil, List.map_nil,
        List.append_nil]
  | true =>
      have hsplit : splitReturn true (line ++ ['\r']) = (line, ['\r']) := by simp [splitReturn]
      have hline : splitReturn true line = (line, []) := by
        rw [splitReturn, if_neg]
        intro hlast
        exact h hreturns (List.mem_of_getLast? (by simpa using hlast))
      rw [Spelling.ending, if_pos hreturns, cutLine_eq, cutLine_eq, hsplit, hline]
      dsimp only
      rw [strokesOf_append, strokesOf_append _ [.bare []], List.append_assoc]
      rfl

/-- The pieces of lines of a token. -/
def linePieces (t : Marked) (continued : Bool) : List (List Char) → List (List Piece)
  | [] => []
  | l :: ls => cutLine t continued (!ls.isEmpty) l :: continuedLines t ls

lemma continuedLines_eq (t : Marked) (ls : List (List Char)) :
    continuedLines t ls = linePieces t true ls := by
  cases ls with
  | nil => rfl
  | cons l ls => exact continuedLines_cons t l ls

lemma tokenLines_eq (t : Marked) : tokenLines t = linePieces t false (lines t.origin) := by
  rw [tokenLines]
  cases lines t.origin <;> rfl

/-- The strokes of a line with other lines behind it. -/
lemma strokes_linePieces_cons (t : Marked) (continued : Bool) (l : List Char)
    {ls : List (List Char)} (hne : ls ≠ []) :
    strokesOf (joinPieces (linePieces t continued (l :: ls))) =
      strokesOf (cutLine t continued true l) ++
        .plain '\n' :: strokesOf (joinPieces (linePieces t true ls)) := by
  obtain ⟨m, ls, rfl⟩ := List.exists_cons_of_ne_nil hne
  rw [linePieces, continuedLines_eq, linePieces, joinPieces, List.intercalate_cons_cons,
    ← joinPieces, strokesOf_append, strokesOf_append, List.append_assoc]
  rfl

/-- No line is cut to strokes with a line feed that stands as it is. -/
lemma not_mem_strokes_cutLine (h : '\n' ∉ line) :
    .plain '\n' ∉ strokesOf (cutLine t continued broken line) := by
  intro hmem
  have htext := mem_text_of_plain hmem
  rw [text_cutLine] at htext
  exact h htext

/-- **The strokes of lines in another spelling** are those of the lines, as they are spelled, if and
only if the margins of the continued lines are the same. -/
theorem agreeIff_linePieces (h : t.Twins t') {c : Category} (hc : t.category = some c) :
    ∀ (continued : Bool) (ls : List (List Char)),
      (∀ l ∈ ls, '\n' ∉ l ∧ (w.returns = true → '\r' ∉ l)) →
        AgreeIff (∀ l ∈ (if continued then ls else ls.tail), t'.margin l = t.margin l)
          (strokesOf (joinPieces (linePieces t' continued (w.breakLines ls))))
          (w.strokes (strokesOf (joinPieces (linePieces t continued ls))))
  | continued, [], _ => .of_eq (by cases continued <;> simp) rfl
  | continued, [l], hls => by
      rw [Spelling.breakLines, linePieces, linePieces, continuedLines, continuedLines, joinPieces,
        joinPieces, List.intercalate_singleton, List.intercalate_singleton,
        w.strokes_of_not_mem (not_mem_strokes_cutLine (hls l List.mem_cons_self).1)]
      exact (agreeIff_cutLine h hc continued false l).congr (by cases continued <;> simp)
  | continued, l :: m :: ls, hls => by
      obtain ⟨hline, hreturn⟩ := hls l List.mem_cons_self
      have ih := agreeIff_linePieces h hc true (m :: ls) fun k hk =>
        hls k (List.mem_cons_of_mem l hk)
      have hhead := agreeIff_cutLine h hc continued true l
      have hfeed : AgreeIff True (w.ending.map .plain ++ [.plain '\n']) (w.stroke (.plain '\n')) :=
        .of_eq trivial (by rw [Spelling.stroke, Spelling.char_lineFeed_eq, List.map_append]; rfl)
      have hne : w.breakLines (m :: ls) ≠ [] := by cases ls <;> simp [Spelling.breakLines]
      have hall := (hhead.append hfeed).append ih
      rw [Spelling.breakLines, strokes_linePieces_cons t' continued _ hne,
        strokes_linePieces_cons t continued l (List.cons_ne_nil m ls), Spelling.strokes_append,
        w.strokes_of_not_mem (not_mem_strokes_cutLine hline), strokes_cutLine_ending hreturn,
        Spelling.strokes, List.flatMap_cons, ← Spelling.strokes]
      simp only [List.append_assoc, List.singleton_append] at hall ⊢
      exact hall.congr (by cases continued <;> simp)

/-- A token without a category stands as it is. -/
lemma strokes_tokenLines_of_none (h : t.category = none) :
    strokesOf (joinPieces (tokenLines t)) = t.origin.map .plain := by
  have hcut := isCut_tokenLines t
  rw [strokesOf_of_none fun on c s hs => (hcut.painted hs).2.1.trans h, hcut.text_eq]

/-- The margins of a token that is painted are the same. -/
def Marked.SameMargins (t t' : Marked) : Prop :=
  t.category = none ∨ ∀ l ∈ (lines t.origin).tail, t'.margin l = t.margin l

/-- A token that is spelled has the strokes of the token, as they are spelled, if and only if the
margins are the same. -/
lemma agreeIff_tokenLines_even (h : t.Twins t') (horigin : t'.origin = w.body t.origin)
    (hreturn : w.returns = true → '\r' ∉ t.origin) :
    AgreeIff (t.SameMargins t') (strokesOf (joinPieces (tokenLines t')))
      (w.strokes (strokesOf (joinPieces (tokenLines t)))) := by
  cases hc : t.category with
  | none =>
      refine .of_eq (.inl hc) ?_
      rw [strokes_tokenLines_of_none hc, strokes_tokenLines_of_none (h.category.trans hc), horigin,
        Spelling.strokes_plain]
  | some c =>
      rw [tokenLines_eq, tokenLines_eq, horigin, Spelling.lines_body]
      refine (agreeIff_linePieces h hc false _ fun l hl =>
        ⟨not_mem_of_mem_splitOn hl, fun hw hr => hreturn hw (mem_of_mem_splitOn hl hr)⟩).congr ?_
      rw [Marked.SameMargins, hc]
      exact ⟨.inr, fun hmargins => hmargins.resolve_left nofun⟩

/-- A token that begins with a line feed, and whose carriage return stands in the token before. -/
lemma agreeIff_tokenLines_uneven {rest : List Char} (h : t.Twins t') (hw : w.returns = true)
    (horigin : t.origin = '\n' :: rest) (horigin' : t'.origin = '\n' :: w.body rest)
    (hreturn : '\r' ∉ t.origin) :
    AgreeIff (t.SameMargins t') (.plain '\r' :: strokesOf (joinPieces (tokenLines t')))
      (w.strokes (strokesOf (joinPieces (tokenLines t)))) := by
  have hchar : w.char '\n' = ['\r', '\n'] := by rw [Spelling.char_lineFeed, if_pos hw]; rfl
  cases hc : t.category with
  | none =>
      refine .of_eq (.inl hc) ?_
      rw [strokes_tokenLines_of_none hc, strokes_tokenLines_of_none (h.category.trans hc), horigin,
        horigin', Spelling.strokes_plain, Spelling.body_cons, hchar]
      rfl
  | some c =>
      have hlines : ∀ s, lines ('\n' :: s) = [] :: lines s := fun s => splitOn_append_cons [] s
      have hne : ∀ s, lines s ≠ [] := splitOn_ne_nil '\n'
      have hnil : ∀ u : Marked, strokesOf (cutLine u false true []) = [] := fun _ => rfl
      rw [horigin] at hreturn
      have hrest := agreeIff_linePieces (w := w) h hc true (lines rest) fun l hl =>
        ⟨not_mem_of_mem_splitOn hl, fun _ hr =>
          hreturn (List.mem_cons_of_mem _ (mem_of_mem_splitOn hl hr))⟩
      have hfront : AgreeIff True [.plain '\r', .plain '\n'] (w.stroke (.plain '\n')) :=
        .of_eq trivial (by rw [Spelling.stroke, hchar]; rfl)
      rw [tokenLines_eq, tokenLines_eq, horigin, horigin', hlines, hlines,
        strokes_linePieces_cons t false [] (hne rest), hnil, Spelling.lines_body,
        strokes_linePieces_cons t' false [] (Spelling.lines_body (w := w) rest ▸ hne _), hnil,
        List.nil_append, List.nil_append, Spelling.strokes, List.flatMap_cons, ← Spelling.strokes]
      refine (hfront.append hrest).congr ?_
      rw [Marked.SameMargins, hc, horigin, hlines]
      simp

end Lines

/-! ### Categories and states -/

/-- A token of a text and one of its spelling are highlighted alike. -/
structure Highlight.Twins (w : Spelling) (s : List Char) (h h' : Highlight) : Prop where
  isOn : h'.isOn = h.isOn
  owner : Option.Rel (Found.Twins w s) h.owner h'.owner

namespace Stream

/-- The streams of a text and of its spelling: behind the token of a byte order mark, if one is put
in front, are tokens that hold the spellings of the tokens of the text. -/
structure Twins (w : Spelling) (s s' : Stream) : Prop where
  isIndexed : s.IsIndexed
  isIndexed_spelled : s'.IsIndexed
  tokens : ∃ front ts', s'.tokens.toList = front ++ ts' ∧ front.length = w.front.length ∧
    (∀ t ∈ front, t.kind = .other ∧ t.origin.toList = ['\ufeff']) ∧
    TokensSpelled w s.tokens.toList ts' ∧ ts'.head?.map Token.kind = some .other

namespace Twins

variable {w : Spelling} {s s' : Stream} {i : Nat} {t t' : Token}

/-- Tokens at places that correspond. -/
lemma rel_token (h : s.Twins w s') (i : Nat) :
    Option.Rel (Token.Shifted w) s.tokens[i]? s'.tokens[i + w.front.length]? := by
  obtain ⟨front, ts', htokens, hlength, -, hts, -⟩ := h.tokens
  rw [← Array.getElem?_toList, ← Array.getElem?_toList, htokens, ← hlength,
    List.getElem?_append_right (Nat.le_add_left _ i), Nat.add_sub_cancel]
  exact rel_getElem? hts.forall₂ i

/-- The kinds of tokens at places that correspond. -/
lemma kind_eq (h : s.Twins w s') (i : Nat) :
    s'.tokens[i + w.front.length]?.map Token.kind = s.tokens[i]?.map Token.kind := by
  have hrel := h.rel_token i
  generalize s.tokens[i]? = t at hrel ⊢
  generalize s'.tokens[i + w.front.length]? = t' at hrel ⊢
  cases hrel with
  | some ht => exact congrArg some ht.kind
  | none => rfl

/-- In front of the first token is nothing, or the token of a byte order mark. -/
lemma kind_front (h : s.Twins w s') (hi : i < w.front.length) :
    s'.tokens[i]?.map Token.kind = some .other := by
  obtain ⟨front, ts', htokens, hlength, hfront, -⟩ := h.tokens
  rw [← hlength] at hi
  rw [← Array.getElem?_toList, htokens, List.getElem?_append_left hi,
    List.getElem?_eq_getElem hi]
  exact congrArg some (hfront _ (List.getElem_mem hi)).1

/-- Tokens at places that correspond have the same category. -/
theorem categorize_eq (h : s.Twins w s') (ht : s.tokens[i]? = some t)
    (ht' : s'.tokens[i + w.front.length]? = some t') : s'.categorize t' = s.categorize t := by
  have hkind := h.kind_eq i
  have hafter := h.kind_eq (i + 1)
  rw [ht, ht'] at hkind
  rw [Nat.add_right_comm] at hafter
  rw [Stream.categorize_eq h.isIndexed ht, Stream.categorize_eq h.isIndexed_spelled ht', hafter,
    Option.some.inj hkind]
  refine congrArg Except.ok ?_
  cases i with
  | succ i =>
      have hbefore := h.kind_eq i
      rw [if_neg (by omega), if_neg (by omega), Nat.add_right_comm, Nat.add_sub_cancel, hbefore,
        Nat.add_sub_cancel]
  | zero =>
      -- a byte order mark in front decides no more than the start of the stream
      rw [Nat.zero_add, if_pos rfl]
      split
      · rfl
      · rw [h.kind_front (by omega)]
        rfl

/-- Tokens at places that correspond are highlighted alike. -/
theorem rel_highlight {source : List Char} {m m' : Matches} (h : s.Twins w s')
    (hm : m.Twins w source m') (ht : s.tokens[i]? = some t)
    (ht' : s'.tokens[i + w.front.length]? = some t') :
    ∃ a a', s.highlight m t = .ok a ∧ s'.highlight m' t' = .ok a' ∧ a.Twins w source a' := by
  have hrel := h.rel_token i
  rw [ht, ht'] at hrel
  cases hrel with
  | some hshifted =>
      have hoff : Highlight.Twins w source .off .off := ⟨rfl, .none⟩
      have hnext := h.rel_token (i + 1)
      rw [Nat.add_right_comm] at hnext
      rw [highlight, highlight, hm.highlights_eq hshifted, hshifted.kind,
        next_of_isIndexed h.isIndexed ht, next_of_isIndexed h.isIndexed_spelled ht']
      split
      · exact ⟨_, _, rfl, rfl, rfl, hm.rel_owner? hshifted⟩
      · split
        · generalize s.tokens[i + 1]? = u at hnext ⊢
          generalize s'.tokens[i + w.front.length + 1]? = u' at hnext ⊢
          cases hnext with
          | none => exact ⟨_, _, rfl, rfl, hoff⟩
          | @some u u' hu =>
              simp only [bind, Except.bind]
              rw [hm.highlights_eq hu]
              split
              · exact ⟨_, _, rfl, rfl, rfl, hm.rel_owner? hu⟩
              · exact ⟨_, _, rfl, rfl, hoff⟩
        · exact ⟨_, _, rfl, rfl, hoff⟩

end Twins

end Stream

/-! ### Margins -/

/-- The line of the match that a highlighted token belongs to. -/
def Highlight.line? (h : Highlight) : Option Int :=
  if h.isOn then (h.owner.bind fun f => f.node.token).map (·.position.line) else none

/-- The width of the margin of a continued line in a text. It reaches up to the column where the
content of the line of the match starts, but no further than the spaces that the continued line
begins with. -/
def Highlight.marginIn (h : Highlight) (s continued : List Char) : Nat :=
  match h.line? with
  | some line => min (indentOf s line) (continued.takeWhile (· = ' ')).length
  | none => 0

/-- Are all margins of a token that is painted as wide in the spelling of a text as in the text? -/
def Marked.keepsMargins (w : Spelling) (s : List Char) (x : Marked) : Bool :=
  x.category.isNone || (lines x.origin).tail.all fun line =>
    x.highlight.marginIn (w.text s) line == x.highlight.marginIn s line

/-- Are the margins of a token of a stream as wide in the spelling of a text as in the text? -/
def Stream.keepsMargins (w : Spelling) (source : List Char) (s : Stream) (m : Matches) (t : Token) :
    Bool :=
  match s.mark m t with
  | .ok x => x.keepsMargins w source
  | .error _ => true

/-- No margin of a painted token changes its width in the spelling of a text, for a query. -/
def Parsed.keepsMargins (w : Spelling) (d : Parsed) (query : String) : Bool :=
  d.tokens.tokens.toList.all
    (d.tokens.keepsMargins w d.source.toList (d.documents.query query))

section Margins

variable {w : Spelling} {s : List Char} {h h' : Highlight}

lemma Highlight.marginIn_le (h : Highlight) (s line : List Char) :
    h.marginIn s line ≤ (line.takeWhile (· = ' ')).length := by
  rw [marginIn]
  split
  · exact Nat.min_le_right ..
  · exact Nat.zero_le _

/-- The margins of tokens that are highlighted alike, in the text and in its spelling. -/
lemma margins_eq (hh : h.Twins w s h') (c : Option Category) (o o' line : List Char) :
    Marked.margin ⟨h, c, o⟩ line = h.marginIn s line ∧
      Marked.margin ⟨h', c, o'⟩ line = h.marginIn (w.text s) line := by
  obtain ⟨on, owner⟩ := h
  obtain ⟨on', owner'⟩ := h'
  obtain ⟨hon, howner⟩ := hh
  obtain rfl : on' = on := hon
  rw [Marked.margin, Marked.margin, Marked.ownIndent, Marked.ownIndent, Highlight.marginIn,
    Highlight.marginIn, Highlight.line?]
  cases on' with
  | false => exact ⟨rfl, rfl⟩
  | true =>
      dsimp only at howner ⊢
      cases howner with
      | none => exact ⟨rfl, rfl⟩
      | @some f f' hf =>
          obtain ⟨hroot, -⟩ := hf.node
          have htoken := hroot.token
          simp only [Option.bind_some, if_pos]
          generalize f.node.token = u at htoken ⊢
          generalize f'.node.token = u' at htoken ⊢
          cases htoken with
          | none => exact ⟨rfl, rfl⟩
          | @some u u' hu =>
              simp only [Option.map_some, Option.getD_some, hu.indent, hu.indent_text]
              omega

/-- Tokens that are highlighted alike are marked alike. -/
lemma twins_of_highlight (hh : h.Twins w s h') (c : Option Category) (o o' : List Char) :
    Marked.Twins ⟨h, c, o⟩ ⟨h', c, o'⟩ where
  isOn := hh.isOn
  category := rfl
  margin line :=
    ⟨_, _, (margins_eq hh c o o' line).1, (margins_eq hh c o o' line).2, h.marginIn_le s line,
      h.marginIn_le (w.text s) line⟩

/-- Tokens that are highlighted alike have the same margins if and only if these keep their
widths. -/
lemma sameMargins_iff (hh : h.Twins w s h') (c : Option Category) (o o' : List Char) :
    Marked.SameMargins ⟨h, c, o⟩ ⟨h', c, o'⟩ ↔ Marked.keepsMargins w s ⟨h, c, o⟩ = true := by
  have hmargin : ∀ line, Marked.margin ⟨h', c, o'⟩ line = Marked.margin ⟨h, c, o⟩ line ↔
      h.marginIn (w.text s) line = h.marginIn s line := fun line => by
    rw [(margins_eq hh c o o' line).1, (margins_eq hh c o o' line).2, Int.ofNat_inj]
  simp only [Marked.SameMargins, Marked.keepsMargins, hmargin, Bool.or_eq_true,
    Option.isNone_iff_eq_none, List.all_eq_true, beq_iff_eq]

end Margins

/-! ### Strokes of tokens -/

/-- The marks of a token of a text and of its spelling, with what the strokes of the two depend
on. -/
structure Marked.Spelled (w : Spelling) (t t' : Token) (x x' : Marked) : Prop
    extends Marked.Twins x x' where
  origin : x.origin = t.origin.toList
  origin_spelled : x'.origin = t'.origin.toList
  comment : t.kind = .comment → x.category = none
  noReturn : w.returns = true → '\r' ∉ x.origin

namespace Stream

/-- The strokes of a token. -/
def tokenStrokes (s : Stream) (m : Matches) (t : Token) : List Stroke :=
  match s.mark m t with
  | .ok x => strokesOf (joinPieces (tokenLines x))
  | .error _ => []

/-- The strokes of a token that is marked. -/
lemma tokenStrokes_of_mark {s : Stream} {m : Matches} {t : Token} {x : Marked}
    (h : s.mark m t = .ok x) : s.tokenStrokes m t = strokesOf (joinPieces (tokenLines x)) := by
  rw [tokenStrokes, h]

/-- The lines of an indexed stream have the strokes of its tokens. -/
lemma strokes_layout {s : Stream} (hs : s.IsIndexed) (m : Matches) :
    strokesOf (joinPieces (s.layout m).1) = s.tokens.toList.flatMap (s.tokenStrokes m) := by
  have hall : ∀ ts : List Token, (∀ t ∈ ts, t ∈ s.tokens.toList) →
      strokesOf (joinPieces (layoutLines (s.markAll m (ts.filter fun t => !t.origin.isEmpty)).1)) =
        ts.flatMap (s.tokenStrokes m) := by
    intro ts
    induction ts with
    | nil => exact fun _ => rfl
    | cons t ts ih =>
        intro hmem
        obtain ⟨h, c, hh, hc⟩ := exists_mark hs m (hmem t List.mem_cons_self)
        have ih := ih fun u hu => hmem u (List.mem_cons_of_mem t hu)
        have hmark : s.mark m t = .ok ⟨h, c, t.origin.toList⟩ := by
          rw [mark, hh, hc]
          rfl
        rw [List.flatMap_cons, ← ih, tokenStrokes_of_mark hmark]
        by_cases hempty : t.origin.isEmpty
        · have horigin : t.origin.toList = [] := by simpa using hempty
          rw [List.filter_cons_of_neg (by simpa using hempty), horigin]
          rfl
        · rw [List.filter_cons_of_pos (by simpa using hempty), markAll, hmark]
          dsimp only
          rw [layoutLines, joinPieces_glueLines (tokenLines_ne_nil _) (layoutLines_ne_nil _),
            strokesOf_append]
  exact hall s.tokens.toList fun _ ht => ht

/-- Tokens that are marked alike, one by one, have the strokes of the others, as they are spelled,
if and only if the margins of each are the same. -/
lemma agreeIff_tokenStrokes {w : Spelling} {s s' : Stream} {m m' : Matches} {P : Token → Prop}
    {ts ts' : List Token}
    (h : Respelled w (fun t => t.origin.toList) (fun t t' => ∃ x x', s.mark m t = .ok x ∧
      s'.mark m' t' = .ok x' ∧ x.Spelled w t t' x' ∧ (x.SameMargins x' ↔ P t))
      (fun t => t.kind = .comment) ts ts') :
    AgreeIff (∀ t ∈ ts, P t) (ts'.flatMap (s'.tokenStrokes m'))
      (w.strokes (ts.flatMap (s.tokenStrokes m))) := by
  induction h with
  | nil => exact .of_eq (fun _ ht => by cases ht) rfl
  | @even t t' ts ts' rel origin_eq _ ih =>
      obtain ⟨x, x', hx, hx', hspelled, hmargins⟩ := rel
      rw [← hspelled.origin, ← hspelled.origin_spelled] at origin_eq
      have htoken := agreeIff_tokenLines_even hspelled.toTwins origin_eq hspelled.noReturn
      rw [List.flatMap_cons, List.flatMap_cons, Spelling.strokes_append, tokenStrokes_of_mark hx,
        tokenStrokes_of_mark hx']
      exact ((htoken.congr hmargins).append ih).congr List.forall_mem_cons.symm
  | @uneven t t' u u' ts ts' rest returns isEarly rel origin_eq rel' feed feed' _ ih =>
      obtain ⟨x, x', hx, hx', hspelled, hmargins⟩ := rel
      obtain ⟨y, y', hy, hy', hspelled', hmargins'⟩ := rel'
      rw [← hspelled.origin, ← hspelled.origin_spelled] at origin_eq
      rw [← hspelled'.origin] at feed
      rw [← hspelled'.origin_spelled] at feed'
      -- the comment stands as it is, with the carriage return behind it
      have hcategory := hspelled.comment isEarly
      have hcomment : AgreeIff (P t) ((w.body x.origin).map .plain)
          (w.strokes (strokesOf (joinPieces (tokenLines x)))) :=
        .of_eq (hmargins.mp (.inl hcategory))
          (by rw [strokes_tokenLines_of_none hcategory, Spelling.strokes_plain])
      have hbehind := agreeIff_tokenLines_uneven hspelled'.toTwins returns feed feed'
        (hspelled'.noReturn returns)
      have hall := hcomment.append ((hbehind.congr hmargins').append ih)
      rw [List.flatMap_cons, List.flatMap_cons, List.flatMap_cons, List.flatMap_cons,
        Spelling.strokes_append, Spelling.strokes_append, tokenStrokes_of_mark hx,
        tokenStrokes_of_mark hx', tokenStrokes_of_mark hy, tokenStrokes_of_mark hy',
        strokes_tokenLines_of_none (hspelled.category.trans hcategory), origin_eq, List.map_append,
        List.append_assoc]
      exact hall.congr (by rw [List.forall_mem_cons, List.forall_mem_cons])

end Stream

/-! ### Strokes of a text -/

/-- What is written of a document for a query. -/
def Parsed.strokes (d : Parsed) (query : String) : List Stroke :=
  strokesOf (joinPieces (d.tokens.layout (d.documents.query query)).1)

/-- The token of a byte order mark stands as it is. -/
lemma Stream.Twins.strokes_front {w : Spelling} {s s' : Stream} (h : s.Twins w s') (m' : Matches)
    {front ts' : List Token} (htokens : s'.tokens.toList = front ++ ts')
    (hlength : front.length = w.front.length)
    (hfront : ∀ t ∈ front, t.kind = .other ∧ t.origin.toList = ['\ufeff'])
    (hfirst : ts'.head?.map Token.kind = some .other) :
    front.flatMap (s'.tokenStrokes m') = w.front.map .plain := by
  cases hmarked : w.marked with
  | false =>
      rw [Spelling.front, if_neg (by simp [hmarked])] at hlength ⊢
      rw [List.eq_nil_of_length_eq_zero hlength]
      rfl
  | true =>
      rw [Spelling.front, if_pos hmarked] at hlength ⊢
      obtain ⟨t, rfl⟩ := List.length_eq_one_iff.mp hlength
      obtain ⟨hkind, horigin⟩ := hfront t List.mem_cons_self
      have hget : s'.tokens[0]? = some t := by
        rw [← Array.getElem?_toList, htokens]
        rfl
      have hafter : s'.tokens[0 + 1]?.map Token.kind = some .other := by
        rw [← Array.getElem?_toList, htokens, ← hfirst, List.head?_eq_getElem?]
        rfl
      have hcategory : s'.categorize t = .ok none := by
        rw [Stream.categorize_eq h.isIndexed_spelled hget, hafter, hkind]
        rfl
      obtain ⟨a, -, ha, -⟩ := exists_mark h.isIndexed_spelled m' (t := t)
        (by rw [htokens]; exact List.mem_append_left _ List.mem_cons_self)
      have hmark : s'.mark m' t = .ok ⟨a, none, ['\ufeff']⟩ := by
        rw [mark, ha, hcategory, horigin]
        rfl
      rw [List.flatMap_singleton, tokenStrokes_of_mark hmark, strokes_tokenLines_of_none rfl]

/-- The tokens of an accepted text hold characters of the text only. -/
lemma subset_of_mem_tokens {source : String} {d : Parsed} (h : parse source = .ok d) {t : Token}
    (ht : t ∈ d.tokens.tokens.toList) : t.origin.toList ⊆ source.toList := by
  obtain ⟨ls, es, rest, hls, -, -, htokens, -⟩ := exists_stages_of_parse h
  have htext := text_ofTiles (LineTable.ofText source.toList) (tiles source.toList ls)
  rw [← htokens, text_tiles (cover_of_scan hls), Stream.text] at htext
  rw [← String.ofList_injective htext]
  exact fun c hc => List.mem_flatMap.mpr ⟨t, ht, hc⟩

section Documents

variable {w : Spelling} {source : String} {d d' : Parsed} {query : String}

/-- Tokens at places that correspond are marked alike, but for margins that change their widths. -/
lemma exists_spelled (hs : w.Suits source.toList) (h : parse source = .ok d)
    (hstreams : d.tokens.Twins w d'.tokens)
    (hmatches : (d.documents.query query).Twins w source.toList (d'.documents.query query))
    {t t' : Token} (ht : t ∈ d.tokens.tokens.toList) (ht' : t' ∈ d'.tokens.tokens.toList)
    (hshifted : t.Shifted w t') :
    ∃ x x', d.tokens.mark (d.documents.query query) t = .ok x ∧
      d'.tokens.mark (d'.documents.query query) t' = .ok x' ∧ x.Spelled w t t' x' ∧
      (x.SameMargins x' ↔
        d.tokens.keepsMargins w d.source.toList (d.documents.query query) t = true) := by
  obtain ⟨i, hi, hindex⟩ := Stream.exists_index d.isIndexed ht
  obtain ⟨j, hj, hindex'⟩ := Stream.exists_index d'.isIndexed ht'
  obtain rfl : j = i + w.front.length := by
    have := hshifted.index
    omega
  obtain ⟨a, a', ha, ha', htwins⟩ := hstreams.rel_highlight hmatches hi hj
  obtain ⟨-, c, -, hc⟩ := Stream.exists_mark d.isIndexed (d.documents.query query) ht
  have hc' := (hstreams.categorize_eq hi hj).trans hc
  have hmark : d.tokens.mark (d.documents.query query) t = .ok ⟨a, c, t.origin.toList⟩ := by
    rw [Stream.mark, ha, hc]
    rfl
  refine ⟨⟨a, c, t.origin.toList⟩, ⟨a', c, t'.origin.toList⟩, hmark, ?_,
    ⟨twins_of_highlight htwins c _ _, rfl, rfl, fun hkind => ?_, fun hw hr =>
      hs.unreturned hw (subset_of_mem_tokens h ht hr)⟩, ?_⟩
  · rw [Stream.mark, ha', hc']
    rfl
  · rw [Stream.categorize_eq d.isIndexed hi, hkind] at hc
    exact (Except.ok.inj hc).symm
  · obtain ⟨-, -, -, -, -, -, -, hsource⟩ := exists_stages_of_parse h
    rw [Stream.keepsMargins, hmark, hsource]
    exact sameMargins_iff htwins c _ _

/-- **The strokes of a spelled text.** If a text is accepted, so is its spelling. The trees of the
documents correspond. What is written for a query without a line feed is the spelling of what is
written for the text, behind the byte order mark if one is put in front, if and only if no margin
changes its width; a query may hold line feeds if the lines do not end in another way. -/
theorem strokes_text (hs : w.Suits source.toList) (h : parse source = .ok d) :
    ∃ d' ds ds', parse (String.ofList (w.text source.toList)) = .ok d' ∧
      d.documents = .documentSetOf ds ∧ d'.documents = .documentSetOf ds' ∧
      List.Forall₂ (Node.Twins w source.toList "" "") ds ds' ∧
      ∀ query, (w.returns = true → '\n' ∉ query.toList) →
        (d'.strokes query = w.front.map .plain ++ w.strokes (d.strokes query) ↔
          d.keepsMargins w query = true) := by
  obtain ⟨d', ds, ds', ts', hd', hds, hds', htwins, htokens, hts', hfirst⟩ := parse_text hs h
  refine ⟨d', ds, ds', hd', hds, hds', htwins, fun query hquery => ?_⟩
  obtain ⟨front, hfront⟩ : ∃ front, front = tokensFrom (.ofText (w.text source.toList)) 0
    (List.replicate w.front.length Tile.mark) := ⟨_, rfl⟩
  rw [← hfront] at htokens
  have hlength : front.length = w.front.length := by simp [hfront, tokensFrom]
  have hmarks : ∀ t ∈ front, t.kind = .other ∧ t.origin.toList = ['\ufeff'] := by
    intro t ht
    rw [hfront] at ht
    obtain ⟨p, hp, rfl⟩ := List.mem_map.mp ht
    rw [List.eq_of_mem_replicate (List.fst_mem_of_mem_zipIdx hp)]
    exact ⟨rfl, String.toList_ofList⟩
  have hstreams : d.tokens.Twins w d'.tokens :=
    ⟨d.isIndexed, d'.isIndexed, front, ts', htokens, hlength, hmarks, hts', hfirst⟩
  have hmatches := query_twins h hd' hds hds' htwins hquery
  have hspelled := hts'.imp fun t ht t' ht' =>
    exists_spelled hs h hstreams hmatches ht (by rw [htokens]; exact List.mem_append_right _ ht')
  rw [Parsed.strokes, Parsed.strokes, Stream.strokes_layout d'.isIndexed,
    Stream.strokes_layout d.isIndexed, htokens, List.flatMap_append,
    hstreams.strokes_front _ htokens hlength hmarks hfirst, List.append_cancel_left_eq,
    (Stream.agreeIff_tokenStrokes hspelled).eq_iff, Parsed.keepsMargins, List.all_eq_true]

end Documents

end YamlNavigator
