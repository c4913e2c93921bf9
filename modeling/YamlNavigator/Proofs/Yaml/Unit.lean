import YamlNavigator.Proofs.Yaml.Step
import YamlNavigator.Yaml.Lexeme.Block
import YamlNavigator.Yaml.Lexeme.Directive
import YamlNavigator.Yaml.Lexeme.Plain
import YamlNavigator.Yaml.Lexeme.Quoted

/-!
The extent of a lexical unit that is read at a cursor.

* `Content.isPoint`: the units that stand between characters and never take text;
* `Content.isIndicator`: the units that one to three fixed characters mark;
* `Lexeme.Spans`: a unit begins at a cursor, takes at least one character, and ends where a later
  cursor stands or before it;
* `Lexeme.Fills`: a unit begins at a cursor and ends where the later cursor stands;
* `fills_namedLexeme`, `fills_tagLexeme`, `fills_quotedLexeme`: names, tags and quoted scalars fill
  what is read;
* `spans_directiveLexeme`, `spans_blockLexeme`, `spans_plainLexeme`: every other reader of a unit
  answers one that spans.

Block scalars and plain scalars end before the cursor: what was read to find their end belongs to
the space behind them.
-/

namespace YamlNavigator.Yaml

/-- The units that mark a place between characters and take no text. -/
def Content.isPoint : Content → Bool
  | .streamStart | .streamEnd | .blockSequenceStart | .blockMappingStart | .blockEnd => true
  | _ => false

/-- The units that are marked by fixed characters. -/
def Content.isIndicator : Content → Bool
  | .documentStart | .documentEnd | .flowSequenceStart | .flowSequenceEnd | .flowMappingStart
  | .flowMappingEnd | .blockEntry | .flowEntry | .key | .value => true
  | _ => false

/-- What fixed characters mark is no point. -/
lemma Content.isPoint_of_isIndicator {content : Content} (h : content.isIndicator = true) :
    content.isPoint = false := by
  cases content <;> first | rfl | cases h

/-- What fixed characters mark is no directive. -/
lemma Content.ne_directive_of_isIndicator {content : Content} (h : content.isIndicator = true)
    (v : Directive) : content ≠ .directive v := by
  rintro rfl
  cases h

/-- The unit begins at `c`, takes text, and ends at `d` or before. -/
structure Lexeme.Spans (l : Lexeme) (c d : Cursor) : Prop where
  start_eq : l.start = c.mark
  start_lt : c.mark.index < l.stop.index
  stop_le : l.stop.index ≤ d.mark.index
  not_point : l.content.isPoint = false

/-- The unit begins at `c`, takes text up to `d`, and is no directive. -/
structure Lexeme.Fills (l : Lexeme) (c d : Cursor) : Prop extends l.Spans c d where
  stop_eq : l.stop = d.mark
  not_directive : ∀ v, l.content ≠ .directive v

namespace Scan

variable {c : Cursor}

/-- A unit that ends at the cursor, once its first character has been read. -/
lemma fills_of_before {content : Content} {d : Cursor} (hc : c.rest ≠ [])
    (hd : (c.forward 1).Before d) (hp : content.isPoint = false)
    (hv : ∀ v, content ≠ .directive v) : Lexeme.Fills ⟨content, c.mark, d.mark⟩ c d := by
  have hlt := Cursor.index_lt_forward hc Nat.one_pos
  have hle := Cursor.index_le_of_before hd
  exact ⟨⟨rfl, Nat.lt_of_lt_of_le hlt hle, Nat.le_refl _, hp⟩, rfl, hv⟩

/-! ### Names and tags -/

lemma fills_namedLexeme {content : String → Content} (hc : c.rest ≠ [])
    (hp : ∀ s, (content s).isPoint = false) (hv : ∀ s v, content s ≠ .directive v) :
    (namedLexeme content).Ensures c fun l d => l.Fills c d := by
  simp only [namedLexeme, ensures_bind, ensures_here, ensures_advance]
  refine .of_before fun name d hd => ?_
  rw [ensures_peek]
  refine ensures_unless fun _ => ?_
  rw [ensures_bind, ensures_here, ensures_pure]
  exact fills_of_before hc hd (hp _) (hv _)

/-- A tag handle takes at least its exclamation mark. -/
lemma tagHandle_reads (hc : c.rest ≠ []) :
    tagHandle.Ensures c fun _ d => c.mark.index < d.mark.index := by
  simp only [tagHandle, ensures_bind, ensures_peek]
  refine ensures_unless fun _ => ?_
  rw [ensures_bind, ensures_advance]
  refine .of_before fun _ d hd => ?_
  exact Nat.lt_of_lt_of_le (Cursor.index_lt_forward hc Nat.one_pos) (Cursor.index_le_of_before hd)

/-- The end of a tag: what follows is checked, and the unit ends at the cursor. -/
private lemma fills_tagEnd {d : Cursor} (hlt : c.mark.index < d.mark.index)
    (p : Option (List Char) × List Char) :
    (match p with
      | (handle, suffix) => do
          let e ← peek 0
          if !e.all isSpaceOrBreak then fail (.expectedSpace e)
          return ⟨.tag (handle.map String.ofList) (String.ofList suffix), c.mark, ← here⟩ :
      Scan Lexeme).Ensures d fun l e => l.Fills c e := by
  obtain ⟨handle, suffix⟩ := p
  simp only [ensures_bind, ensures_peek]
  refine ensures_unless fun _ => ?_
  rw [ensures_bind, ensures_here, ensures_pure]
  exact ⟨⟨rfl, hlt, Nat.le_refl _, rfl⟩, rfl, by simp⟩

lemma fills_tagLexeme (hc : c.rest ≠ []) :
    tagLexeme.Ensures c fun l d => l.Fills c d := by
  have hlater : ∀ {n : Nat} {d : Cursor}, 0 < n → (c.forward n).Before d →
      c.mark.index < d.mark.index := fun hn hd =>
    Nat.lt_of_lt_of_le (Cursor.index_lt_forward hc hn) (Cursor.index_le_of_before hd)
  rw [tagLexeme, ensures_bind, ensures_here, ensures_bind, ensures_peek, ensures_bind,
    ensures_ahead]
  dsimp only
  split
  · -- in full, between angle brackets
    rw [ensures_bind, ensures_advance, ensures_bind]
    refine .of_before fun suffix d hd => ?_
    rw [ensures_bind, ensures_peek]
    refine ensures_unless fun _ => ?_
    rw [ensures_bind, ensures_advance, ensures_bind, ensures_pure]
    exact fills_tagEnd (hlater Nat.two_pos (hd.trans (Cursor.before_forward d 1))) _
  · split
    · -- the lone exclamation mark
      rw [ensures_bind, ensures_advance, ensures_bind, ensures_pure]
      exact fills_tagEnd (hlater Nat.one_pos (Cursor.before_refl _)) _
    · split
      · -- a handle with a suffix
        rw [ensures_bind]
        refine (tagHandle_reads hc).mono fun handle d hlt => ?_
        rw [ensures_bind]
        refine .of_before fun suffix e he => ?_
        rw [ensures_bind, ensures_pure]
        exact fills_tagEnd (Nat.lt_of_lt_of_le hlt (Cursor.index_le_of_before he)) _
      · rw [ensures_bind, ensures_advance, ensures_bind]
        refine .of_before fun suffix d hd => ?_
        rw [ensures_bind, ensures_pure]
        exact fills_tagEnd (hlater Nat.one_pos hd) _

/-! ### Directives -/

/-- The end of a directive: what is left of its line belongs to the space behind it. -/
private lemma spans_directiveEnd {d : Cursor} (hlt : c.mark.index < d.mark.index) (v : Directive) :
    Ensures
      (do
        let stop ← here
        if let .unknown _ := v then skipWhile fun c => !isBreak c
        ignoredLine
        return (⟨.directive v, c.mark, stop⟩ : Lexeme))
      d fun l e => l.Spans c e := by
  have hend : ∀ e : Cursor, d.Before e →
      (ignoredLine >>= fun _ => Pure.pure (⟨.directive v, c.mark, d.mark⟩ : Lexeme)).Ensures e
        fun l e => l.Spans c e := by
    intro e he
    rw [ensures_bind]
    refine .of_before fun _ f hf => ?_
    exact ensures_pure.mpr ⟨rfl, hlt, Cursor.index_le_of_before (he.trans hf), rfl⟩
  rw [ensures_bind, ensures_here]
  dsimp only
  split
  · rw [ensures_bind]
    exact .of_before fun _ e he => hend e he
  · exact hend d (Cursor.before_refl d)

lemma spans_directiveLexeme (hc : c.rest ≠ []) :
    directiveLexeme.Ensures c fun l d => l.Spans c d := by
  rw [directiveLexeme, ensures_bind, ensures_here, ensures_bind, ensures_advance, ensures_bind]
  refine .of_before fun name d hd => ?_
  have hlt : ∀ {e : Cursor}, d.Before e → c.mark.index < e.mark.index := fun he =>
    Nat.lt_of_lt_of_le (Cursor.index_lt_forward hc Nat.one_pos)
      (Cursor.index_le_of_before (hd.trans he))
  dsimp only
  split
  · rw [ensures_bind]
    exact .of_before fun v e he => spans_directiveEnd (hlt he) v
  · split
    · rw [ensures_bind]
      exact .of_before fun v e he => spans_directiveEnd (hlt he) v
    · rw [ensures_bind, ensures_pure]
      exact spans_directiveEnd (hlt (Cursor.before_refl d)) (.unknown (String.ofList name))

/-! ### Quoted scalars -/

lemma fills_quotedLexeme {double : Bool} (hc : c.rest ≠ []) :
    (quotedLexeme double).Ensures c fun l d => l.Fills c d := by
  rw [quotedLexeme, ensures_bind, ensures_here]
  dsimp only
  rw [ensures_bind, ensures_advance, ensures_bind]
  refine .of_before fun first d hd => ?_
  rw [ensures_bind]
  refine .of_before fun text e he => ?_
  rw [ensures_bind, ensures_advance, ensures_bind, ensures_here, ensures_pure]
  exact fills_of_before hc ((hd.trans he).trans (Cursor.before_forward e 1)) rfl (by simp)

/-! ### Block scalars -/

/-- The mark lies between an offset and a cursor. -/
def Within (lo : Nat) (m : Mark) (d : Cursor) : Prop :=
  lo ≤ m.index ∧ m.index ≤ d.mark.index

/-- A mark in front of a cursor is in front of every later one. -/
lemma Within.mono {lo : Nat} {m : Mark} {d e : Cursor} (h : Within lo m d) (hde : d.Before e) :
    Within lo m e :=
  ⟨h.1, Nat.le_trans h.2 (Cursor.index_le_of_before hde)⟩

/-- The mark of a cursor behind a mark within bounds is itself within them. -/
lemma Within.of_before {lo : Nat} {m : Mark} {d e : Cursor} (h : Within lo m d)
    (hde : d.Before e) : Within lo e.mark e :=
  ⟨Nat.le_trans h.1 (h.mono hde).2, Nat.le_refl _⟩

lemma within_blockIndentation :
    blockIndentation.Ensures c fun p d => Within c.mark.index p.1.stop d := by
  rw [blockIndentation, ensures_bind, ensures_here]
  refine ensures_iterate_of_invariant ⟨Nat.le_refl _, Nat.le_refl _⟩ fun s d hs => ?_
  rw [ensures_bind]
  refine .of_before fun r e he => ?_
  cases r with
  | some _ =>
      simp only [ensures_bind, ensures_here, ensures_pure]
      exact hs.of_before he
  | none =>
      simp only [ensures_bind, ensures_nextIs]
      split
      · simp only [ensures_bind, ensures_advance, ensures_column, ensures_pure]
        exact hs.mono (he.trans (Cursor.before_forward e 1))
      · exact ensures_pure.mpr (hs.mono he)

lemma within_blockBreaks {indent : Nat} :
    (blockBreaks indent).Ensures c fun b d => Within c.mark.index b.stop d := by
  rw [blockBreaks, ensures_bind, ensures_here, ensures_bind]
  refine .of_before fun _ d hd => ?_
  refine ensures_iterate_of_invariant ⟨Nat.le_refl _, Cursor.index_le_of_before hd⟩
    fun s e hs => ?_
  rw [ensures_bind]
  refine .of_before fun r f hf => ?_
  cases r with
  | some _ =>
      simp only [ensures_bind, ensures_here]
      refine .of_before fun _ g hg => ?_
      exact ensures_pure.mpr ((hs.of_before hf).mono hg)
  | none => exact ensures_pure.mpr (hs.mono hf)

lemma within_blockLines {lo : Nat} {folded : Bool} {indent : Nat} {before : Breaks}
    (hb : Within lo before.stop c) :
    (blockLines folded indent before).Ensures c fun t d => Within lo t.after.stop d := by
  rw [blockLines]
  refine ensures_iterate_of_invariant hb fun s d hs => ?_
  rw [ensures_bind]
  refine .of_before fun r e he => ?_
  split
  · exact ensures_pure.mpr (hs.mono he)
  · rw [ensures_bind, ensures_peek]
    dsimp only
    rw [ensures_bind]
    refine .of_before fun line f hf => ?_
    rw [ensures_bind]
    refine .of_before fun last g hg => ?_
    rw [ensures_bind]
    refine within_blockBreaks.mono fun after k hk => ?_
    have hlo : Within lo after.stop k :=
      ⟨Nat.le_trans ((hs.mono he).of_before (hf.trans hg)).1 hk.1, hk.2⟩
    rw [ensures_bind]
    refine .of_before fun r' m hm => ?_
    split
    · exact ensures_pure.mpr (hlo.mono hm)
    · rw [ensures_bind, ensures_peek]
      split
      · exact ensures_pure.mpr (hlo.mono hm)
      · exact ensures_pure.mpr (hlo.mono hm)

lemma spans_blockLexeme {folded : Bool} {parent : Int} (hc : c.rest ≠ []) :
    (blockLexeme folded parent).Ensures c fun l d => l.Spans c d := by
  -- however the text of the scalar ends, the unit stops where its lines do
  have hbody : ∀ (content : BlockText → Content) (indent : Nat) (before : Breaks) (d : Cursor),
      (∀ body, (content body).isPoint = false) → Within (c.mark.index + 1) before.stop d →
      Ensures
        (do
          let body ← blockLines folded indent before
          return (⟨content body, c.mark, body.after.stop⟩ : Lexeme))
        d fun l d => l.Spans c d := by
    intro content indent before d hcontent hb
    rw [ensures_bind]
    refine (within_blockLines hb).mono fun body e he => ?_
    exact ensures_pure.mpr ⟨rfl, he.1, he.2, hcontent body⟩
  rw [blockLexeme, ensures_bind, ensures_here, ensures_bind, ensures_advance, ensures_bind]
  refine .of_before fun header d hd => ?_
  obtain ⟨chomp, indentation⟩ := header
  dsimp only
  rw [ensures_bind]
  refine .of_before fun _ e he => ?_
  have hlo : c.mark.index + 1 ≤ e.mark.index :=
    Nat.le_trans (Nat.le_of_eq (Cursor.index_forward_one hc).symm)
      (Cursor.index_le_of_before (hd.trans he))
  cases indentation with
  | none =>
      rw [ensures_bind]
      refine within_blockIndentation.mono fun p f hf => ?_
      obtain ⟨before, found⟩ := p
      dsimp only
      rw [ensures_bind, ensures_pure]
      exact hbody _ _ before f (fun _ => rfl) ⟨Nat.le_trans hlo hf.1, hf.2⟩
  | some n =>
      rw [ensures_bind]
      refine within_blockBreaks.mono fun before f hf => ?_
      rw [ensures_bind, ensures_pure]
      exact hbody _ _ before f (fun _ => rfl) ⟨Nat.le_trans hlo hf.1, hf.2⟩

/-! ### Plain scalars -/

/-- A plain scalar begins with no number sign. -/
lemma ne_numberSign_of_startsPlain {flow : Bool} {ch : Char} {after : Option Char}
    (h : startsPlain flow ch after = true) : ch ≠ '#' := by
  rintro rfl
  simp [startsPlain, indicators] at h

/-- Where a plain scalar can begin, its text is not empty. -/
lemma plainRun_ne_nil {flow : Bool} {ch : Char} {s : List Char}
    (h : startsPlain flow ch s.head? = true) : plainRun flow (ch :: s) ≠ [] := by
  rw [plainRun, if_neg]
  · exact List.cons_ne_nil _ _
  · simp only [startsPlain, Bool.or_eq_true, Bool.and_eq_true, Bool.not_eq_true',
      decide_eq_true_eq] at h
    rcases h with ⟨hblank, hind⟩ | ⟨hafter, rfl | ⟨hflow, rfl | rfl⟩⟩
    · have hne : ch ≠ ':' ∧ ch ≠ '?' ∧ isFlowIndicator ch = false := by
        simp only [indicators, List.contains_cons, Bool.or_eq_false_iff,
          beq_eq_false_iff_ne] at hind
        simp [isFlowIndicator, hind]
      simp [hblank, hne]
    · simp [isBlankOrBreak, isBreak, isFlowIndicator]
    · simp [isBlankOrBreak, isBreak, hflow]
    · cases hs : s.head? with
      | none => simp [hs] at hafter
      | some d =>
          rw [hs] at hafter
          have hd : isBlankOrBreak d = false := by simpa using hafter
          have hcolon : isBlankOrBreak ':' = false := by decide
          simp [hflow, hd, hcolon]

/-- A plain scalar ends behind its last run of text. The first round reads a run, and from then on
the end lies behind the start. -/
lemma spans_plainLexeme {flow : Bool} {parent : Int} {ch : Char} {s : List Char}
    (hc : c.rest = ch :: s) (h : startsPlain flow ch s.head? = true) :
    (plainLexeme flow parent).Ensures c fun p d => p.1.Spans c d := by
  have hne : c.rest ≠ [] := by simp [hc]
  have hpeek : (c.peek 0 == some '#') = false := by
    simp [Cursor.peek, hc, ne_numberSign_of_startsPlain h]
  rw [plainLexeme, ensures_bind, ensures_here, ensures_bind]
  refine (ensures_iterate
    (I := fun t d => d = c ∨ Within (c.mark.index + 1) t.stop d)
    (Q := fun t d => Within (c.mark.index + 1) t.stop d) (.inl rfl) ?_).mono ?_
  · intro t d ht
    have hrun : ∀ e, (d.forward (plainRun flow d.rest).length).Before e →
        (plainRun flow d.rest).isEmpty = false →
        Within (c.mark.index + 1) (d.forward (plainRun flow d.rest).length).mark e := by
      intro e he hempty
      refine ⟨?_, Cursor.index_le_of_before he⟩
      rcases ht with rfl | ht
      · refine Cursor.index_lt_forward hne ?_
        rw [List.length_pos_iff]
        simpa using hempty
      · exact (ht.of_before (Cursor.before_forward d _)).1
    rw [ensures_bind, ensures_nextIs]
    split
    · next hsign =>
        rcases ht with rfl | ht
        · rw [hpeek] at hsign
          exact absurd hsign (by simp)
        · exact ensures_pure.mpr ht
    · rw [ensures_bind, ensures_ahead]
      dsimp only
      split
      · next hempty =>
          rcases ht with rfl | ht
          · rw [hc, List.isEmpty_iff] at hempty
            exact absurd hempty (plainRun_ne_nil h)
          · exact ensures_pure.mpr ht
      · next hempty =>
          rw [ensures_bind, ensures_advance, ensures_bind, ensures_here, ensures_bind]
          refine .of_before fun gap e he => ?_
          have hstop := hrun e he (by simpa using hempty)
          rw [ensures_bind, ensures_column]
          split
          · exact ensures_pure.mpr hstop
          · exact ensures_pure.mpr ⟨hstop, .inr hstop⟩
  · intro t d ht
    exact ensures_pure.mpr ⟨rfl, ht.1, ht.2, rfl⟩

end Scan

end YamlNavigator.Yaml
