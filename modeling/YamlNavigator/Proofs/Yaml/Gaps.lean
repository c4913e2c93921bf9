import YamlNavigator.Proofs.Yaml.Marks
import YamlNavigator.Proofs.Yaml.Trailing

/-!
What stands between the lexical units of a text.

* `Context.texts`, `Context.Adds`: the units with text, and that every reader adds one;
* `clears_skipBlanks`: spaces, line breaks and comments are skipped in front of a unit;
* `SpacedFrom`: between units, and behind the last of them, stand spaces, line breaks and comments;
* `Context.Spaced`, `spaced_read`: the invariant of the scanner and its round;
* `spacedFrom_of_scan`: the units with text of every text are spaced.
-/

namespace YamlNavigator.Yaml

namespace Context

/-! ### Units with text -/

/-- The units with text that were read. -/
def texts (x : Context) : List Lexeme := x.lexemes.toList.filter fun l => !l.isEmpty

variable {x y : Context} {c d : Cursor} {l : Lexeme}

/-- A unit with text may be appended. -/
lemma texts_push (h : l.isEmpty = false) : (x.push l).texts = x.texts ++ [l] := by
  rw [texts, push, Array.toList_push, List.filter_append]
  simp [texts, h]

/-- A unit without text may be appended. -/
lemma texts_pushEmpty (content : Content) (m : Mark) : (x.pushEmpty content m).texts = x.texts := by
  rw [texts, pushEmpty, push, Array.toList_push, List.filter_append]
  simp [texts, Lexeme.isEmpty]

/-- The ends of block collections have no text. -/
lemma texts_unwind (column : Int) (m : Mark) : (x.unwind column m).texts = x.texts := by
  rw [unwind]
  split
  · rfl
  · simp [texts, Lexeme.isEmpty]

/-- The starts of block collections have no text. -/
lemma texts_openBlock (content : Content) (m : Mark) : (x.openBlock content m).texts = x.texts := by
  rw [openBlock]
  split
  · exact texts_pushEmpty content m
  · rfl

/-- The units of a key that is recognised have no text. -/
lemma texts_insertKey (key : PendingKey) : (x.insertKey key).texts = x.texts := by
  have hinsert : ∀ (ls : Array Lexeme) (content : Content),
      (ls.insertIdxIfInBounds key.slot ⟨content, key.mark, key.mark⟩).toList.filter
        (fun l => !l.isEmpty) = ls.toList.filter fun l => !l.isEmpty := by
    intro ls content
    rw [toList_insertIdxIfInBounds]
    rcases Nat.lt_or_ge ls.toList.length key.slot with hlt | hle
    · rw [List.insertIdx_of_length_lt hlt]
    · rw [insertIdx_eq_take_append _ hle, List.filter_append,
        List.filter_cons_of_neg (by simp [Lexeme.isEmpty]), ← List.filter_append,
        List.take_append_drop]
  rw [insertKey]
  split
  · rw [texts, hinsert, hinsert, texts]
  · rw [texts, hinsert, texts]

/-- What reading adds to the units with text: one that begins at `c` and trails what is read. -/
def Adds (x : Context) (c : Cursor) (y : Context) (d : Cursor) : Prop :=
  ∃ l : Lexeme, y.texts = x.texts ++ [l] ∧ l.start = c.mark ∧ l.Trails c d

/-- A unit that is added is read. -/
lemma Adds.index_lt (h : x.Adds c y d) : c.mark.index < d.mark.index := by
  obtain ⟨l, htexts, hstart, f, -, hstop, ⟨inside, hpass, -⟩, -⟩ := h
  have htext : l ∈ y.texts := by simp [htexts]
  have hlt : l.start.index < l.stop.index := by
    simpa [Lexeme.isEmpty] using (List.mem_filter.mp htext).2
  rw [hstart, hstop] at hlt
  exact Nat.lt_of_lt_of_le hlt (Cursor.index_le_of_before hpass.before)

/-- A unit is added behind units without text. -/
lemma adds_push {z : Context} (hy : y.texts = x.texts) (hz : z.lexemes = y.lexemes.push l)
    (hl : l.Spans c d) (ht : l.Trails c d) : x.Adds c z d := by
  refine ⟨l, ?_, hl.start_eq, ht⟩
  rw [← hy, ← texts_push hl.isEmpty, texts, texts, hz]
  rfl

open Scan

/-- A key may begin at the cursor. -/
lemma texts_savePending (x : Context) :
    x.savePending.Ensures c fun y d => d = c ∧ y.texts = x.texts :=
  (saves_savePending x).mono fun _ _ hy => ⟨hy.1, by rw [texts, hy.2.lexemes, texts]⟩

/-- Documents are closed by units without text. -/
lemma texts_closeDocument (x : Context) :
    x.closeDocument.Ensures c fun y d => d = c ∧ y.texts = x.texts := by
  rw [closeDocument, ensures_bind, ensures_here]
  dsimp only
  rw [ensures_bind]
  exact ensures_dropPending (ensures_pure.mpr ⟨rfl, texts_unwind (-1) c.mark⟩)

/-- Stale keys are no units. -/
lemma texts_dropStale (x : Context) :
    x.dropStale.Ensures c fun y d => d = c ∧ y.texts = x.texts := by
  rw [dropStale, ensures_bind, ensures_here]
  exact ensures_unless fun _ => ensures_pure.mpr ⟨rfl, rfl⟩

/-- Block collections are opened by units without text. -/
lemma texts_openBlockHere (x : Context) (content : Content) (refusal : Problem) :
    (x.openBlockHere content refusal).Ensures c fun y d => d = c ∧ y.texts = x.texts := by
  rw [openBlockHere]
  split
  · exact ensures_pure.mpr ⟨rfl, rfl⟩
  · refine ensures_unless fun _ => ?_
    rw [ensures_bind, ensures_here, ensures_pure]
    exact ⟨rfl, texts_openBlock content c.mark⟩

/-! ### Readers -/

lemma adds_readMark (hy : y.texts = x.texts) (hc : c.rest ≠ []) {content : Content}
    (hi : content.isIndicator = true) {n : Nat} (hn : 0 < n) :
    (y.readMark content n).Ensures c (x.Adds c) := by
  rw [readMark, ensures_bind, ensures_here, ensures_bind, ensures_advance, ensures_bind,
    ensures_here, ensures_pure]
  have hbefore := Cursor.before_forward c n
  obtain ⟨m, rfl⟩ := Nat.exists_eq_succ_of_ne_zero (Nat.ne_zero_of_lt hn)
  have hfills := fills_of_before hc (Cursor.before_forward (c.forward 1) m)
    (Content.isPoint_of_isIndicator hi) (Content.ne_directive_of_isIndicator hi)
  rw [← Cursor.forward_add, Nat.add_comm] at hfills
  exact adds_push hy rfl hfills.toSpans (hfills.trails hbefore)

lemma adds_readDirective (x : Context) (hc : c.rest ≠ []) :
    x.readDirective.Ensures c (x.Adds c) := by
  rw [readDirective, ensures_bind]
  refine (texts_closeDocument x).mono fun y d hy => ?_
  obtain ⟨rfl, hy⟩ := hy
  rw [ensures_bind]
  refine fun l e hl => ensures_pure.mpr ?_
  exact adds_push hy rfl (spans_directiveLexeme hc l e hl) (trails_directiveLexeme l e hl)

lemma adds_readSeparator (x : Context) (hc : c.rest ≠ []) {content : Content}
    (hi : content.isIndicator = true) : (x.readSeparator content).Ensures c (x.Adds c) := by
  rw [readSeparator, ensures_bind]
  refine (texts_closeDocument x).mono fun y d hy => ?_
  obtain ⟨rfl, hy⟩ := hy
  exact adds_readMark hy hc hi (by omega)

lemma adds_readFlowStart (x : Context) (hc : c.rest ≠ []) {content : Content}
    (hi : content.isIndicator = true) : (x.readFlowStart content).Ensures c (x.Adds c) := by
  rw [readFlowStart, ensures_bind]
  refine (texts_savePending x).mono fun y d hy => ?_
  obtain ⟨rfl, hy⟩ := hy
  refine adds_readMark ?_ hc hi Nat.one_pos
  exact hy

lemma adds_readFlowEnd (x : Context) (hc : c.rest ≠ []) {content : Content}
    (hi : content.isIndicator = true) : (x.readFlowEnd content).Ensures c (x.Adds c) := by
  rw [readFlowEnd, ensures_bind]
  exact ensures_dropPending (adds_readMark rfl hc hi Nat.one_pos)

lemma adds_readFlowEntry (x : Context) (hc : c.rest ≠ []) :
    x.readFlowEntry.Ensures c (x.Adds c) := by
  rw [readFlowEntry, ensures_bind]
  exact ensures_dropPending (adds_readMark rfl hc rfl Nat.one_pos)

/-- An indicator that may begin a block collection. -/
private lemma adds_readIndicator (x : Context) (hc : c.rest ≠ []) {opening content : Content}
    (hi : content.isIndicator = true) (refusal : Problem) (allowed : Context → Bool) :
    Ensures
      (do
        let x ← x.openBlockHere opening refusal
        let x ← x.dropPending
        { x with keyAllowed := allowed x }.readMark content 1)
      c (x.Adds c) := by
  rw [ensures_bind]
  refine (texts_openBlockHere x opening refusal).mono fun y d hy => ?_
  obtain ⟨rfl, hy⟩ := hy
  rw [ensures_bind]
  refine ensures_dropPending (adds_readMark ?_ hc hi Nat.one_pos)
  exact hy

lemma adds_readBlockEntry (x : Context) (hc : c.rest ≠ []) :
    x.readBlockEntry.Ensures c (x.Adds c) :=
  adds_readIndicator x hc rfl _ fun _ => true

lemma adds_readKey (x : Context) (hc : c.rest ≠ []) : x.readKey.Ensures c (x.Adds c) :=
  adds_readIndicator x hc rfl _ fun x => !x.inFlow

lemma adds_readValue (x : Context) (hc : c.rest ≠ []) : x.readValue.Ensures c (x.Adds c) := by
  rw [readValue]
  split
  · next key _ =>
      refine adds_readMark ?_ hc rfl Nat.one_pos
      exact texts_insertKey key
  · exact adds_readIndicator x hc rfl _ fun x => !x.inFlow

lemma adds_readNode (x : Context) {unit : Scan Lexeme}
    (hunit : unit.Ensures c fun l d => l.Fills c d) : (x.readNode unit).Ensures c (x.Adds c) := by
  rw [readNode, ensures_bind]
  refine (texts_savePending x).mono fun y d hy => ?_
  obtain ⟨rfl, hy⟩ := hy
  rw [ensures_bind]
  refine hunit.mono_before fun l e he hl => ensures_pure.mpr ?_
  exact adds_push hy rfl hl.toSpans (hl.trails he)

lemma adds_readBlock (x : Context) (hc : c.rest ≠ []) (folded : Bool) :
    (x.readBlock folded).Ensures c (x.Adds c) := by
  rw [readBlock, ensures_bind]
  refine ensures_dropPending ?_
  rw [ensures_bind]
  refine fun l e hl => ensures_pure.mpr ?_
  exact adds_push rfl rfl (spans_blockLexeme hc l e hl) (trails_blockLexeme l e hl)

lemma adds_readPlain (x : Context) {ch : Char} {s : List Char} (hc : c.rest = ch :: s)
    (hs : startsPlain x.inFlow ch s.head? = true) : x.readPlain.Ensures c (x.Adds c) := by
  rw [readPlain, ensures_bind]
  refine (saves_savePending x).mono fun y d hy => ?_
  obtain ⟨rfl, hy⟩ := hy
  have hflow : y.inFlow = x.inFlow := by rw [inFlow, hy.flowLevel, inFlow]
  have htexts : y.texts = x.texts := by rw [texts, hy.lexemes, texts]
  rw [ensures_bind]
  refine fun p e hp => ?_
  obtain ⟨l, broken⟩ := p
  refine ensures_pure.mpr ?_
  exact adds_push htexts rfl (spans_plainLexeme hc (hflow ▸ hs) _ e hp) (trails_plainLexeme _ e hp)

/-- Whatever unit begins at the cursor, reading it adds a unit with text. -/
lemma adds_readAt (x : Context) {ch : Char} {s : List Char} (hc : c.rest = ch :: s) :
    (x.readAt ch).Ensures c (x.Adds c) := by
  have hne : c.rest ≠ [] := by simp [hc]
  exact ensures_readAt hc (adds_readDirective x hne) (fun _ => adds_readSeparator x hne)
    (fun _ => adds_readFlowStart x hne) (fun _ => adds_readFlowEnd x hne)
    (adds_readFlowEntry x hne) (adds_readBlockEntry x hne) (adds_readKey x hne)
    (adds_readValue x hne) (fun _ => adds_readNode x) (adds_readBlock x hne) (adds_readPlain x hc)

/-- No unit begins with a tab. -/
lemma ensures_readAt_tab {Q : Context → Cursor → Prop} : (x.readAt '\t').Ensures c Q := by
  have hplain : ∀ after, startsPlain x.inFlow '\t' after = false := by
    simp [startsPlain, isBlankOrBreak, indicators]
  have hfail : Ensures
      (do
        let _ ← atSeparator
        let _ ← atSeparator
        (fail (.cannotStart '\t') : Scan Context))
      c Q := by
    rw [ensures_bind]
    refine ensures_atSeparator fun _ => ?_
    rw [ensures_bind]
    exact ensures_atSeparator fun _ => ensures_fail
  rw [readAt, ensures_bind, ensures_column, ensures_bind, ensures_peek]
  simpa [hplain] using hfail

/-! ### Between units -/

/-- What a round of skipping that begins at `e` leaves behind: blanks, line breaks and comments are
passed from `b` on, and the last round stops in front of a character that is none of them. -/
private def Skips (ls : List Lexeme) (inside : Bool) (b e : Cursor) :
    ForInStep Context → Cursor → Prop
  | .done y, d => y.texts = ls ∧ b.Clears inside d ∧
      ∀ ch ∈ d.peek 0, ch ≠ ' ' ∧ ch ≠ '#' ∧ isBreak ch = false
  | .yield y, d => (y.texts = ls ∧ b.Clears inside d) ∧ e.mark.index < d.mark.index

/-- The line break at the end of a round, behind which no comment goes on. -/
private lemma skips_lineBreak {ls : List Lexeme} {inside inside' : Bool} {b e : Cursor}
    (hy : y.texts = ls) (he : e.Before c) (hc : b.Passes inside inside' c)
    (hopen : inside' = true → ∀ ch ∈ c.peek 0, isBreak ch = true)
    (hnext : ∀ ch ∈ c.peek 0, ch ≠ ' ' ∧ ch ≠ '#') :
    Ensures
      (do
        match ← lineBreak with
        | none => return (ForInStep.done y)
        | some _ =>
            return (ForInStep.yield (if y.inFlow then y else { y with keyAllowed := true })))
      c (Skips ls inside b e) := by
  rw [ensures_bind]
  refine passes_lineBreak.mono fun r d hd => ?_
  cases r with
  | none =>
      obtain ⟨rfl, hnone⟩ := hd
      refine ensures_pure.mpr ⟨hy, ⟨inside', hc, fun h => ?_⟩, fun ch hch =>
        ⟨(hnext ch hch).1, (hnext ch hch).2, hnone ch hch⟩⟩
      cases hrest : d.rest with
      | nil => rfl
      | cons ch s =>
          have hpeek : d.peek 0 = some ch := by simp [Cursor.peek, hrest]
          have hbreak := hopen h ch hpeek
          rw [hnone ch hpeek] at hbreak
          cases hbreak
  | some _ =>
      refine ensures_pure.mpr ⟨⟨?_, (hc.trans (hd inside')).clears⟩,
        Nat.lt_of_le_of_lt (Cursor.index_le_of_before he) (hd true).index_lt⟩
      rw [← hy]
      split <;> rfl

/-- Blanks, line breaks and comments are skipped, up to a character that is none of them. -/
lemma clears_skipBlanks (x : Context) {inside : Bool} {b : Cursor}
    (hb : b.Clears inside c.skipMark) :
    x.skipBlanks.Ensures c fun y d => y.texts = x.texts ∧ b.Clears inside d ∧
      ∀ ch ∈ d.peek 0, ch ≠ ' ' ∧ ch ≠ '#' ∧ isBreak ch = false := by
  obtain ⟨step, hskip, hstep⟩ : ∃ step : Context → Scan (ForInStep Context),
      x.skipBlanks = (do
        if (← here).index == 0 && (← nextIs '\ufeff') then advance 1
        iterate step x) ∧
      ∀ y e, y.texts = x.texts ∧ b.Clears inside e →
        (step y).Ensures e (Skips x.texts inside b e) := by
    refine ⟨_, rfl, fun y e hy => ?_⟩
    rw [ensures_bind, ensures_skipWhile]
    refine passes_spaces.mono_before fun _ f hef hf => ?_
    obtain ⟨inside', hpass, hend⟩ := hy.2.pass hf.1
    rw [ensures_bind, ensures_nextIs]
    refine ensures_ite (fun hsign => ?_) fun hsign => ?_
    · rw [ensures_bind, ensures_skipWhile]
      refine (passes_comment hsign).mono_before fun _ g hfg hg => ?_
      refine skips_lineBreak hy.1 (hef.trans hfg) (hpass.trans (hg.1 inside')) (fun _ => hg.2) ?_
      intro ch hch
      have hbreak := hg.2 ch hch
      constructor <;> rintro rfl <;> simp [isBreak] at hbreak
    · refine skips_lineBreak hy.1 hef hpass (fun h => ?_) fun ch hch => ⟨hf.2 ch hch, ?_⟩
      · simp [Cursor.peek, hend h]
      · rintro rfl
        exact hsign (beq_iff_eq.mpr hch)
  have hloop : (iterate step x).Ensures c.skipMark fun y d => y.texts = x.texts ∧
      b.Clears inside d ∧ ∀ ch ∈ d.peek 0, ch ≠ ' ' ∧ ch ≠ '#' ∧ isBreak ch = false := by
    refine ensures_iterate_done step ⟨rfl, hb⟩ fun y e hy => (hstep y e hy).mono fun r d hr => ?_
    cases r <;> exact hr
  rw [hskip, ensures_bind, ensures_here, ensures_bind, ensures_nextIs]
  rw [Cursor.skipMark] at hloop
  refine ensures_ite (fun hmark => ?_) fun hmark => ?_
  · rw [if_pos hmark] at hloop
    rw [ensures_bind, ensures_advance]
    exact hloop
  · rw [if_neg hmark] at hloop
    exact hloop

end Context

/-! ### Between the units of a text -/

/-- A stretch of text is read as spaces, line breaks and comments; the rest of the line of a
directive that is not known passes for a comment, and it begins with a space. -/
structure IsSpacing (reserved : Bool) (gap : List Char) (inside : Bool) : Prop where
  reads : commentState reserved gap = some inside
  spaced : reserved = true → ∀ ch ∈ gap.head?, isSpaceOrBreak ch = true

/-- Between units that follow one another in a text, in front of the first one from an offset on,
and behind the last one stand spaces, line breaks and comments, and no unit begins with a space, a
tab or a line break. -/
inductive SpacedFrom (s : List Char) : Bool → Nat → List Lexeme → Prop
  | tail {reserved inside : Bool} {offset : Nat}
      (spacing : IsSpacing reserved (s.drop offset) inside) : SpacedFrom s reserved offset []
  | unit {reserved : Bool} {offset : Nat} {l : Lexeme} {ls : List Lexeme}
      (offset_le : offset ≤ l.start.index)
      (spacing : IsSpacing reserved ((s.drop offset).take (l.start.index - offset)) false)
      (start : ∃ ch more, s.drop l.start.index = ch :: more ∧ isBlankOrBreak ch = false)
      (rest : SpacedFrom s l.isReserved l.stop.index ls) : SpacedFrom s reserved offset (l :: ls)

/-- What a cursor of a text has in front of it. -/
lemma rest_of_ofText {s : List Char} {c : Cursor} (h : (Cursor.ofText s).Before c) :
    c.rest = s.drop c.mark.index := by
  have hrest := (Cursor.rest_of_before h).1
  simpa [Cursor.ofText, Mark.start] using hrest

/-- What is passed stands between the offsets of the cursors. -/
lemma Cursor.Passes.isSpacing {s : List Char} {c d : Cursor} {reserved inside : Bool}
    (hc : (Cursor.ofText s).Before c) (h : c.Passes reserved inside d)
    (hspace : reserved = true → ∀ ch ∈ c.peek 0, isSpaceOrBreak ch = true) :
    IsSpacing reserved ((s.drop c.mark.index).take (d.mark.index - c.mark.index)) inside := by
  obtain ⟨hcd, gap, hgap, hreads⟩ := h
  have hlen := hcd.index_add_length
  rw [hgap, List.length_append] at hlen
  have htake : (s.drop c.mark.index).take (d.mark.index - c.mark.index) = gap := by
    rw [← rest_of_ofText hc, hgap]
    exact List.take_left' (by omega)
  rw [htake]
  refine ⟨hreads, fun hr ch hch => hspace hr ch ?_⟩
  obtain ⟨gap, rfl⟩ := List.head?_eq_some_iff.mp hch
  simp [Cursor.peek, hgap]

/-- The units with text that were read are spaced, if those that are still to come are spaced behind
them, and behind the last of them spaces, line breaks and comments lead to the cursor. -/
def Context.Spaced (s : List Char) (x : Context) (c : Cursor) : Prop :=
  ∃ (f : Cursor) (reserved : Bool), (Cursor.ofText s).Before f ∧ f.Clears reserved c ∧
    (reserved = true → ∀ ch ∈ f.peek 0, isSpaceOrBreak ch = true) ∧
    ∀ ls, SpacedFrom s reserved f.mark.index ls → SpacedFrom s false (markWidth s) (x.texts ++ ls)

namespace Context

variable {s : List Char} {x y : Context} {c d : Cursor}

/-- At the end of the text the units are spaced. -/
lemma Spaced.spacedFrom (h : x.Spaced s d) (hd : d.rest = []) :
    SpacedFrom s false (markWidth s) x.texts := by
  obtain ⟨f, reserved, hf, ⟨inside, hpass, -⟩, hspace, hunits⟩ := h
  have hspacing := hpass.isSpacing hf hspace
  have hall : (s.drop f.mark.index).take (d.mark.index - f.mark.index) = s.drop f.mark.index := by
    have hlen := hpass.before.index_add_length
    rw [hd, List.length_nil] at hlen
    rw [← rest_of_ofText hf]
    exact List.take_of_length_le (by omega)
  rw [hall] at hspacing
  simpa using hunits [] (.tail hspacing)

/-- A unit with text may be added. -/
lemma Spaced.add (h : x.Spaced s c) (hy : x.Adds c y d)
    (hc : ∃ ch more, c.rest = ch :: more ∧ isBlankOrBreak ch = false) : y.Spaced s d := by
  obtain ⟨f, reserved, hf, ⟨inside, hpass, hopen⟩, hspace, hunits⟩ := h
  obtain ⟨l, htexts, hstart, g, hcg, hstop, hclears, hspace'⟩ := hy
  have hinside : inside = false := by
    cases inside with
    | false => rfl
    | true =>
        obtain ⟨ch, more, hrest, -⟩ := hc
        rw [hopen rfl] at hrest
        cases hrest
  refine ⟨g, l.isReserved, (hf.trans hpass.before).trans hcg, hclears, hspace', fun ls hls => ?_⟩
  rw [htexts, List.append_assoc]
  refine hunits _ (.unit ?_ ?_ ?_ (hstop ▸ hls))
  · rw [hstart]
    exact Cursor.index_le_of_before hpass.before
  · rw [hstart, ← hinside]
    exact hpass.isSpacing hf hspace
  · rw [hstart, ← rest_of_ofText (hf.trans hpass.before)]
    exact hc

open Scan

/-- A round of reading keeps the units spaced and reads a character, or ends at the end of the
text. -/
lemma spaced_read (h : x.Spaced s c.skipMark) : x.read.Ensures c fun r d =>
    match r with
    | .done y => SpacedFrom s false (markWidth s) y.texts
    | .yield y => y.Spaced s d.skipMark ∧ c.mark.index < d.mark.index := by
  obtain ⟨f, reserved, hf, hclears, hspace, hunits⟩ := h
  refine ensures_read ((clears_skipBlanks x hclears).mono_before fun y d hcd hy => ?_)
  obtain ⟨hy, hclears, hnext⟩ := hy
  refine (texts_dropStale y).mono fun z e hz => ?_
  obtain ⟨rfl, hz⟩ := hz
  have hu : (z.unwind e.mark.column e.mark).Spaced s e := by
    refine ⟨f, reserved, hf, hclears, hspace, ?_⟩
    rw [texts_unwind, hz, hy]
    exact hunits
  refine ⟨fun hrest => ?_, fun ch more hrest => ?_⟩
  · rw [readEnd, ensures_bind]
    refine (texts_closeDocument _).mono fun w g hw => ?_
    rw [ensures_bind, ensures_here, ensures_pure]
    change SpacedFrom s false (markWidth s) (pushEmpty _ .streamEnd g.mark).texts
    rw [texts_pushEmpty]
    have hend := hu.spacedFrom hrest
    rw [← hw.2] at hend
    exact hend
  · by_cases htab : ch = '\t'
    · rw [htab]
      exact ensures_readAt_tab
    · refine (adds_readAt _ hrest).mono fun w g hw => (texts_dropStale w).mono fun v k hv => ?_
      obtain ⟨rfl, hv⟩ := hv
      have hblank : isBlankOrBreak ch = false := by
        obtain ⟨hspace, -, hbreak⟩ := hnext ch (by simp [Cursor.peek, hrest])
        simp [isBlankOrBreak, hspace, htab, hbreak]
      have hlt := hw.index_lt
      have hle := Cursor.index_le_of_before hcd
      have hwv : v.Spaced s k := by
        have hws := hu.add hw ⟨ch, more, hrest, hblank⟩
        rw [Spaced, hv]
        exact hws
      refine ⟨?_, Nat.lt_of_le_of_lt hle hlt⟩
      -- no byte order mark is skipped behind the beginning
      rw [Cursor.skipMark, if_neg]
      · exact hwv
      · simp only [Bool.and_eq_true, beq_iff_eq, not_and]
        omega

end Context

/-- **Between units stand spaces, line breaks and comments.** In every text that can be scanned,
that is what stands in front of the first unit with text, between units that follow one another, and
behind the last one; but behind a directive that is not known the rest of its line passes for a
comment. -/
theorem spacedFrom_of_scan {s : List Char} {ls : List Lexeme} (h : Lexeme.scan s = .ok ls) :
    SpacedFrom s false (markWidth s) (ls.filter fun l => !l.isEmpty) := by
  obtain ⟨x, d, hrun, rfl⟩ := exists_run_of_scan h
  have hmark : (Cursor.ofText s).skipMark.mark.index = markWidth s := by
    unfold markWidth
    split
    · rfl
    · next hnone =>
        rw [Cursor.skipMark, if_neg]
        · rfl
        · cases s with
          | nil => simp [Cursor.ofText, Cursor.peek]
          | cons ch s =>
              have hch : ch ≠ '\ufeff' := by
                rintro rfl
                exact hnone s rfl
              simp [Cursor.ofText, Cursor.peek, hch]
  have hstart : Context.start.Spaced s (Cursor.ofText s).skipMark := by
    refine ⟨(Cursor.ofText s).skipMark, false, ?_, (Cursor.Passes.refl false _).clears, by simp, ?_⟩
    · rw [Cursor.skipMark]
      split
      · exact Cursor.before_forward _ 1
      · exact Cursor.before_refl _
    · intro ls hls
      rw [hmark] at hls
      exact hls
  have hends := Scan.ensures_iterate_done Context.read
    (I := fun x c => x.Spaced s c.skipMark)
    (Q := fun y d => SpacedFrom s false (markWidth s) y.texts)
    (s := Context.start) hstart fun y c hy => (Context.spaced_read hy).mono fun r d hr => by
      cases r <;> exact hr
  exact hends x d hrun

end YamlNavigator.Yaml
