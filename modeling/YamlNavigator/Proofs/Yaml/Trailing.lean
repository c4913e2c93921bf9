import YamlNavigator.Proofs.Yaml.Unit

/-!
What is read behind the text of a lexical unit.

* `commentState`: spaces, line breaks and comments, read from the start or from inside a comment;
* `Cursor.Passes`, `Cursor.Clears`: a cursor moves over nothing else;
* `Behind`: the mark behind which only spaces and line breaks were read;
* `Lexeme.isReserved`, `Lexeme.Trails`: behind a unit spaces, line breaks and comments are read;
  behind a directive that is not known the rest of the line passes for a comment;
* `trails_plainLexeme`, `trails_blockLexeme`, `trails_directiveLexeme`: the units that read more
  than their text.
-/

namespace YamlNavigator.Yaml

/-! ### Spaces, line breaks and comments -/

/-- Reads blanks, line breaks and comments, from inside a comment or not; answers whether the end is
inside a comment, and nothing where other text stands. -/
def commentState : Bool → List Char → Option Bool
  | inside, [] => some inside
  | true, c :: s => commentState (!isBreak c) s
  | false, c :: s =>
      if c = '#' then commentState true s
      else if isBlankOrBreak c then commentState false s
      else none

/-- Two stretches are read one after the other. -/
lemma commentState_append : ∀ (inside : Bool) (s u : List Char),
    commentState inside (s ++ u) = (commentState inside s).bind (commentState · u)
  | inside, [], u => by rw [List.nil_append, commentState, Option.bind_some]
  | true, c :: s, u => by
      rw [List.cons_append, commentState, commentState, commentState_append]
  | false, c :: s, u => by
      rw [List.cons_append, commentState, commentState]
      split
      · rw [commentState_append]
      · split
        · rw [commentState_append]
        · rfl

/-- The end of a stretch that is read is read from somewhere. -/
lemma exists_commentState_of_append {inside : Bool} {s u : List Char}
    (h : commentState inside (s ++ u) ≠ none) : ∃ inside', commentState inside' u ≠ none := by
  rw [commentState_append] at h
  cases hs : commentState inside s with
  | none => exact absurd (by rw [hs]; rfl) h
  | some inside' =>
      rw [hs] at h
      exact ⟨inside', h⟩

/-- What ends no line goes on with a comment. -/
lemma commentState_true {s : List Char} (h : ∀ c ∈ s, isBreak c = false) :
    commentState true s = some true := by
  induction s with
  | nil => rfl
  | cons c s ih =>
      obtain ⟨hc, hs⟩ := List.forall_mem_cons.mp h
      rw [commentState, hc]
      exact ih hs

/-- A number sign begins a comment, or goes on with one. -/
lemma commentState_sign (inside : Bool) {s : List Char} (h : ∀ c ∈ s, isBreak c = false) :
    commentState inside ('#' :: s) = some true := by
  have hstep : commentState inside ('#' :: s) = commentState true s := by
    cases inside <;> rfl
  rw [hstep, commentState_true h]

/-- Spaces change nothing. -/
lemma commentState_spaces (inside : Bool) {s : List Char} (h : ∀ c ∈ s, c = ' ') :
    commentState inside s = some inside := by
  induction s with
  | nil => rw [commentState]
  | cons c s ih =>
      obtain ⟨rfl, hs⟩ := List.forall_mem_cons.mp h
      cases inside <;> exact ih hs

/-- Behind line breaks no comment goes on. -/
lemma commentState_breaks (inside : Bool) {s : List Char} (hne : s ≠ [])
    (h : ∀ c ∈ s, isBreak c = true) : commentState inside s = some false := by
  have hbreak : ∀ {c}, isBreak c = true → c ≠ '#' ∧ isBlankOrBreak c = true := by
    intro c hc
    refine ⟨?_, by simp [isBlankOrBreak, hc]⟩
    rintro rfl
    cases hc
  induction s generalizing inside with
  | nil => exact absurd rfl hne
  | cons c s ih =>
      obtain ⟨hc, hs⟩ := List.forall_mem_cons.mp h
      have hstep : commentState inside (c :: s) = commentState false s := by
        cases inside with
        | true => rw [commentState, hc]; rfl
        | false => rw [commentState, if_neg (hbreak hc).1, if_pos (hbreak hc).2]
      rw [hstep]
      cases s with
      | nil => rfl
      | cons d s => exact ih false (List.cons_ne_nil d s) hs

/-! ### Moving over them -/

/-- The cursor `d` is reached from `c` over spaces, line breaks and comments. -/
structure Cursor.Passes (inside : Bool) (c : Cursor) (inside' : Bool) (d : Cursor) : Prop where
  before : c.Before d
  reads : ∃ gap, c.rest = gap ++ d.rest ∧ commentState inside gap = some inside'

namespace Cursor.Passes

variable {inside inside' inside'' : Bool} {c d e : Cursor}

/-- Nothing is passed. -/
lemma refl (inside : Bool) (c : Cursor) : c.Passes inside inside c :=
  ⟨before_refl c, [], rfl, by rw [commentState]⟩

/-- One stretch is passed after another. -/
lemma trans (h : c.Passes inside inside' d) (h' : d.Passes inside' inside'' e) :
    c.Passes inside inside'' e := by
  obtain ⟨hcd, gap, hc, hgap⟩ := h
  obtain ⟨hde, gap', hd, hgap'⟩ := h'
  refine ⟨hcd.trans hde, gap ++ gap', by rw [hc, hd, List.append_assoc], ?_⟩
  rw [commentState_append, hgap, Option.bind_some, hgap']

/-- No comment goes on behind what is read. -/
lemma index_lt (h : c.Passes true false d) : c.mark.index < d.mark.index := by
  obtain ⟨hcd, gap, hc, hgap⟩ := h
  cases gap with
  | nil => cases hgap
  | cons ch gap =>
      have hlen := hcd.index_add_length
      rw [hc, List.length_append, List.length_cons] at hlen
      omega

end Cursor.Passes

/-- The cursor `d` is reached from `c` over spaces, line breaks and comments, and a comment goes on
there at the end of the text only. -/
def Cursor.Clears (inside : Bool) (c d : Cursor) : Prop :=
  ∃ inside', c.Passes inside inside' d ∧ (inside' = true → d.rest = [])

namespace Cursor

variable {inside inside' : Bool} {c d e : Cursor}

/-- Where no comment goes on, the cursor may stop. -/
lemma Passes.clears (h : c.Passes inside false d) : c.Clears inside d :=
  ⟨false, h, by simp⟩

/-- At the end of the text the cursor may stop. -/
lemma Passes.clears_end (h : c.Passes inside inside' d) (hd : d.rest = []) : c.Clears inside d :=
  ⟨inside', h, fun _ => hd⟩

/-- The cursor behind a byte order mark at the beginning. -/
def skipMark (c : Cursor) : Cursor :=
  if c.mark.index == 0 && c.peek 0 == some '\ufeff' then c.forward 1 else c

/-- What passes whether a comment goes on or not, passes behind what was cleared. -/
lemma Clears.pass (h : c.Clears inside d) (hd : ∀ inside, d.Passes inside inside e) :
    c.Clears inside e := by
  obtain ⟨inside', hpass, hend⟩ := h
  refine ⟨inside', hpass.trans (hd inside'), fun hopen => ?_⟩
  have hsuffix := (hd inside').before.rest_suffix
  rw [hend hopen] at hsuffix
  exact List.suffix_nil.mp hsuffix

end Cursor

namespace Scan

variable {c : Cursor}

/-- A run of characters is read up to one that is not in the class. -/
lemma ensures_run {p : Char → Bool} {Q : List Char → Cursor → Prop}
    (h : ∀ run d, c.Before d → c.rest = run ++ d.rest → (∀ ch ∈ run, p ch = true) →
      (∀ ch ∈ d.peek 0, p ch = false) → Q run d) : (takeWhile p).Ensures c Q := by
  have hsplit := List.takeWhile_append_dropWhile (p := p) (l := c.rest)
  have hbehind : (c.forward (c.rest.takeWhile p).length).rest = c.rest.dropWhile p := by
    rw [Cursor.rest_forward]
    exact (congrArg _ hsplit.symm).trans List.drop_left
  rw [ensures_takeWhile_iff]
  refine h (c.rest.takeWhile p) _ (Cursor.before_forward _ _) ?_ (fun ch hch => ?_) fun ch hch => ?_
  · rw [hbehind, hsplit]
  · exact List.all_eq_true.mp List.all_takeWhile ch hch
  · rw [Cursor.peek, hbehind, ← List.head?_eq_getElem?] at hch
    have hnot := List.head?_dropWhile_not p c.rest
    rw [Option.mem_def.mp hch] at hnot
    exact hnot

/-- What is skipped is read. -/
lemma ensures_skipWhile {p : Char → Bool} {Q : Unit → Cursor → Prop} :
    (skipWhile p).Ensures c Q ↔ (takeWhile p).Ensures c fun _ d => Q () d := by
  rw [skipWhile, ensures_bind]
  exact Iff.of_eq (congrArg _ (funext fun _ => funext fun _ => propext ensures_pure))

/-- Spaces are passed, up to another character. -/
lemma passes_spaces : (takeWhile (· = ' ')).Ensures c fun _ d =>
    (∀ inside, c.Passes inside inside d) ∧ ∀ ch ∈ d.peek 0, ch ≠ ' ' :=
  ensures_run fun run d hd hrun hall hnext =>
    ⟨fun inside => ⟨hd, run, hrun,
        commentState_spaces inside fun ch hch => by simpa using hall ch hch⟩,
      fun ch hch => by simpa using hnext ch hch⟩

/-- The rest of a line is passed inside a comment, up to its end. -/
lemma passes_line : (takeWhile fun ch => !isBreak ch).Ensures c fun _ d =>
    c.Passes true true d ∧ ∀ ch ∈ d.peek 0, isBreak ch = true :=
  ensures_run fun run d hd hrun hall hnext =>
    ⟨⟨hd, run, hrun, commentState_true fun ch hch => by simpa using hall ch hch⟩,
      fun ch hch => by simpa using hnext ch hch⟩

/-- A comment is passed, up to the end of the line. -/
lemma passes_comment (h : (c.peek 0 == some '#') = true) :
    (takeWhile fun ch => !isBreak ch).Ensures c fun _ d =>
      (∀ inside, c.Passes inside true d) ∧ ∀ ch ∈ d.peek 0, isBreak ch = true := by
  refine ensures_run fun run d hd hrun hall hnext => ?_
  have hline : ∀ ch ∈ run, isBreak ch = false := fun ch hch => by simpa using hall ch hch
  refine ⟨fun inside => ⟨hd, run, hrun, ?_⟩, fun ch hch => by simpa using hnext ch hch⟩
  cases run with
  | nil =>
      rw [List.nil_append] at hrun
      rw [Cursor.peek, hrun] at h
      have hsign := hnext '#' (beq_iff_eq.mp h)
      simp [isBreak] at hsign
  | cons ch run =>
      rw [beq_iff_eq, Cursor.peek, hrun] at h
      obtain rfl : ch = '#' := by simpa using h
      exact commentState_sign inside (List.forall_mem_cons.mp hline).2

/-- A line break is passed if there is one. -/
lemma passes_lineBreak : lineBreak.Ensures c fun r d =>
    match r with
    | none => d = c ∧ ∀ ch ∈ c.peek 0, isBreak ch = false
    | some _ => ∀ inside, c.Passes inside false d := by
  have hpass : ∀ (n : Nat) (run : List Char), c.rest.take n = run → run ≠ [] →
      (∀ ch ∈ run, isBreak ch = true) → ∀ inside, c.Passes inside false (c.forward n) := by
    intro n run hrun hne hall inside
    refine ⟨Cursor.before_forward c n, run, ?_, commentState_breaks inside hne hall⟩
    rw [Cursor.rest_forward, ← hrun, List.take_append_drop]
  rw [lineBreak, ensures_bind, ensures_peek]
  cases hrest : c.rest with
  | nil =>
      have hpeek : c.peek 0 = none := by simp [Cursor.peek, hrest]
      rw [hpeek]
      exact ensures_pure.mpr ⟨rfl, by simp⟩
  | cons ch s =>
      have hpeek : c.peek 0 = some ch := by simp [Cursor.peek, hrest]
      rw [hpeek]
      dsimp only
      rw [ensures_bind, ensures_peek]
      have hnext : c.peek 1 = s.head? := by simp [Cursor.peek, hrest, List.head?_eq_getElem?]
      split
      · next hreturn =>
          rw [ensures_bind, ensures_advance, ensures_pure]
          rw [Bool.and_eq_true, decide_eq_true_eq, hnext, beq_iff_eq] at hreturn
          obtain ⟨rfl, hfeed⟩ := hreturn
          obtain ⟨s, rfl⟩ := List.head?_eq_some_iff.mp hfeed
          exact hpass 2 ['\r', '\n'] (by simp [hrest]) (by simp) (by simp [isBreak])
      · split
        · next hbreak =>
            rw [ensures_bind, ensures_advance, ensures_pure]
            refine hpass 1 [ch] (by simp [hrest]) (by simp) ?_
            simp only [Bool.or_eq_true, decide_eq_true_eq] at hbreak
            rcases hbreak with (rfl | rfl) | rfl <;> simp [isBreak]
        · split
          · next hbreak =>
              rw [ensures_bind, ensures_advance, ensures_pure]
              refine hpass 1 [ch] (by simp [hrest]) (by simp) ?_
              simp only [Bool.or_eq_true, decide_eq_true_eq] at hbreak
              rcases hbreak with rfl | rfl <;> simp [isBreak]
          · next hbreak hwide =>
              refine ensures_pure.mpr ⟨rfl, fun d hd => ?_⟩
              obtain rfl := Option.some.inj hd
              simp only [Bool.or_eq_true, decide_eq_true_eq, not_or] at hbreak hwide
              simp [isBreak, hbreak, hwide]

/-- The rest of a line is passed, with the comment in it and its end. -/
lemma clears_ignoredLine (inside : Bool) : ignoredLine.Ensures c fun _ d => c.Clears inside d := by
  have hend : ∀ {d : Cursor} {inside' : Bool}, c.Passes inside inside' d →
      Ensures (do
        let e ← peek 0
        if !e.all isBreak then fail (.expectedCommentOrBreak e)
        let _ ← lineBreak) d fun _ e => c.Clears inside e := by
    intro d inside' hd
    rw [ensures_bind, ensures_peek]
    refine ensures_unless fun hbreak => ?_
    rw [ensures_bind]
    refine passes_lineBreak.mono fun r e he => ensures_pure.mpr ?_
    cases r with
    | some _ => exact (hd.trans (he inside')).clears
    | none =>
        obtain ⟨rfl, hnone⟩ := he
        refine hd.clears_end ?_
        cases hrest : e.rest with
        | nil => rfl
        | cons ch s =>
            have hpeek : e.peek 0 = some ch := by simp [Cursor.peek, hrest]
            rw [hpeek] at hbreak hnone
            simp [hnone ch rfl] at hbreak
  rw [ignoredLine, ensures_bind, ensures_skipWhile]
  refine passes_spaces.mono fun _ d hd => ?_
  rw [ensures_bind, ensures_nextIs]
  split
  · next hsign =>
      rw [ensures_bind, ensures_skipWhile]
      exact (passes_comment hsign).mono fun _ e he => hend ((hd.1 inside).trans (he.1 inside))
  · exact hend (hd.1 inside)

/-! ### Behind plain scalars -/

/-- The breaks behind the first one are passed. -/
lemma passes_plainBreaks : plainBreaks.Ensures c fun _ d => c.Passes false false d := by
  rw [plainBreaks, ensures_bind]
  refine ensures_atSeparator fun b => ?_
  cases b with
  | true => exact ensures_pure.mpr (Cursor.Passes.refl false c)
  | false =>
      refine ensures_iterate_of_invariant (Cursor.Passes.refl false c) fun breaks? d hd => ?_
      cases breaks? with
      | none => exact ensures_pure.mpr hd
      | some breaks =>
          dsimp only
          rw [ensures_bind, ensures_nextIs]
          split
          · next hspace =>
              rw [ensures_bind, ensures_advance, ensures_pure]
              refine hd.trans ⟨Cursor.before_forward d 1, [' '], ?_, rfl⟩
              exact Cursor.rest_of_peek (beq_iff_eq.mp hspace)
          · rw [ensures_bind]
            refine passes_lineBreak.mono fun r e he => ?_
            cases r with
            | none => exact ensures_pure.mpr (he.1 ▸ hd)
            | some ch =>
                rw [ensures_bind]
                refine ensures_atSeparator fun b => ?_
                split <;> exact ensures_pure.mpr (hd.trans (he false))

/-- The blanks behind a run are passed. -/
lemma passes_plainBlanks : plainBlanks.Ensures c fun _ d => c.Passes false false d := by
  rw [plainBlanks, ensures_bind]
  refine passes_spaces.mono fun run d hd => ?_
  rw [ensures_bind]
  refine passes_lineBreak.mono fun r e he => ?_
  cases r with
  | none => exact ensures_pure.mpr (he.1 ▸ hd.1 false)
  | some first =>
      rw [ensures_bind]
      refine passes_plainBreaks.mono fun more? f hf => ?_
      have hpass := ((hd.1 false).trans (he false)).trans hf
      cases more? <;> exact ensures_pure.mpr hpass

end Scan

/-! ### Behind units -/

/-- The mark is that of a cursor between `c` and `d`, from which `d` is reached over spaces and line
breaks. -/
def Behind (c : Cursor) (m : Mark) (d : Cursor) : Prop :=
  ∃ f : Cursor, c.Before f ∧ m = f.mark ∧ f.Passes false false d

/-- The mark is that of the cursor. -/
lemma behind_here {c d : Cursor} (h : c.Before d) : Behind c d.mark d :=
  ⟨d, h, rfl, .refl false d⟩

/-- More spaces and line breaks are passed. -/
lemma Behind.pass {c d e : Cursor} {m : Mark} (h : Behind c m d) (hd : d.Passes false false e) :
    Behind c m e := by
  obtain ⟨f, hf, hm, hpass⟩ := h
  exact ⟨f, hf, hm, hpass.trans hd⟩

/-- The cursors before and behind it. -/
lemma Behind.before {c d : Cursor} {m : Mark} (h : Behind c m d) : c.Before d := by
  obtain ⟨f, hf, -, hpass⟩ := h
  exact hf.trans hpass.before

/-- Is the unit a directive that is not known? -/
def Lexeme.isReserved (l : Lexeme) : Bool :=
  match l.content with
  | .directive (.unknown _) => true
  | _ => false

/-- Behind the unit, spaces, line breaks and comments are passed; behind a directive that is not
known the rest of the line passes for a comment, and it begins with a space. -/
def Lexeme.Trails (l : Lexeme) (c d : Cursor) : Prop :=
  ∃ f : Cursor, c.Before f ∧ l.stop = f.mark ∧ f.Clears l.isReserved d ∧
    (l.isReserved = true → ∀ ch ∈ f.peek 0, isSpaceOrBreak ch = true)

/-- Nothing is passed behind a unit that fills what is read. -/
lemma Lexeme.Fills.trails {l : Lexeme} {c d : Cursor} (h : l.Fills c d) (hcd : c.Before d) :
    l.Trails c d := by
  have hreserved : l.isReserved = false := by
    rw [Lexeme.isReserved]
    split
    · next name heq => exact absurd heq (h.not_directive _)
    · rfl
  rw [Lexeme.Trails, hreserved]
  exact ⟨d, hcd, h.stop_eq, (Cursor.Passes.refl false d).clears, by simp⟩

/-- A scalar trails what is behind its last line. -/
lemma Behind.trails {c d : Cursor} {m start : Mark} {text : String} {style : ScalarStyle}
    (h : Behind c m d) : Lexeme.Trails ⟨.scalar text style, start, m⟩ c d := by
  obtain ⟨f, hf, hm, hpass⟩ := h
  exact ⟨f, hf, hm, hpass.clears, by simp [Lexeme.isReserved]⟩

namespace Scan

variable {c : Cursor}

/-- Behind a plain scalar stand the blanks that were read to see whether it goes on. -/
lemma trails_plainLexeme {flow : Bool} {parent : Int} :
    (plainLexeme flow parent).Ensures c fun p d => p.1.Trails c d := by
  rw [plainLexeme, ensures_bind, ensures_here, ensures_bind]
  refine (ensures_iterate_of_invariant (I := fun t d => Behind c t.stop d)
    (behind_here (Cursor.before_refl c)) fun t d ht => ?_).mono fun t d ht =>
      ensures_pure.mpr ht.trails
  rw [ensures_bind, ensures_nextIs]
  split
  · exact ensures_pure.mpr ht
  · rw [ensures_bind, ensures_ahead]
    dsimp only
    split
    · exact ensures_pure.mpr ht
    · rw [ensures_bind, ensures_advance, ensures_bind, ensures_here, ensures_bind]
      refine passes_plainBlanks.mono fun gap e he => ?_
      have hbehind := (behind_here (ht.before.trans (Cursor.before_forward d _))).pass he
      rw [ensures_bind, ensures_column]
      split <;> exact ensures_pure.mpr hbehind

/-- Spaces are passed up to a column. -/
lemma passes_indentTo {indent : Nat} : (indentTo indent).Ensures c fun _ d =>
    c.Passes false false d := by
  rw [indentTo, ensures_bind, ensures_ahead, ensures_bind, ensures_column, ensures_advance]
  refine ⟨Cursor.before_forward _ _,
    c.rest.take (min (c.rest.takeWhile (· = ' ')).length (indent - c.mark.column)), ?_,
    commentState_spaces false fun ch hch => ?_⟩
  · rw [Cursor.rest_forward, List.take_append_drop]
  · have htake := List.prefix_iff_eq_take.mp (List.takeWhile_prefix (· = ' ') (l := c.rest))
    have hmem : ch ∈ c.rest.takeWhile (· = ' ') := by
      rw [htake]
      exact (List.take_sublist_take_left (Nat.min_le_left _ _)).subset hch
    simpa using List.all_eq_true.mp List.all_takeWhile ch hmem

variable {b : Cursor}

lemma behind_blockIndentation (hb : b.Before c) :
    blockIndentation.Ensures c fun p d => Behind b p.1.stop d := by
  rw [blockIndentation, ensures_bind, ensures_here]
  refine ensures_iterate_of_invariant (behind_here hb) fun s d hs => ?_
  rw [ensures_bind]
  refine passes_lineBreak.mono fun r e he => ?_
  cases r with
  | some _ =>
      simp only [ensures_bind, ensures_here, ensures_pure]
      exact behind_here (hs.before.trans (he false).before)
  | none =>
      obtain ⟨rfl, -⟩ := he
      simp only [ensures_bind, ensures_nextIs]
      split
      · next hspace =>
          simp only [ensures_bind, ensures_advance, ensures_column, ensures_pure]
          refine hs.pass ⟨Cursor.before_forward e 1, [' '], ?_, rfl⟩
          exact Cursor.rest_of_peek (beq_iff_eq.mp hspace)
      · exact ensures_pure.mpr hs

lemma behind_blockBreaks {indent : Nat} (hb : b.Before c) :
    (blockBreaks indent).Ensures c fun t d => Behind b t.stop d := by
  rw [blockBreaks, ensures_bind, ensures_here, ensures_bind]
  refine passes_indentTo.mono fun _ d hd => ?_
  refine ensures_iterate_of_invariant ((behind_here hb).pass hd) fun s e hs => ?_
  rw [ensures_bind]
  refine passes_lineBreak.mono fun r f hf => ?_
  cases r with
  | some _ =>
      simp only [ensures_bind, ensures_here]
      refine passes_indentTo.mono fun _ g hg => ?_
      exact ensures_pure.mpr ((behind_here (hs.before.trans (hf false).before)).pass hg)
  | none => exact ensures_pure.mpr (hf.1 ▸ hs)

lemma behind_blockLines {folded : Bool} {indent : Nat} {before : Breaks}
    (hb : Behind b before.stop c) :
    (blockLines folded indent before).Ensures c fun t d => Behind b t.after.stop d := by
  have hline : ∀ {α : Type} {f : Bool → Scan α} {d : Cursor} {Q : α → Cursor → Prop},
      (∀ r, (f r).Ensures d Q) → (atBlockLine indent >>= f).Ensures d Q := by
    intro α f d Q hf
    simp only [ensures_bind, atBlockLine, ensures_column, ensures_peek, ensures_pure]
    exact hf _
  rw [blockLines]
  refine ensures_iterate_of_invariant hb fun s d hs => hline fun r => ?_
  split
  · exact ensures_pure.mpr hs
  · rw [ensures_bind, ensures_peek]
    dsimp only
    rw [ensures_bind]
    refine .of_before fun line f hf => ?_
    rw [ensures_bind]
    refine .of_before fun last g hg => ?_
    rw [ensures_bind]
    refine (behind_blockBreaks (hs.before.trans (hf.trans hg))).mono fun after k hk => ?_
    refine hline fun r' => ?_
    split
    · exact ensures_pure.mpr hk
    · rw [ensures_bind, ensures_peek]
      split <;> exact ensures_pure.mpr hk

/-- Behind a block scalar stand the spaces in front of the next line. -/
lemma trails_blockLexeme {folded : Bool} {parent : Int} :
    (blockLexeme folded parent).Ensures c fun l d => l.Trails c d := by
  have hbody : ∀ (text : BlockText → String) (style : ScalarStyle) (indent : Nat) (before : Breaks)
      (d : Cursor), Behind c before.stop d → Ensures
        (do
          let body ← blockLines folded indent before
          return (⟨.scalar (text body) style, c.mark, body.after.stop⟩ : Lexeme))
        d fun l d => l.Trails c d := by
    intro text style indent before d hb
    rw [ensures_bind]
    exact (behind_blockLines hb).mono fun body e he => ensures_pure.mpr he.trails
  rw [blockLexeme, ensures_bind, ensures_here, ensures_bind, ensures_advance, ensures_bind]
  refine .of_before fun header d hd => ?_
  obtain ⟨chomp, indentation⟩ := header
  dsimp only
  rw [ensures_bind]
  refine .of_before fun _ e he => ?_
  have hbefore : c.Before e := (Cursor.before_forward c 1).trans (hd.trans he)
  cases indentation with
  | none =>
      rw [ensures_bind]
      refine (behind_blockIndentation hbefore).mono fun p f hf => ?_
      obtain ⟨before, found⟩ := p
      dsimp only
      rw [ensures_bind, ensures_pure]
      exact hbody _ _ _ before f hf
  | some n =>
      rw [ensures_bind]
      refine (behind_blockBreaks hbefore).mono fun before f hf => ?_
      rw [ensures_bind, ensures_pure]
      exact hbody _ _ _ before f hf

/-- Behind the name of a directive the line ends, or a space follows. -/
lemma spaced_directiveName :
    directiveName.Ensures c fun _ d => ∀ ch ∈ d.peek 0, isSpaceOrBreak ch = true := by
  rw [directiveName, ensures_bind]
  refine .of_before fun name d _ => ?_
  rw [ensures_bind, ensures_peek]
  refine ensures_unless fun hend => ensures_pure.mpr fun ch hch => ?_
  rw [Option.mem_def.mp hch] at hend
  simp only [Option.all_some, Bool.or_eq_true, Bool.not_eq_true', not_or, Bool.not_eq_false] at hend
  exact hend.2

/-- A version is a known directive. -/
lemma ensures_versionValue :
    versionValue.Ensures c fun v _ => ∃ major minor, v = .version major minor := by
  rw [versionValue, ensures_bind]
  refine .of_before fun _ d _ => ?_
  rw [ensures_bind]
  refine .of_before fun major e _ => ?_
  rw [ensures_bind, ensures_peek]
  refine ensures_unless fun _ => ?_
  rw [ensures_bind, ensures_advance, ensures_bind]
  refine .of_before fun minor f _ => ?_
  rw [ensures_bind, ensures_peek]
  exact ensures_unless fun _ => ensures_pure.mpr ⟨major, minor, rfl⟩

/-- A tag handle is a known directive. -/
lemma ensures_tagHandleValue :
    tagHandleValue.Ensures c fun v _ => ∃ handle stem, v = .tagHandle handle stem := by
  rw [tagHandleValue, ensures_bind]
  refine .of_before fun _ d _ => ?_
  rw [ensures_bind]
  refine .of_before fun handle e _ => ?_
  rw [ensures_bind, ensures_peek]
  refine ensures_unless fun _ => ?_
  rw [ensures_bind]
  refine .of_before fun _ f _ => ?_
  rw [ensures_bind]
  refine .of_before fun stem g _ => ?_
  rw [ensures_bind, ensures_peek]
  exact ensures_unless fun _ => ensures_pure.mpr ⟨_, _, rfl⟩

/-- The end of a directive: what is left of its line is passed. -/
private lemma trails_directiveEnd {d : Cursor} {start : Mark} (hd : c.Before d) (v : Directive)
    (hspace : Lexeme.isReserved ⟨.directive v, start, d.mark⟩ = true →
      ∀ ch ∈ d.peek 0, isSpaceOrBreak ch = true) :
    Ensures
      (do
        let stop ← here
        if let .unknown _ := v then skipWhile fun c => !isBreak c
        ignoredLine
        return (⟨.directive v, start, stop⟩ : Lexeme))
      d fun l e => l.Trails c e := by
  have hend : ∀ {e : Cursor} {inside : Bool},
      d.Passes (Lexeme.isReserved ⟨.directive v, start, d.mark⟩) inside e →
      (ignoredLine >>= fun _ => Pure.pure (⟨.directive v, start, d.mark⟩ : Lexeme)).Ensures e
        fun l e => l.Trails c e := by
    intro e inside he
    rw [ensures_bind]
    refine (clears_ignoredLine inside).mono fun _ f hf => ensures_pure.mpr ?_
    obtain ⟨inside', hpass, hopen⟩ := hf
    exact ⟨d, hd, rfl, ⟨inside', he.trans hpass, hopen⟩, hspace⟩
  rw [ensures_bind, ensures_here]
  dsimp only
  split
  · rw [ensures_bind, ensures_skipWhile]
    exact passes_line.mono fun _ e he => hend he.1
  · next hknown =>
      have hpass : d.Passes (Lexeme.isReserved ⟨.directive v, start, d.mark⟩) false d := by
        cases v with
        | unknown name => exact absurd rfl (hknown name)
        | _ => exact .refl false d
      exact hend hpass

/-- Behind a directive stands the rest of its line. -/
lemma trails_directiveLexeme : directiveLexeme.Ensures c fun l d => l.Trails c d := by
  rw [directiveLexeme, ensures_bind, ensures_here, ensures_bind, ensures_advance, ensures_bind]
  refine spaced_directiveName.mono_before fun name d hd hspace => ?_
  have hbefore : c.Before d := (Cursor.before_forward c 1).trans hd
  dsimp only
  split
  · rw [ensures_bind]
    refine ensures_versionValue.mono_before fun v e he hv => ?_
    obtain ⟨major, minor, rfl⟩ := hv
    exact trails_directiveEnd (hbefore.trans he) (.version major minor) fun h => by cases h
  · split
    · rw [ensures_bind]
      refine ensures_tagHandleValue.mono_before fun v e he hv => ?_
      obtain ⟨handle, stem, rfl⟩ := hv
      exact trails_directiveEnd (hbefore.trans he) (.tagHandle handle stem) fun h => by cases h
    · rw [ensures_bind, ensures_pure]
      exact trails_directiveEnd hbefore (.unknown (String.ofList name)) fun _ => hspace

end Scan

end YamlNavigator.Yaml
