import YamlNavigator.Proofs.Outcome
import YamlNavigator.Proofs.Yaml.MirrorUnit
import YamlNavigator.Proofs.Yaml.Order

/-!
The units of a text and of its spelling.

* `Lexeme.moveAll`: the units of a stream, of which all but the start of the stream are moved;
* `Context.spelled`: what has been read of the spelled text where a context has been read of the
  text;
* `Context.Twins`: such contexts at twin cursors, with what makes their pending keys stale together;
* `mirrors_read`: every round of reading leaves twin contexts behind;
* `scan_text`: the units of the spelled text are those of the text, moved.
-/

namespace YamlNavigator.Yaml

/-- The units of a stream with the marks of all but the first one, the start of the stream, changed
by a function. -/
def Lexeme.moveAll (f : Mark → Mark) : List Lexeme → List Lexeme
  | [] => []
  | l :: ls => l :: ls.map (mapMarks f)

namespace Lexeme

variable {f : Mark → Mark} {ls : List Lexeme}

@[simp]
lemma length_moveAll : (moveAll f ls).length = ls.length := by
  cases ls <;> simp [moveAll]

lemma moveAll_append (h : ls ≠ []) (ks : List Lexeme) :
    moveAll f (ls ++ ks) = moveAll f ls ++ ks.map (mapMarks f) := by
  cases ls with
  | nil => exact absurd rfl h
  | cons l ls => simp [moveAll]

lemma moveAll_insertIdx {n : Nat} (hn : 0 < n) (l : Lexeme) :
    moveAll f (ls.insertIdx n l) = (moveAll f ls).insertIdx n (l.mapMarks f) := by
  obtain ⟨n, rfl⟩ := Nat.exists_eq_succ_of_ne_zero (Nat.pos_iff_ne_zero.mp hn)
  cases ls with
  | nil => rfl
  | cons k ls => simp [moveAll, List.insertIdx_succ_cons, List.map_insertIdx]

end Lexeme

/-- A pending key with its mark changed by a function. -/
def PendingKey.mapMarks (f : Mark → Mark) (key : PendingKey) : PendingKey :=
  { key with mark := f key.mark }

namespace Cursor

/-- Moving forward never lowers the line. -/
lemma line_le_of_before {c d : Cursor} (h : c.Before d) : c.mark.line ≤ d.mark.line := by
  obtain ⟨n, rfl⟩ := h
  induction n generalizing c with
  | zero => exact Nat.le_refl _
  | succ n ih =>
      refine Nat.le_trans ?_ ih
      rw [next]
      split
      · exact Nat.le_refl _
      · simp only [Mark.step]
        split
        · exact Nat.le_succ _
        · split <;> exact Nat.le_refl _

/-- Between cursors on one line stands no line feed. -/
lemma not_mem_of_line_eq {c : Cursor} {n : Nat} (h : (c.forward n).mark.line = c.mark.line) :
    '\n' ∉ c.rest.take n := by
  induction n generalizing c with
  | zero => simp
  | succ n ih =>
      rcases hrest : c.rest with _ | ⟨ch, t⟩
      · simp
      · have hnext : c.next = ⟨t, c.mark.step ch t⟩ := by
          rw [next]
          split
          · next heq => rw [hrest] at heq; cases heq
          · next heq => rw [hrest] at heq; cases heq; rfl
        have hle := line_le_of_before (before_forward c.next n)
        rw [forward_succ] at h
        rw [h, hnext] at hle
        have hch : ch ≠ '\n' := by
          rintro rfl
          simp only [Mark.step, decide_true, Bool.true_or, if_true] at hle
          omega
        have hsame : c.next.mark.line = c.mark.line := by
          have := line_le_of_before (before_forward c 1)
          rw [hnext]
          exact Nat.le_antisymm hle (by rwa [forward_succ, forward_zero, hnext] at this)
        have := ih (h.trans hsame.symm)
        rw [hnext] at this
        rw [List.take_succ_cons, List.mem_cons, not_or]
        exact ⟨Ne.symm hch, this⟩

end Cursor

/-- A byte order mark that is put in front of a text is passed before the text. One that belongs to
the text is passed in the spelled text as well. -/
lemma Cursor.Twins.index_eq_zero_iff {w : Spelling} {s : List Char} {c d : Cursor}
    (h : Cursor.Twins w s c d) (hc : c.peek 0 = some '\ufeff') :
    d.mark.index = 0 ↔ c.mark.index = 0 := by
  have hindex : d.mark.index = w.offset s c.mark.index := by rw [h.mark]; rfl
  cases hw : w.marked with
  | true =>
      have hfront : w.front.length = 1 := by simp [Spelling.front, hw]
      have hle := Spelling.front_length_le_offset (w := w) s c.mark.index
      refine iff_of_false (by omega) fun hzero => h.suits.unmarked hw ?_
      have hrest := h.rest_eq
      rw [hzero, List.drop_zero] at hrest
      rw [← hrest, ← hc, peek, List.head?_eq_getElem?]
  | false =>
      have hfront : w.front.length = 0 := by simp [Spelling.front, hw]
      have hzero := Spelling.offset_inj (w := w) (s := s) (i := c.mark.index) (j := 0)
      rw [Spelling.offset_zero, hfront] at hzero
      rw [hindex, hzero]

namespace Context

open Scan Cursor

variable {w : Spelling} {s : List Char} {x y : Context} {c d c' d' : Cursor}

/-- The context in the spelled text. -/
def spelled (w : Spelling) (s : List Char) (x : Context) : Context :=
  { x with
    lexemes := (Lexeme.moveAll (Mark.spelled w s) x.lexemes.toList).toArray
    pending := x.pending.map fun p => (p.1, p.2.mapMarks (Mark.spelled w s)) }

/-- Contexts at one place of a text and of its spelling. The start of the stream has been read, and
pending keys stand behind it, at places that have been passed. -/
structure Twins (w : Spelling) (s : List Char) (x y : Context) (c d : Cursor) : Prop where
  cursors : Cursor.Twins w s c d
  eq : y = x.spelled w s
  ne_nil : x.lexemes.toList ≠ []
  slot_pos : ∀ p ∈ x.pending, 0 < p.2.slot
  passed : ∀ p ∈ x.pending, ∃ e, (ofText s).Before e ∧ e.Before c ∧ e.mark = p.2.mark

namespace Twins

/-- Twin contexts stay such while the cursors move. -/
lemma move (h : Twins w s x y c d) (hc : c.Before c') (h' : Cursor.Twins w s c' d') :
    Twins w s x y c' d' where
  cursors := h'
  eq := h.eq
  ne_nil := h.ne_nil
  slot_pos := h.slot_pos
  passed p hp := by
    obtain ⟨e, hs, he, hmark⟩ := h.passed p hp
    exact ⟨e, hs, he.trans hc, hmark⟩

/-- The flow level and the permission for keys may be changed alike. -/
lemma update (h : Twins w s x y c d) {level level' : Int} {allowed allowed' : Bool}
    (hlevel : level' = level) (hallowed : allowed' = allowed) :
    Twins w s { x with flowLevel := level, keyAllowed := allowed }
      { y with flowLevel := level', keyAllowed := allowed' } c d where
  cursors := h.cursors
  eq := by rw [h.eq, hlevel, hallowed]; rfl
  ne_nil := h.ne_nil
  slot_pos := h.slot_pos
  passed := h.passed

lemma inFlow_eq (h : Twins w s x y c d) : y.inFlow = x.inFlow := by rw [h.eq]; rfl

lemma indent_eq (h : Twins w s x y c d) : y.indent = x.indent := by rw [h.eq]; rfl

lemma flowLevel_eq (h : Twins w s x y c d) : y.flowLevel = x.flowLevel := by rw [h.eq]; rfl

lemma keyAllowed_eq (h : Twins w s x y c d) : y.keyAllowed = x.keyAllowed := by rw [h.eq]; rfl

/-- Units that correspond may be pushed. -/
lemma push (h : Twins w s x y c d) (l : Lexeme) :
    Twins w s (x.push l) (y.push (l.mapMarks (Mark.spelled w s))) c d where
  cursors := h.cursors
  eq := by
    rw [h.eq]
    simp [Context.push, spelled, Lexeme.moveAll_append h.ne_nil]
  ne_nil := by simp [Context.push]
  slot_pos := h.slot_pos
  passed := h.passed

/-- Units without text may be pushed at the cursors. -/
lemma pushEmpty (h : Twins w s x y c d) (content : Content) :
    Twins w s (x.pushEmpty content c.mark) (y.pushEmpty content d.mark) c d := by
  have := h.push ⟨content, c.mark, c.mark⟩
  rw [h.cursors.mark]
  exact this

/-- Block collections are ended alike. -/
lemma unwind (h : Twins w s x y c d) (column : Int) :
    Twins w s (x.unwind column c.mark) (y.unwind column d.mark) c d := by
  rw [Context.unwind, Context.unwind, h.inFlow_eq]
  split
  · exact h
  · refine ⟨h.cursors, ?_, ?_, h.slot_pos, h.passed⟩
    · rw [h.eq, h.cursors.mark]
      simp [spelled, Lexeme.moveAll_append h.ne_nil, Lexeme.mapMarks]
    · simpa using fun hnil => absurd hnil (by simpa using h.ne_nil)

/-- A block collection may be opened in both texts. -/
lemma opened (h : Twins w s x y c d) (column : Nat) :
    Twins w s { x with indents := column :: x.indents } { y with indents := column :: y.indents }
      c d :=
  ⟨h.cursors, by rw [h.eq]; rfl, h.ne_nil, h.slot_pos, h.passed⟩

/-- A block collection begins in both texts or in none. -/
lemma openBlock (h : Twins w s x y c d) (content : Content) :
    Twins w s (x.openBlock content c.mark) (y.openBlock content d.mark) c d := by
  rw [Context.openBlock, Context.openBlock, opensAt, opensAt, h.indent_eq, h.cursors.column_eq]
  split
  · exact (h.opened c.mark.column).pushEmpty content
  · exact h

/-- Pending keys are given up alike. -/
lemma filter (h : Twins w s x y c d) {p q : Int × PendingKey → Bool}
    (hpq : ∀ k ∈ x.pending, q (k.1, k.2.mapMarks (Mark.spelled w s)) = p k) :
    Twins w s { x with pending := x.pending.filter p } { y with pending := y.pending.filter q }
      c d where
  cursors := h.cursors
  eq := by
    rw [h.eq]
    simp only [spelled, List.filter_map, Function.comp_def]
    rw [List.filter_congr hpq]
  ne_nil := h.ne_nil
  slot_pos k hk := h.slot_pos k (List.mem_filter.mp hk).1
  passed k hk := h.passed k (List.mem_filter.mp hk).1

lemma forgetPending (h : Twins w s x y c d) : Twins w s x.forgetPending y.forgetPending c d := by
  refine h.filter fun k _ => ?_
  rw [h.flowLevel_eq]

/-- The same key is pending. -/
lemma pendingHere?_eq (h : Twins w s x y c d) :
    y.pendingHere? = x.pendingHere?.map (PendingKey.mapMarks (Mark.spelled w s)) := by
  rw [pendingHere?, pendingHere?, h.flowLevel_eq, h.eq]
  simp only [spelled, List.find?_map, Option.map_map]
  rfl

/-- A unit without text may be put in behind the start of the stream. -/
lemma insert (h : Twins w s x y c d) {slot : Nat} (hslot : 0 < slot) (l : Lexeme) :
    Twins w s { x with lexemes := x.lexemes.insertIdxIfInBounds slot l }
      { y with lexemes := y.lexemes.insertIdxIfInBounds slot (l.mapMarks (Mark.spelled w s)) }
      c d := by
  have hlist : x.lexemes.insertIdxIfInBounds slot l =
      (x.lexemes.toList.insertIdx slot l).toArray := by
    rw [← List.insertIdxIfInBounds_toArray, Array.toArray_toList]
  refine ⟨h.cursors, ?_, ?_, h.slot_pos, h.passed⟩
  · rw [h.eq, hlist]
    simp [spelled, Lexeme.moveAll_insertIdx hslot]
  · intro hnil
    have hlen := congrArg List.length hnil
    have hpos := List.length_pos_iff.mpr h.ne_nil
    rw [hlist, List.length_insertIdx, List.length_nil] at hlen
    split at hlen <;> omega

/-- A recognised key is put in front of its units in both texts. -/
lemma insertKey (h : Twins w s x y c d) {key : PendingKey} (hkey : x.pendingHere? = some key) :
    Twins w s (x.forgetPending.insertKey key)
      (y.forgetPending.insertKey (key.mapMarks (Mark.spelled w s))) c d := by
  obtain ⟨p, hfind, rfl⟩ := Option.map_eq_some_iff.mp hkey
  have hslot := h.slot_pos p (List.mem_of_find?_eq_some hfind)
  have hone := h.forgetPending.insert hslot ⟨.key, p.2.mark, p.2.mark⟩
  have hopens : (!y.forgetPending.inFlow &&
      y.forgetPending.opensAt (p.2.mapMarks (Mark.spelled w s)).mark.column) =
        (!x.forgetPending.inFlow && x.forgetPending.opensAt p.2.mark.column) := by
    rw [h.forgetPending.inFlow_eq, opensAt, opensAt, h.forgetPending.indent_eq]
    rfl
  rw [Context.insertKey, Context.insertKey, hopens]
  split
  · exact (hone.insert hslot ⟨.blockMappingStart, p.2.mark, p.2.mark⟩).opened p.2.mark.column
  · exact hone

end Twins

/-- The colon of a pending key can no more come in both texts or in neither. Up to the end of its
line all places have the same distance in both. -/
lemma Twins.isStale_eq (h : Twins w s x y c d) {p : Int × PendingKey} (hp : p ∈ x.pending) :
    isStale d.mark (p.2.mapMarks (Mark.spelled w s)) = isStale c.mark p.2 := by
  obtain ⟨e, hs, hec, hmark⟩ := h.passed p hp
  rw [isStale, isStale, PendingKey.mapMarks, h.cursors.mark, ← hmark]
  dsimp only [Mark.spelled]
  by_cases hline : e.mark.line = c.mark.line
  · obtain ⟨n, rfl⟩ := hec
    have hn := not_mem_of_line_eq hline.symm
    have hrest : s.drop e.mark.index = e.rest := by
      have := (rest_of_before hs).1
      rw [ofText, Mark.start, Nat.sub_zero] at this
      exact this.symm
    have hoffset := Spelling.offset_add (w := w)
      (hrest.trans (List.take_append_drop n e.rest).symm)
    rw [Spelling.body_of_not_mem hn, List.length_take] at hoffset
    refine congrArg _ (decide_eq_decide.mpr ?_)
    show w.offset s e.mark.index + keyLimit < w.offset s (e.forward n).mark.index ↔ _
    rw [index_forward, hoffset]
    omega
  · rw [bne_iff_ne.mpr hline, Bool.true_or, Bool.true_or]

/-! ### Reading -/

/-- Steps that leave the cursors where they are, with twin contexts. -/
def Stays (w : Spelling) (s : List Char) (u v : Scan Context) (c d : Cursor) : Prop :=
  u.Mirrors v c d fun x y c' d' => c' = c ∧ d' = d ∧ Twins w s x y c d

/-- Steps that leave twin contexts behind. -/
def Moves (w : Spelling) (s : List Char) (u v : Scan Context) (c d : Cursor) : Prop :=
  u.Mirrors v c d (Twins w s)

variable {α β : Type} {u v : Scan Context} {f : Context → Scan α} {g : Context → Scan β}
  {R : α → β → Cursor → Cursor → Prop}

lemma stays_pure (h : Twins w s x y c d) :
    Stays w s (Pure.pure x) (Pure.pure y) c d :=
  mirrors_pure.mpr ⟨rfl, rfl, h⟩

lemma Stays.bind (huv : Stays w s u v c d)
    (hfg : ∀ x y, Twins w s x y c d → (f x).Mirrors (g y) c d R) :
    (u >>= f).Mirrors (v >>= g) c d R := by
  refine mirrors_bind (Mirrors.mono huv ?_)
  rintro x y _ _ ⟨rfl, rfl, h⟩
  exact hfg x y h

/-- A key that has to come is pending in both texts or in none. -/
lemma stays_dropPending (h : Twins w s x y c d) : Stays w s x.dropPending y.dropPending c d := by
  refine mirrors_unless ?_ fun _ => stays_pure h.forgetPending
  rw [h.pendingHere?_eq, Option.any_map]
  exact id

lemma stays_savePending (h : Twins w s x y c d) : Stays w s x.savePending y.savePending c d := by
  rw [savePending, savePending, h.keyAllowed_eq]
  refine mirrors_ite Iff.rfl (fun _ => stays_pure h) fun _ => mirrors_here.mpr ?_
  refine (stays_dropPending h).bind fun x' y' h' => stays_pure ⟨h'.cursors, ?_, h'.ne_nil, ?_, ?_⟩
  · rw [h.inFlow_eq, h.indent_eq, h.cursors.column_eq, h'.eq, h.cursors.mark]
    simp [spelled, PendingKey.mapMarks]
  · intro p hp
    rcases List.mem_append.mp hp with hp | hp
    · exact h'.slot_pos p hp
    · rw [List.mem_singleton.mp hp]
      have := List.length_pos_iff.mpr h'.ne_nil
      simpa using this
  · intro p hp
    rcases List.mem_append.mp hp with hp | hp
    · exact h'.passed p hp
    · rw [List.mem_singleton.mp hp]
      exact ⟨c, h.cursors.reached, before_refl c, rfl⟩

lemma stays_dropStale (h : Twins w s x y c d) : Stays w s x.dropStale y.dropStale c d := by
  refine mirrors_here.mpr (mirrors_unless ?_ fun _ => stays_pure (h.filter fun k hk => ?_))
  · intro hstale
    rw [List.any_eq_true] at hstale ⊢
    obtain ⟨q, hq, hstale⟩ := hstale
    rw [h.eq] at hq
    obtain ⟨p, hp, rfl⟩ := List.mem_map.mp hq
    refine ⟨p, hp, ?_⟩
    rwa [h.isStale_eq hp] at hstale
  · rw [h.isStale_eq hk]

lemma stays_closeDocument (h : Twins w s x y c d) :
    Stays w s x.closeDocument y.closeDocument c d := by
  refine mirrors_here.mpr ((stays_dropPending (h.unwind (-1))).bind fun x' y' h' => ?_)
  exact stays_pure (h'.update h'.flowLevel_eq rfl)

/-- A unit of a fixed number of characters, none of which is a line feed. -/
lemma moves_readMark (h : Twins w s x y c d) {n : Nat} (hn : '\n' ∉ c.rest.take n)
    (content : Content) : Moves w s (x.readMark content n) (y.readMark content n) c d := by
  refine mirrors_here.mpr (mirrors_advance.mpr (mirrors_here.mpr (mirrors_pure.mpr ?_)))
  have h' := h.cursors.forward_of_not_mem hn
  rw [h.cursors.mark, h'.mark]
  exact (h.move (before_forward c n) h').push ⟨content, c.mark, (c.forward n).mark⟩

/-- The one character of a unit is no line feed. -/
lemma not_mem_take_one {ch : Char} (hc : c.peek 0 = some ch) (hn : ch ≠ '\n') :
    '\n' ∉ c.rest.take 1 := by
  simp [rest_of_peek hc, Ne.symm hn]

lemma moves_readEnd (h : Twins w s x y c d) : Moves w s x.readEnd y.readEnd c d := by
  refine (stays_closeDocument h).bind fun x' y' h' => mirrors_here.mpr (mirrors_pure.mpr ?_)
  have hnone : Twins w s { x' with pending := [] } { y' with pending := [] } c d :=
    ⟨h'.cursors, by rw [h'.eq]; rfl, h'.ne_nil, by simp, by simp⟩
  exact hnone.pushEmpty .streamEnd

lemma moves_readDirective (h : Twins w s x y c d) (hc : c.peek 0 = some '%') :
    Moves w s x.readDirective y.readDirective c d := by
  refine (stays_closeDocument h).bind fun x' y' h' => ?_
  refine mirrors_bind ((respells_directiveLexeme h.cursors hc).mono_before ?_)
  rintro l _ c' d' hbefore ⟨rfl, htwins⟩
  exact mirrors_pure.mpr ((h'.move hbefore htwins).push l)

lemma moves_readSeparator (h : Twins w s x y c d) (hn : '\n' ∉ c.rest.take 3)
    (content : Content) : Moves w s (x.readSeparator content) (y.readSeparator content) c d :=
  (stays_closeDocument h).bind fun _ _ h' => moves_readMark h' hn content

section Mark

variable (h : Twins w s x y c d) (hn : '\n' ∉ c.rest.take 1)
include h hn

lemma moves_readFlowStart (content : Content) :
    Moves w s (x.readFlowStart content) (y.readFlowStart content) c d :=
  (stays_savePending h).bind fun _ _ h' =>
    moves_readMark (h'.update (by rw [h'.flowLevel_eq]) rfl) hn content

lemma moves_readFlowEnd (content : Content) :
    Moves w s (x.readFlowEnd content) (y.readFlowEnd content) c d :=
  (stays_dropPending h).bind fun _ _ h' =>
    moves_readMark (h'.update (by rw [h'.flowLevel_eq]) rfl) hn content

lemma moves_readFlowEntry : Moves w s x.readFlowEntry y.readFlowEntry c d :=
  (stays_dropPending h).bind fun _ _ h' => moves_readMark (h'.update h'.flowLevel_eq rfl) hn _

/-- An indicator that may begin a block collection. -/
private lemma moves_readIndicator (opening content : Content) (refusal : Problem)
    (allowed : Context → Bool)
    (hallowed : ∀ {x y}, Twins w s x y c d → allowed y = allowed x) :
    Moves w s
      (do
        let x ← x.openBlockHere opening refusal
        let x ← x.dropPending
        { x with keyAllowed := allowed x }.readMark content 1)
      (do
        let y ← y.openBlockHere opening refusal
        let y ← y.dropPending
        { y with keyAllowed := allowed y }.readMark content 1) c d := by
  have hopen : Stays w s (x.openBlockHere opening refusal) (y.openBlockHere opening refusal)
      c d := by
    rw [openBlockHere, openBlockHere, h.inFlow_eq, h.keyAllowed_eq]
    refine mirrors_ite Iff.rfl (fun _ => stays_pure h) fun _ => ?_
    exact mirrors_unless id fun _ => mirrors_here.mpr (stays_pure (h.openBlock opening))
  refine hopen.bind fun x₁ y₁ h₁ => (stays_dropPending h₁).bind fun x₂ y₂ h₂ => ?_
  exact moves_readMark (h₂.update h₂.flowLevel_eq (hallowed h₂)) hn content

lemma moves_readBlockEntry : Moves w s x.readBlockEntry y.readBlockEntry c d :=
  moves_readIndicator h hn _ _ _ (fun _ => true) fun _ => rfl

lemma moves_readKey : Moves w s x.readKey y.readKey c d :=
  moves_readIndicator h hn _ _ _ (fun x => !x.inFlow) fun h => by rw [h.inFlow_eq]

lemma moves_readValue : Moves w s x.readValue y.readValue c d := by
  rw [readValue, readValue, h.pendingHere?_eq]
  cases hkey : x.pendingHere? with
  | some key =>
      have hinsert := h.insertKey hkey
      exact moves_readMark (hinsert.update hinsert.flowLevel_eq rfl) hn _
  | none => exact moves_readIndicator h hn _ _ _ (fun x => !x.inFlow) fun h => by rw [h.inFlow_eq]

end Mark

lemma moves_readNode (h : Twins w s x y c d) {unit : Scan Lexeme}
    (hunit : unit.Respells w s c d) : Moves w s (x.readNode unit) (y.readNode unit) c d := by
  refine (stays_savePending h).bind fun x' y' h' => mirrors_bind (Mirrors.mono_before hunit ?_)
  rintro l _ c' d' hbefore ⟨rfl, htwins⟩
  exact mirrors_pure.mpr (((h'.update h'.flowLevel_eq rfl).move hbefore htwins).push l)

lemma moves_readBlock (h : Twins w s x y c d) {ch : Char} (hc : c.peek 0 = some ch)
    (hn : ch ≠ '\n') (folded : Bool) : Moves w s (x.readBlock folded) (y.readBlock folded) c d := by
  refine (stays_dropPending h).bind fun x' y' h' => ?_
  rw [h'.indent_eq]
  refine mirrors_bind (Mirrors.mono_before (respells_blockLexeme h.cursors hc hn folded _) ?_)
  rintro l _ c' d' hbefore ⟨rfl, htwins⟩
  exact mirrors_pure.mpr (((h'.update h'.flowLevel_eq rfl).move hbefore htwins).push l)

lemma moves_readPlain (h : Twins w s x y c d) : Moves w s x.readPlain y.readPlain c d := by
  refine (stays_savePending h).bind fun x' y' h' => ?_
  rw [h'.inFlow_eq, h'.indent_eq]
  refine mirrors_bind ((mirrors_plainLexeme h.cursors x'.inFlow x'.indent).mono_before ?_)
  rintro ⟨l, broken⟩ _ c' d' hbefore ⟨rfl, htwins⟩
  exact mirrors_pure.mpr (((h'.update h'.flowLevel_eq rfl).move hbefore htwins).push l)

/-- Whatever unit begins at the cursors, it is read in both texts. -/
lemma moves_readAt (h : Twins w s x y c d) {ch : Char} (hc : c.peek 0 = some ch)
    (hch : isBreak ch = false) : Moves w s (x.readAt ch) (y.readAt ch) c d := by
  have hn : ch ≠ '\n' := by rintro rfl; cases hch
  have hone := not_mem_take_one hc hn
  have hspaced := h.cursors.all_peek_one (p := isBlankOrBreak) (by decide) hc hn
  have hplain : startsPlain y.inFlow ch (d.peek 1) = startsPlain x.inFlow ch (c.peek 1) := by
    rw [startsPlain, startsPlain, hspaced, h.inFlow_eq]
  refine mirrors_column.mpr (mirrors_peek.mpr ?_)
  dsimp only
  rw [h.cursors.column_eq, hspaced, hplain, h.inFlow_eq]
  refine mirrors_ite Iff.rfl (fun hat => moves_readDirective h ?_) fun _ => ?_
  · simp only [Bool.and_eq_true, decide_eq_true_eq] at hat
    rw [hc, hat.1]
  refine bind_atSeparator h.cursors fun b hb => ?_
  refine mirrors_ite Iff.rfl (fun hat => moves_readSeparator h (hb ?_) _) fun _ => ?_
  · simp only [Bool.and_eq_true] at hat
    exact hat.2
  refine bind_atSeparator h.cursors fun b hb => ?_
  refine mirrors_ite Iff.rfl (fun hat => moves_readSeparator h (hb ?_) _) fun _ => ?_
  · simp only [Bool.and_eq_true] at hat
    exact hat.2
  refine mirrors_ite Iff.rfl (fun _ => moves_readFlowStart h hone _) fun _ => ?_
  refine mirrors_ite Iff.rfl (fun _ => moves_readFlowStart h hone _) fun _ => ?_
  refine mirrors_ite Iff.rfl (fun _ => moves_readFlowEnd h hone _) fun _ => ?_
  refine mirrors_ite Iff.rfl (fun _ => moves_readFlowEnd h hone _) fun _ => ?_
  refine mirrors_ite Iff.rfl (fun _ => moves_readFlowEntry h hone) fun _ => ?_
  refine mirrors_ite Iff.rfl (fun _ => moves_readBlockEntry h hone) fun _ => ?_
  refine mirrors_ite Iff.rfl (fun _ => moves_readKey h hone) fun _ => ?_
  refine mirrors_ite Iff.rfl (fun _ => moves_readValue h hone) fun _ => ?_
  refine mirrors_ite Iff.rfl (fun _ => moves_readNode h (respells_namedLexeme h.cursors hc hn _))
    fun _ => ?_
  refine mirrors_ite Iff.rfl (fun _ => moves_readNode h (respells_namedLexeme h.cursors hc hn _))
    fun _ => ?_
  refine mirrors_ite Iff.rfl (fun hat => moves_readNode h (respells_tagLexeme h.cursors ?_))
    fun _ => ?_
  · rw [hc, hat]
  refine mirrors_ite Iff.rfl (fun _ => moves_readBlock h hc hn _) fun _ => ?_
  refine mirrors_ite Iff.rfl (fun _ => moves_readBlock h hc hn _) fun _ => ?_
  refine mirrors_ite Iff.rfl (fun hat => moves_readNode h (respells_quotedLexeme h.cursors _ ?_))
    fun _ => ?_
  · rw [hc, hat]
    rfl
  refine mirrors_ite Iff.rfl (fun hat => moves_readNode h (respells_quotedLexeme h.cursors _ ?_))
    fun _ => ?_
  · rw [hc, hat]
    rfl
  exact mirrors_ite Iff.rfl (fun _ => moves_readPlain h) fun _ => mirrors_fail

/-- The end of a line of blanks: a line break takes both texts behind it. -/
private lemma mirrors_blankBreak {e e' : Cursor} (he : Twins w s x y e e') (hce : c.Before e) : (do
    match ← lineBreak with
    | none => return .done x
    | some _ => return .yield (if x.inFlow then x else { x with keyAllowed := true }) :
    Scan (ForInStep Context)).Mirrors (do
    match ← lineBreak with
    | none => return .done y
    | some _ => return .yield (if y.inFlow then y else { y with keyAllowed := true }) :
    Scan (ForInStep Context)) e e' fun r r' c' d' => Abreast
      (fun x y => Twins w s x y c' d' ∧ (c'.peek 0).any isBreak = false)
      (fun x y => Twins w s x y c' d' ∧ c.mark.index < c'.mark.index) r r' := by
  refine bind_lineBreak he.cursors (fun hnone => mirrors_pure.mpr (.done ⟨he, hnone⟩))
    fun ch c₁ d₁ hc₁ hlt h₁ => mirrors_pure.mpr (.yield ⟨?_, ?_⟩)
  · rw [he.inFlow_eq]
    split
    · exact he.move hc₁ h₁
    · exact (he.move hc₁ h₁).update he.flowLevel_eq rfl
  · exact Nat.lt_of_le_of_lt (index_le_of_before hce) hlt

/-- Lines of blanks and comments are skipped in both texts. -/
private lemma mirrors_blankLines (h : Twins w s x y c d) : (iterate (fun x : Context => do
    skipWhile (· = ' ')
    if ← nextIs '#' then skipWhile fun c => !isBreak c
    match ← lineBreak with
    | none => return .done x
    | some _ => return .yield (if x.inFlow then x else { x with keyAllowed := true })) x).Mirrors
    (iterate (fun x : Context => do
      skipWhile (· = ' ')
      if ← nextIs '#' then skipWhile fun c => !isBreak c
      match ← lineBreak with
      | none => return .done x
      | some _ => return .yield (if x.inFlow then x else { x with keyAllowed := true })) y)
    c d fun x y c' d' => Twins w s x y c' d' ∧ (c'.peek 0).any isBreak = false := by
  refine mirrors_iterate (Twins w s) h h.cursors.length_le fun x y c d h => ?_
  refine (agrees_skipWhile h.cursors (by decide) (by decide)).bind fun _ c₁ d₁ hc₁ h₁ => ?_
  refine mirrors_nextIs.mpr ?_
  rw [h₁.nextIs (by decide)]
  refine mirrors_ite Iff.rfl (fun _ => ?_) fun _ => mirrors_blankBreak (h.move hc₁ h₁) hc₁
  refine (agrees_skipWhile h₁ (by decide) (by decide)).bind fun _ c₂ d₂ hc₂ h₂ => ?_
  exact mirrors_blankBreak (h.move (hc₁.trans hc₂) h₂) (hc₁.trans hc₂)

/-- Blanks, comments and line breaks are skipped in both texts; what follows is no line break. -/
lemma mirrors_skipBlanks (h : Twins w s x y c d) :
    x.skipBlanks.Mirrors y.skipBlanks c d fun x y c' d' =>
      Twins w s x y c' d' ∧ (c'.peek 0).any isBreak = false := by
  refine mirrors_here.mpr (mirrors_nextIs.mpr ?_)
  rw [h.cursors.nextIs (by decide)]
  refine mirrors_ite ?_ (fun hmark => mirrors_advance.mpr ?_) fun _ => mirrors_blankLines h
  · rw [Bool.and_eq_true, Bool.and_eq_true, beq_iff_eq, beq_iff_eq, beq_iff_eq]
    exact and_congr_left fun hmark => (h.cursors.index_eq_zero_iff hmark).symm
  · simp only [Bool.and_eq_true, beq_iff_eq] at hmark
    have hone := h.cursors.forward_char hmark.2 (by decide)
    exact mirrors_blankLines (h.move (before_forward c 1) hone)

/-- A round of reading: it leaves twin contexts behind, or ends both streams. -/
lemma mirrors_read (h : Twins w s x y c d) :
    x.read.Mirrors y.read c d fun r r' c' d' =>
      Abreast (fun x y => Twins w s x y c' d') (fun x y => Twins w s x y c' d') r r' := by
  refine mirrors_bind ((mirrors_skipBlanks h).mono ?_)
  rintro x₁ y₁ c₁ d₁ ⟨h₁, hbreak⟩
  refine (stays_dropStale h₁).bind fun x₂ y₂ h₂ => mirrors_column.mpr (mirrors_here.mpr ?_)
  have h₃ := h₂.unwind c₁.mark.column
  rw [h₂.cursors.column_eq]
  refine mirrors_peek.mpr ?_
  rw [h₂.cursors.peek_zero]
  cases hc : c₁.peek 0 with
  | none =>
      refine mirrors_bind (Mirrors.mono (moves_readEnd h₃) fun x₄ y₄ c₄ d₄ h₄ => ?_)
      exact mirrors_pure.mpr (.done h₄)
  | some ch =>
      have hch : isBreak ch = false := by simpa [hc] using hbreak
      have hn : ch ≠ '\n' := by rintro rfl; cases hch
      rw [Option.map_some, Spelling.first_of_ne hn]
      refine mirrors_bind (Mirrors.mono (moves_readAt h₃ hc hch) fun x₄ y₄ c₄ d₄ h₄ => ?_)
      exact (stays_dropStale h₄).bind fun x₅ y₅ h₅ => mirrors_pure.mpr (.yield h₅)

end Context

/-- All characters of a text are acceptable, if there is no first one that is not. -/
lemma firstUnacceptable?_eq_none_iff {s : List Char} :
    firstUnacceptable? s = none ↔ ∀ c ∈ s, isAcceptable c = true := by
  rw [firstUnacceptable?, List.find?_eq_none]
  constructor
  · intro h c hc
    obtain ⟨i, hi⟩ := List.getElem?_of_mem hc
    simpa using h (c, i) (List.mem_zipIdx_iff_getElem?.mpr hi)
  · intro h p hp
    simpa using h p.1 (List.mem_of_getElem? (List.mem_zipIdx_iff_getElem?.mp hp))

/-- What a spelling adds is acceptable. -/
lemma isAcceptable_text {w : Spelling} {s : List Char} (h : ∀ c ∈ s, isAcceptable c = true) :
    ∀ c ∈ w.text s, isAcceptable c = true := by
  intro c hc
  rw [Spelling.text, List.mem_append] at hc
  rcases hc with hc | hc
  · rw [Spelling.front] at hc
    split at hc
    · rw [List.mem_singleton.mp hc]
      decide
    · cases hc
  · by_cases hr : c = '\r'
    · rw [hr]
      decide
    · exact h c (Spelling.mem_of_mem_body hc hr)

/-- In front of a byte order mark reading begins behind it. -/
lemma Context.run_read_mark (x : Context) (t : List Char) :
    x.read.run ⟨'\ufeff' :: t, Mark.start⟩ = x.read.run ⟨t, ⟨1, 0, 0⟩⟩ := rfl

/-- Reading a spelled text begins behind the byte order mark that is put in front of it. -/
lemma Context.run_iterate_text (w : Spelling) (s : List Char) :
    (Scan.iterate read start).run (Cursor.ofText (w.text s)) =
      (Scan.rounds read (w.text s) start).run ⟨w.body s, ⟨w.front.length, 0, 0⟩⟩ := by
  rw [Spelling.text, Spelling.front]
  split
  · show (Scan.bind (read start) _).run ⟨'\ufeff' :: w.body s, Mark.start⟩ =
      (Scan.bind (read start) _).run ⟨w.body s, ⟨1, 0, 0⟩⟩
    dsimp only [Scan.bind]
    rw [run_read_mark]
  · rfl

/-- Reading begins at twin cursors, behind a byte order mark that is put in front of the text. -/
lemma Context.twins_start {w : Spelling} {s : List Char} (hs : w.Suits s) :
    Context.Twins w s start start (Cursor.ofText s)
      ⟨w.body s, ⟨w.front.length, 0, 0⟩⟩ where
  cursors := {
    suits := hs
    reached := Cursor.before_refl _
    rest := rfl
    mark := by simp [Cursor.ofText, Mark.spelled, Mark.start] }
  eq := rfl
  ne_nil := by simp [start]
  slot_pos := by simp [start]
  passed := by simp [start]

/-- The rounds of reading end together, with twin contexts. -/
lemma Context.mirrors_rounds_read {w : Spelling} {s : List Char} (hs : w.Suits s)
    (bound : List Char) (hbound : s.length ≤ bound.length) :
    (Scan.rounds read s start).Mirrors (Scan.rounds read bound start) (Cursor.ofText s)
      ⟨w.body s, ⟨w.front.length, 0, 0⟩⟩ fun x y c d => Twins w s x y c d := by
  refine Scan.mirrors_rounds (I := fun x y c d => Twins w s x y c d ∧ x.Laid 0 c) ?_ s bound start
    start _ _ ⟨twins_start hs, laid_start 0 s⟩ (Nat.le_refl _) hbound
  rintro x y c d ⟨h, hlaid⟩
  refine (mirrors_read h).mono_ensures (laid_read hlaid (.inl (Nat.zero_le _))) ?_
  rintro _ _ c' d' hround (hdone | hyield)
  · exact .done hdone
  · exact .yield ⟨⟨hyield, hround.1.1⟩, hround.2⟩

/-- **Units of a spelled text.** A text and its spelling have the same units, at the places that
correspond. -/
theorem scan_text {w : Spelling} {s : List Char} {ls : List Lexeme} (hs : w.Suits s)
    (h : Lexeme.scan s = .ok ls) :
    Lexeme.scan (w.text s) = .ok (Lexeme.moveAll (Mark.spelled w s) ls) := by
  rw [Lexeme.scan] at h ⊢
  split at h
  · cases h
  · next hnone =>
      have haccept := isAcceptable_text (w := w) (firstUnacceptable?_eq_none_iff.mp hnone)
      rw [firstUnacceptable?_eq_none_iff.mpr haccept]
      obtain ⟨⟨x, c⟩, hrun, rfl⟩ := Except.map_eq_ok_iff.mp h
      have hlen := Spelling.length_le_body (w := w) s
      obtain ⟨y, d, hy, htwins⟩ := Context.mirrors_rounds_read hs (w.text s)
        (by rw [Spelling.text, List.length_append]; omega) x c hrun
      refine Except.map_eq_ok_iff.mpr ⟨(y, d), ?_, ?_⟩
      · rw [← hy]
        exact Context.run_iterate_text w s
      · rw [htwins.eq]
        simp [Context.spelled]

end YamlNavigator.Yaml
