import Mathlib.Data.List.InsertIdx
import YamlNavigator.Proofs.Yaml.Unit
import YamlNavigator.Yaml.Lexeme.Stream

/-!
The lexical units of a text stand in the order of the text.

* `InOrder`: units that follow one another without overlap;
* `Lexeme.IsSound`: a unit takes text or takes none, as its content asks;
* `Separates`: an offset that parts the units in front of a slot from those behind it;
* `Placed`: the units read up to a cursor, which begin behind a byte order mark;
* `Context.Laid`: the invariant of reading: the units are placed, and the mark of every pending key
  separates the units at its slot, so that a key may be put in there later;
* `ensures_readAt`: what the readers of all units ensure holds behind whatever unit is read;
* `laid_readAt`, `laid_read`: every round of reading keeps the invariant, and reads a character;
* `Lexeme.Cover`, `cover_of_scan`: the units of a whole text: in order, inside the text, and with
  the end of the stream as their last unit and nowhere else.
-/

namespace YamlNavigator.Yaml

/-! ### Units in order -/

/-- Each unit ends where the next one begins, or before. -/
def InOrder (ls : List Lexeme) : Prop :=
  ls.Pairwise fun l k => l.stop.index ≤ k.start.index

/-- Units that are points take no text, keys may take some, and all others take at least one
character. -/
def Lexeme.IsSound (l : Lexeme) : Prop :=
  if l.content.isPoint then l.stop = l.start
  else if l.content = .key then l.start.index ≤ l.stop.index
  else l.start.index < l.stop.index

lemma Lexeme.IsSound.start_le {l : Lexeme} (h : l.IsSound) : l.start.index ≤ l.stop.index := by
  rw [IsSound] at h
  split at h
  · exact Nat.le_of_eq (congrArg Mark.index h.symm)
  · split at h
    · exact h
    · exact Nat.le_of_lt h

/-- A unit that spans text is sound. -/
lemma Lexeme.Spans.isSound {l : Lexeme} {c d : Cursor} (h : l.Spans c d) : l.IsSound := by
  have hlt : l.start.index < l.stop.index := h.start_eq ▸ h.start_lt
  rw [IsSound, if_neg (by simp [h.not_point])]
  split
  · exact Nat.le_of_lt hlt
  · exact hlt

/-- A point at a mark is sound. -/
lemma Lexeme.isSound_point {content : Content} (h : content.isPoint = true) (m : Mark) :
    IsSound ⟨content, m, m⟩ := by
  rw [IsSound, if_pos h]

/-- A key without a question mark is sound. -/
lemma Lexeme.isSound_key (m : Mark) : IsSound ⟨.key, m, m⟩ := by
  simp [IsSound, Content.isPoint]

/-- An item put into a list has the items in front of its place before it and the others behind. -/
lemma insertIdx_eq_take_append {α : Type} (x : α) :
    ∀ {n : Nat} {ls : List α}, n ≤ ls.length → ls.insertIdx n x = ls.take n ++ x :: ls.drop n
  | 0, ls, _ => by simp
  | n + 1, [], h => absurd h (by simp)
  | n + 1, l :: ls, h => by
      rw [List.insertIdx_succ_cons, insertIdx_eq_take_append x (by simpa using h)]
      simp

/-- Putting an item into an array puts it into the list of its items. -/
lemma toList_insertIdxIfInBounds {α : Type} (xs : Array α) (n : Nat) (x : α) :
    (xs.insertIdxIfInBounds n x).toList = xs.toList.insertIdx n x := by
  have h := List.insertIdxIfInBounds_toArray xs.toList n x
  rw [Array.toArray_toList] at h
  rw [h]

/-- An offset that lies behind the units in front of a slot, of which there is at least one, and
before those from the slot on. -/
structure Separates (ls : List Lexeme) (slot offset : Nat) : Prop where
  slot_pos : 0 < slot
  slot_le : slot ≤ ls.length
  before : ∀ l ∈ ls.take slot, l.stop.index ≤ offset
  after : ∀ l ∈ ls.drop slot, offset ≤ l.start.index

namespace Separates

variable {ls : List Lexeme} {slot offset : Nat}

/-- A unit that begins behind the offset may be appended. -/
lemma append (h : Separates ls slot offset) {l : Lexeme} (hl : offset ≤ l.start.index) :
    Separates (ls ++ [l]) slot offset where
  slot_pos := h.slot_pos
  slot_le := Nat.le_trans h.slot_le (by simp)
  before k hk := by
    rw [List.take_append_of_le_length h.slot_le] at hk
    exact h.before k hk
  after k hk := by
    rw [List.drop_append_of_le_length h.slot_le, List.mem_append, List.mem_singleton] at hk
    rcases hk with hk | rfl
    · exact h.after k hk
    · exact hl

/-- A unit may be put in at the slot, or at a later slot behind a later offset. -/
lemma insert {slot' offset' : Nat} (h : Separates ls slot offset)
    (h' : Separates ls slot' offset') (hs : slot ≤ slot') (ho : offset ≤ offset') {l : Lexeme}
    (hl : l.start.index = offset') : Separates (ls.insertIdx slot' l) slot offset where
  slot_pos := h.slot_pos
  slot_le := by
    rw [List.length_insertIdx_of_le_length h'.slot_le]
    exact Nat.le_succ_of_le h.slot_le
  before k hk := by
    rw [insertIdx_eq_take_append l h'.slot_le, List.take_append_of_le_length
      (by simpa [h'.slot_le] using hs), List.take_take, Nat.min_eq_left hs] at hk
    exact h.before k hk
  after k hk := by
    rw [insertIdx_eq_take_append l h'.slot_le, List.drop_append_of_le_length
      (by simpa [h'.slot_le] using hs), List.mem_append, List.mem_cons] at hk
    rcases hk with hk | rfl | hk
    · refine h.after k ?_
      rw [List.drop_take] at hk
      exact List.mem_of_mem_take hk
    · exact hl ▸ ho
    · exact h.after k (List.drop_subset_drop_left ls hs hk)

end Separates

/-! ### The units up to a cursor -/

/-- Units that were read in front of a cursor: sound and in order, from the start of the stream on,
without its end, and with their text behind the offset `low`. -/
structure Placed (low : Nat) (ls : List Lexeme) (c : Cursor) : Prop where
  streamStart : ∃ l rest, ls = l :: rest ∧ l.content = .streamStart
  inOrder : InOrder ls
  isSound : ∀ l ∈ ls, l.IsSound
  not_streamEnd : ∀ l ∈ ls, l.content ≠ .streamEnd
  stop_le : ∀ l ∈ ls, l.stop.index ≤ c.mark.index
  low_le : ∀ l ∈ ls, l.isEmpty = false → low ≤ l.start.index

namespace Placed

variable {low : Nat} {ls : List Lexeme} {c d : Cursor}

lemma mono (h : Placed low ls c) (hcd : c.Before d) : Placed low ls d :=
  { h with stop_le := fun l hl => Nat.le_trans (h.stop_le l hl) (Cursor.index_le_of_before hcd) }

/-- A unit between the cursor and a later one may be appended. -/
lemma append (h : Placed low ls c) (hcd : c.Before d) {l : Lexeme} (hs : l.IsSound)
    (he : l.content ≠ .streamEnd) (hstart : c.mark.index ≤ l.start.index)
    (hstop : l.stop.index ≤ d.mark.index) (hlow : l.isEmpty = false → low ≤ c.mark.index) :
    Placed low (ls ++ [l]) d where
  streamStart := by
    obtain ⟨k, rest, rfl, hk⟩ := h.streamStart
    exact ⟨k, rest ++ [l], rfl, hk⟩
  inOrder := by
    refine List.pairwise_append.mpr ⟨h.inOrder, List.pairwise_singleton _ _, fun a ha b hb => ?_⟩
    rw [List.mem_singleton.mp hb]
    exact Nat.le_trans (h.stop_le a ha) hstart
  isSound k hk := by
    rcases List.mem_append.mp hk with hk | hk
    · exact h.isSound k hk
    · exact List.mem_singleton.mp hk ▸ hs
  not_streamEnd k hk := by
    rcases List.mem_append.mp hk with hk | hk
    · exact h.not_streamEnd k hk
    · exact List.mem_singleton.mp hk ▸ he
  stop_le k hk := by
    rcases List.mem_append.mp hk with hk | hk
    · exact (h.mono hcd).stop_le k hk
    · exact List.mem_singleton.mp hk ▸ hstop
  low_le k hk := by
    rcases List.mem_append.mp hk with hk | hk
    · exact h.low_le k hk
    · rw [List.mem_singleton.mp hk]
      exact fun hne => Nat.le_trans (hlow hne) hstart

/-- A unit without text may be put in at a slot that its mark separates. -/
lemma insert (h : Placed low ls c) {slot : Nat} {m : Mark} (hsep : Separates ls slot m.index)
    (hm : m.index ≤ c.mark.index) {content : Content} (hs : Lexeme.IsSound ⟨content, m, m⟩)
    (he : content ≠ .streamEnd) : Placed low (ls.insertIdx slot ⟨content, m, m⟩) c := by
  have hmem : ∀ {k : Lexeme}, k ∈ ls.insertIdx slot ⟨content, m, m⟩ →
      k = ⟨content, m, m⟩ ∨ k ∈ ls :=
    fun hk => (List.mem_insertIdx hsep.slot_le).mp hk
  constructor
  · obtain ⟨k, rest, rfl, hk⟩ := h.streamStart
    obtain ⟨n, rfl⟩ := Nat.exists_eq_succ_of_ne_zero (Nat.pos_iff_ne_zero.mp hsep.slot_pos)
    exact ⟨k, _, List.insertIdx_succ_cons, hk⟩
  · have hord := h.inOrder
    rw [InOrder, ← List.take_append_drop slot ls, List.pairwise_append] at hord
    rw [InOrder, insertIdx_eq_take_append _ hsep.slot_le, List.pairwise_append,
      List.pairwise_cons]
    refine ⟨hord.1, ⟨hsep.after, hord.2.1⟩, fun a ha b hb => ?_⟩
    rcases List.mem_cons.mp hb with rfl | hb
    · exact hsep.before a ha
    · exact hord.2.2 a ha b hb
  · intro k hk
    rcases hmem hk with rfl | hk
    · exact hs
    · exact h.isSound k hk
  · intro k hk
    rcases hmem hk with rfl | hk
    · exact he
    · exact h.not_streamEnd k hk
  · intro k hk
    rcases hmem hk with rfl | hk
    · exact hm
    · exact h.stop_le k hk
  · intro k hk hne
    rcases hmem hk with rfl | hk
    · simp [Lexeme.isEmpty] at hne
    · exact h.low_le k hk hne

end Placed

/-! ### The invariant of reading -/

namespace Context

/-- The units that were read are placed in front of the cursor, and every pending key stands at a
mark that separates them at its slot. Of two pending keys the one at the lower flow level is the
earlier one. -/
structure Laid (low : Nat) (x : Context) (c : Cursor) : Prop where
  placed : Placed low x.lexemes.toList c
  separates : ∀ p ∈ x.pending, Separates x.lexemes.toList p.2.slot p.2.mark.index
  mark_le : ∀ p ∈ x.pending, p.2.mark.index ≤ c.mark.index
  level_le : ∀ p ∈ x.pending, p.1 ≤ x.flowLevel
  nested : ∀ p ∈ x.pending, ∀ q ∈ x.pending, p.1 < q.1 →
    p.2.slot ≤ q.2.slot ∧ p.2.mark.index ≤ q.2.mark.index

variable {low : Nat} {x y : Context} {c d : Cursor}

namespace Laid

lemma mono (h : x.Laid low c) (hcd : c.Before d) : x.Laid low d :=
  { h with
    placed := h.placed.mono hcd
    mark_le := fun p hp => Nat.le_trans (h.mark_le p hp) (Cursor.index_le_of_before hcd) }

/-- The invariant says nothing about indentation and where keys are allowed, and pending keys may be
given up as long as the others fit the flow level. -/
lemma of_subset (h : x.Laid low c) (hl : y.lexemes = x.lexemes)
    (hp : ∀ p ∈ y.pending, p ∈ x.pending) (hlevel : ∀ p ∈ y.pending, p.1 ≤ y.flowLevel) :
    y.Laid low c where
  placed := hl ▸ h.placed
  separates p hm := hl ▸ h.separates p (hp p hm)
  mark_le p hm := h.mark_le p (hp p hm)
  level_le := hlevel
  nested p hm q hq := h.nested p (hp p hm) q (hp q hq)

/-- A unit between the cursor and a later one may be pushed. -/
lemma push (h : x.Laid low c) (hcd : c.Before d) {l : Lexeme} (hs : l.IsSound)
    (he : l.content ≠ .streamEnd) (hstart : c.mark.index ≤ l.start.index)
    (hstop : l.stop.index ≤ d.mark.index) (hlow : l.isEmpty = false → low ≤ c.mark.index) :
    (x.push l).Laid low d := by
  have htoList : (x.push l).lexemes.toList = x.lexemes.toList ++ [l] := Array.toList_push
  constructor
  · rw [htoList]
    exact h.placed.append hcd hs he hstart hstop hlow
  · intro p hp
    rw [htoList]
    exact (h.separates p hp).append (Nat.le_trans (h.mark_le p hp) hstart)
  · exact (h.mono hcd).mark_le
  · exact h.level_le
  · exact h.nested

/-- A unit that spans text may be pushed. -/
lemma push_spans (h : x.Laid low c) (hcd : c.Before d) {l : Lexeme} (hl : l.Spans c d)
    (hlow : low ≤ c.mark.index) : (x.push l).Laid low d := by
  refine h.push hcd hl.isSound ?_ (Nat.le_of_eq ?_) hl.stop_le fun _ => hlow
  · intro he
    simpa [he, Content.isPoint] using hl.not_point
  · rw [hl.start_eq]

/-- A point at the cursor may be pushed. -/
lemma pushEmpty (h : x.Laid low c) {content : Content} (hp : content.isPoint = true)
    (he : content ≠ .streamEnd) : (x.pushEmpty content c.mark).Laid low c :=
  h.push (Cursor.before_refl c) (Lexeme.isSound_point hp _) he (Nat.le_refl _) (Nat.le_refl _)
    (by simp [Lexeme.isEmpty])

/-- Block collections may be ended at the cursor. -/
lemma unwind (h : x.Laid low c) (column : Int) : (x.unwind column c.mark).Laid low c := by
  have key : ∀ n, ({ x with
      lexemes := x.lexemes ++ Array.replicate n ⟨.blockEnd, c.mark, c.mark⟩ } : Context).Laid
        low c := by
    intro n
    induction n with
    | zero => simpa using h
    | succ n ih =>
        have hpush := ih.pushEmpty (show Content.blockEnd.isPoint = true from rfl) (by simp)
        simpa [Context.pushEmpty, Context.push, Array.replicate_succ] using hpush
  rw [Context.unwind]
  split
  · exact h
  · exact (key (closing column x.indents).2).of_subset rfl (fun _ hp => hp) h.level_le

/-- A block collection may be begun at the cursor. -/
lemma openBlock (h : x.Laid low c) {content : Content} (hp : content.isPoint = true)
    (he : content ≠ .streamEnd) : (x.openBlock content c.mark).Laid low c := by
  rw [Context.openBlock]
  split
  · exact (h.of_subset (y := { x with indents := c.mark.column :: x.indents }) rfl
      (fun _ hp => hp) h.level_le).pushEmpty hp he
  · exact h

/-- A pending key that is given up leaves those at lower flow levels. -/
lemma forgetPending (h : x.Laid low c) :
    x.forgetPending.Laid low c ∧ ∀ p ∈ x.forgetPending.pending, p.1 < x.flowLevel := by
  have hmem : ∀ p ∈ x.forgetPending.pending, p ∈ x.pending ∧ p.1 ≠ x.flowLevel := by
    intro p hp
    simpa [Context.forgetPending] using hp
  refine ⟨h.of_subset rfl (fun p hp => (hmem p hp).1) fun p hp => h.level_le p (hmem p hp).1,
    fun p hp => ?_⟩
  have hle := h.level_le p (hmem p hp).1
  have hne := (hmem p hp).2
  omega

/-- The key that is pending at the current flow level may be put in front of its units, alone or
with the start of a block mapping. -/
lemma insertKey (h : x.Laid low c) {key : PendingKey} (hkey : x.pendingHere? = some key) :
    (x.forgetPending.insertKey key).Laid low c := by
  obtain ⟨hx, hlt⟩ := h.forgetPending
  obtain ⟨p, hfind, rfl⟩ := Option.map_eq_some_iff.mp hkey
  have hmem := List.mem_of_find?_eq_some hfind
  have hlevel : p.1 = x.flowLevel := by simpa using List.find?_some hfind
  -- every other pending key stands in front of this one
  have hfront : ∀ q ∈ x.forgetPending.pending,
      q.2.slot ≤ p.2.slot ∧ q.2.mark.index ≤ p.2.mark.index := by
    intro q hq
    refine h.nested q ?_ p hmem (hlevel ▸ hlt q hq)
    exact (List.mem_filter.mp hq).1
  have hstep : ∀ (ls : Array Lexeme),
      ({ x.forgetPending with lexemes := ls } : Context).Laid low c →
      Separates ls.toList p.2.slot p.2.mark.index →
      ∀ content : Content, Lexeme.IsSound ⟨content, p.2.mark, p.2.mark⟩ → content ≠ .streamEnd →
      ({ x.forgetPending with
          lexemes := ls.insertIdxIfInBounds p.2.slot ⟨content, p.2.mark, p.2.mark⟩ } :
        Context).Laid low c ∧
      Separates (ls.insertIdxIfInBounds p.2.slot ⟨content, p.2.mark, p.2.mark⟩).toList p.2.slot
        p.2.mark.index := by
    intro ls hls hsep content hs he
    refine ⟨⟨?_, ?_, hls.mark_le, hls.level_le, hls.nested⟩, ?_⟩
    · simp only [toList_insertIdxIfInBounds]
      exact hls.placed.insert hsep (h.mark_le p hmem) hs he
    · intro q hq
      simp only [toList_insertIdxIfInBounds]
      exact (hls.separates q hq).insert hsep (hfront q hq).1 (hfront q hq).2 rfl
    · rw [toList_insertIdxIfInBounds]
      exact hsep.insert hsep (Nat.le_refl _) (Nat.le_refl _) rfl
  have hone := hstep x.lexemes hx (h.separates p hmem) .key (Lexeme.isSound_key _) (by simp)
  have htwo := hstep _ hone.1 hone.2 .blockMappingStart (Lexeme.isSound_point rfl _) (by simp)
  rw [Context.insertKey]
  split
  · exact htwo.1.of_subset rfl (fun _ hp => hp) htwo.1.level_le
  · exact hone.1

end Laid

/-! ### Operations -/

open Scan

lemma ensures_dropPending {Q : Context → Cursor → Prop} (h : Q x.forgetPending c) :
    x.dropPending.Ensures c Q := by
  rw [dropPending]
  exact ensures_unless fun _ => ensures_pure.mpr h

/-- Stale keys are given up; the cursor stays. -/
lemma laid_dropStale (h : x.Laid low c) :
    x.dropStale.Ensures c fun y d => d = c ∧ y.Laid low c := by
  rw [dropStale, ensures_bind, ensures_here]
  refine ensures_unless fun _ => ensures_pure.mpr ⟨rfl, ?_⟩
  exact h.of_subset rfl (fun p hp => (List.mem_filter.mp hp).1)
    fun p hp => h.level_le p (List.mem_filter.mp hp).1

/-- The cursor is a place where a key may begin: the units read so far stand in front of it. -/
lemma laid_savePending (h : x.Laid low c) :
    x.savePending.Ensures c fun y d => d = c ∧ y.Laid low c ∧ y.flowLevel = x.flowLevel := by
  rw [savePending]
  split
  · exact ensures_pure.mpr ⟨rfl, h, rfl⟩
  · rw [ensures_bind, ensures_here]
    dsimp only
    rw [ensures_bind]
    refine ensures_dropPending (ensures_pure.mpr ⟨rfl, ?_, rfl⟩)
    obtain ⟨hx, hlt⟩ := h.forgetPending
    have hmem : ∀ {p : Int × PendingKey} {k : Int × PendingKey},
        p ∈ x.forgetPending.pending ++ [k] → p ∈ x.forgetPending.pending ∨ p = k := by
      intro p k hp
      simpa using hp
    refine ⟨hx.placed, fun p hp => ?_, fun p hp => ?_, fun p hp => ?_, fun p hp q hq hpq => ?_⟩
    · rcases hmem hp with hp | rfl
      · exact hx.separates p hp
      · obtain ⟨l, rest, hstart, -⟩ := hx.placed.streamStart
        have hpos : 0 < x.forgetPending.lexemes.size := by
          rw [← Array.length_toList, hstart]
          exact Nat.succ_pos _
        refine ⟨hpos, Nat.le_of_eq Array.length_toList.symm, fun l hl => ?_, fun l hl => ?_⟩
        · exact hx.placed.stop_le l (List.mem_of_mem_take hl)
        · dsimp only at hl
          rw [← Array.length_toList, List.drop_length] at hl
          exact absurd hl List.not_mem_nil
    · rcases hmem hp with hp | rfl
      · exact hx.mark_le p hp
      · exact Nat.le_refl _
    · rcases hmem hp with hp | rfl
      · exact hx.level_le p hp
      · exact Int.le_refl _
    · rcases hmem hp with hp | rfl
      · rcases hmem hq with hq | rfl
        · exact hx.nested p hp q hq hpq
        · exact ⟨by simpa using (hx.separates p hp).slot_le, hx.mark_le p hp⟩
      · -- no key is pending above the current flow level
        rcases hmem hq with hq | rfl
        · exact absurd hpq (Int.not_lt.mpr (Int.le_of_lt (hlt q hq)))
        · exact absurd hpq (Int.lt_irrefl _)

/-- Blanks in front of a unit are skipped, and with them a byte order mark at the beginning. -/
lemma laid_skipBlanks (h : x.Laid low c)
    (hlow : low ≤ c.mark.index ∨ low ≤ 1 ∧ c.mark.index = 0 ∧ c.peek 0 = some '\ufeff') :
    x.skipBlanks.Ensures c fun y d => y.Laid low d ∧ low ≤ d.mark.index := by
  -- a round leaves the units where they are
  obtain ⟨step, hskip, hstep⟩ : ∃ step : Context → Scan (ForInStep Context),
      x.skipBlanks = (do
        if (← here).index == 0 && (← nextIs '\ufeff') then advance 1
        iterate step x) ∧
      ∀ y e, y.Laid low e ∧ low ≤ e.mark.index →
        (step y).Ensures e fun r f => r.value.Laid low f ∧ low ≤ f.mark.index := by
    refine ⟨_, rfl, fun y e hy => ?_⟩
    rw [ensures_bind]
    refine .of_before fun _ f hf => ?_
    rw [ensures_bind, ensures_nextIs]
    refine ensures_optional fun g hg => ?_
    rw [ensures_bind]
    refine .of_before fun b? k hk => ?_
    have hbefore : e.Before k := (hf.trans hg).trans hk
    have hy' : y.Laid low k ∧ low ≤ k.mark.index :=
      ⟨hy.1.mono hbefore, Nat.le_trans hy.2 (Cursor.index_le_of_before hbefore)⟩
    cases b? with
    | none => exact ensures_pure.mpr hy'
    | some _ =>
        refine ensures_pure.mpr ⟨?_, hy'.2⟩
        dsimp only [ForInStep.value]
        split
        · exact hy'.1
        · exact hy'.1.of_subset rfl (fun _ hp => hp) hy'.1.level_le
  have hloop : ∀ d : Cursor, c.Before d → low ≤ d.mark.index →
      (iterate step x).Ensures d fun y e => y.Laid low e ∧ low ≤ e.mark.index :=
    fun d hd hle => ensures_iterate_of_invariant ⟨h.mono hd, hle⟩ hstep
  rw [hskip, ensures_bind, ensures_here, ensures_bind, ensures_nextIs]
  dsimp only
  split
  · next hmark =>
      rw [ensures_bind, ensures_advance]
      refine hloop _ (Cursor.before_forward c 1) ?_
      rcases hlow with hle | ⟨hle, -, hpeek⟩
      · exact Nat.le_trans hle (Cursor.index_le_of_before (Cursor.before_forward c 1))
      · have hne : c.rest ≠ [] := by
          intro hnil
          simp [Cursor.peek, hnil] at hpeek
        exact Nat.le_trans hle
          (Nat.succ_le_of_lt (Nat.lt_of_le_of_lt (Nat.zero_le _)
            (Cursor.index_lt_forward hne Nat.one_pos)))
  · next hmark =>
      refine hloop c (Cursor.before_refl c) ?_
      rcases hlow with hle | ⟨-, hzero, hpeek⟩
      · exact hle
      · simp [hzero, hpeek] at hmark

/-! ### Reading a unit -/

/-- What reading a unit at `c` leaves behind: the invariant, at a cursor that is further on. -/
def Advanced (low : Nat) (c : Cursor) (y : Context) (d : Cursor) : Prop :=
  y.Laid low d ∧ c.mark.index < d.mark.index

lemma laid_readMark (h : x.Laid low c) (hlow : low ≤ c.mark.index) (hc : c.rest ≠ [])
    {content : Content} (hp : content.isPoint = false) {n : Nat} (hn : 0 < n) :
    (x.readMark content n).Ensures c (Advanced low c) := by
  have hlt := Cursor.index_lt_forward hc hn
  rw [readMark, ensures_bind, ensures_here, ensures_bind, ensures_advance, ensures_bind,
    ensures_here, ensures_pure]
  exact ⟨h.push_spans (Cursor.before_forward c n) ⟨rfl, hlt, Nat.le_refl _, hp⟩ hlow, hlt⟩

/-- Between documents all block collections end and no key stays pending. -/
lemma laid_closeDocument (h : x.Laid low c) :
    x.closeDocument.Ensures c fun y d => d = c ∧ y.Laid low c := by
  rw [closeDocument, ensures_bind, ensures_here]
  dsimp only
  rw [ensures_bind]
  refine ensures_dropPending (ensures_pure.mpr ⟨rfl, ?_⟩)
  have hx := (h.unwind (-1)).forgetPending.1
  exact hx.of_subset rfl (fun _ hp => hp) hx.level_le

lemma laid_readDirective (h : x.Laid low c) (hlow : low ≤ c.mark.index) (hc : c.rest ≠ []) :
    x.readDirective.Ensures c (Advanced low c) := by
  rw [readDirective, ensures_bind]
  refine (laid_closeDocument h).mono fun y d hy => ?_
  obtain ⟨rfl, hy⟩ := hy
  rw [ensures_bind]
  refine (spans_directiveLexeme hc).mono_before fun l e he hl => ensures_pure.mpr ?_
  exact ⟨hy.push_spans he hl hlow, Nat.lt_of_lt_of_le hl.start_lt hl.stop_le⟩

lemma laid_readSeparator (h : x.Laid low c) (hlow : low ≤ c.mark.index) (hc : c.rest ≠ [])
    {content : Content} (hp : content.isPoint = false) :
    (x.readSeparator content).Ensures c (Advanced low c) := by
  rw [readSeparator, ensures_bind]
  refine (laid_closeDocument h).mono fun y d hy => ?_
  obtain ⟨rfl, hy⟩ := hy
  exact laid_readMark hy hlow hc hp (by omega)

lemma laid_readFlowStart (h : x.Laid low c) (hlow : low ≤ c.mark.index) (hc : c.rest ≠ [])
    {content : Content} (hp : content.isPoint = false) :
    (x.readFlowStart content).Ensures c (Advanced low c) := by
  rw [readFlowStart, ensures_bind]
  refine (laid_savePending h).mono fun y d hy => ?_
  obtain ⟨rfl, hy, -⟩ := hy
  refine laid_readMark ?_ hlow hc hp Nat.one_pos
  refine hy.of_subset rfl (fun _ hp => hp) fun p hp => ?_
  exact Int.le_trans (hy.level_le p hp) (Int.le_of_lt (Int.lt_succ _))

lemma laid_readFlowEnd (h : x.Laid low c) (hlow : low ≤ c.mark.index) (hc : c.rest ≠ [])
    {content : Content} (hp : content.isPoint = false) :
    (x.readFlowEnd content).Ensures c (Advanced low c) := by
  obtain ⟨hx, hlt⟩ := h.forgetPending
  rw [readFlowEnd, ensures_bind]
  refine ensures_dropPending ?_
  refine laid_readMark ?_ hlow hc hp Nat.one_pos
  exact hx.of_subset rfl (fun _ hp => hp) fun p hp => Int.le_sub_one_of_lt (hlt p hp)

lemma laid_readFlowEntry (h : x.Laid low c) (hlow : low ≤ c.mark.index) (hc : c.rest ≠ []) :
    x.readFlowEntry.Ensures c (Advanced low c) := by
  have hx := h.forgetPending.1
  rw [readFlowEntry, ensures_bind]
  refine ensures_dropPending ?_
  refine laid_readMark ?_ hlow hc rfl Nat.one_pos
  exact hx.of_subset rfl (fun _ hp => hp) hx.level_le

lemma laid_openBlockHere (h : x.Laid low c) {content : Content} (hp : content.isPoint = true)
    (he : content ≠ .streamEnd) (refusal : Problem) :
    (x.openBlockHere content refusal).Ensures c fun y d => d = c ∧ y.Laid low c := by
  rw [openBlockHere]
  split
  · exact ensures_pure.mpr ⟨rfl, h⟩
  · refine ensures_unless fun _ => ?_
    rw [ensures_bind, ensures_here, ensures_pure]
    exact ⟨rfl, h.openBlock hp he⟩

/-- An indicator that may begin a block collection. -/
private lemma laid_readIndicator (h : x.Laid low c) (hlow : low ≤ c.mark.index) (hc : c.rest ≠ [])
    {opening content : Content} (ho : opening.isPoint = true) (he : opening ≠ .streamEnd)
    (hp : content.isPoint = false) (refusal : Problem) (allowed : Context → Bool) :
    Ensures
      (do
        let x ← x.openBlockHere opening refusal
        let x ← x.dropPending
        { x with keyAllowed := allowed x }.readMark content 1)
      c (Advanced low c) := by
  rw [ensures_bind]
  refine (laid_openBlockHere h ho he refusal).mono fun y d hy => ?_
  obtain ⟨rfl, hy⟩ := hy
  rw [ensures_bind]
  refine ensures_dropPending ?_
  have hx := hy.forgetPending.1
  refine laid_readMark ?_ hlow hc hp Nat.one_pos
  exact hx.of_subset rfl (fun _ hp => hp) hx.level_le

lemma laid_readBlockEntry (h : x.Laid low c) (hlow : low ≤ c.mark.index) (hc : c.rest ≠ []) :
    x.readBlockEntry.Ensures c (Advanced low c) :=
  laid_readIndicator h hlow hc rfl (by simp) rfl _ fun _ => true

lemma laid_readKey (h : x.Laid low c) (hlow : low ≤ c.mark.index) (hc : c.rest ≠ []) :
    x.readKey.Ensures c (Advanced low c) :=
  laid_readIndicator h hlow hc rfl (by simp) rfl _ fun x => !x.inFlow

lemma laid_readValue (h : x.Laid low c) (hlow : low ≤ c.mark.index) (hc : c.rest ≠ []) :
    x.readValue.Ensures c (Advanced low c) := by
  rw [readValue]
  split
  · next key hkey =>
      have hx := h.insertKey hkey
      refine laid_readMark ?_ hlow hc rfl Nat.one_pos
      exact hx.of_subset rfl (fun _ hp => hp) hx.level_le
  · exact laid_readIndicator h hlow hc rfl (by simp) rfl _ fun x => !x.inFlow

lemma laid_readNode (h : x.Laid low c) (hlow : low ≤ c.mark.index) {unit : Scan Lexeme}
    (hunit : unit.Ensures c fun l d => l.Spans c d) :
    (x.readNode unit).Ensures c (Advanced low c) := by
  rw [readNode, ensures_bind]
  refine (laid_savePending h).mono fun y d hy => ?_
  obtain ⟨rfl, hy, -⟩ := hy
  rw [ensures_bind]
  refine hunit.mono_before fun l e he hl => ensures_pure.mpr ?_
  refine ⟨Laid.push_spans ?_ he hl hlow, Nat.lt_of_lt_of_le hl.start_lt hl.stop_le⟩
  exact hy.of_subset rfl (fun _ hp => hp) hy.level_le

lemma laid_readBlock (h : x.Laid low c) (hlow : low ≤ c.mark.index) (hc : c.rest ≠ [])
    {folded : Bool} : (x.readBlock folded).Ensures c (Advanced low c) := by
  have hx := h.forgetPending.1
  rw [readBlock, ensures_bind]
  refine ensures_dropPending ?_
  rw [ensures_bind]
  refine (spans_blockLexeme hc).mono_before fun l e he hl => ensures_pure.mpr ?_
  refine ⟨Laid.push_spans ?_ he hl hlow, Nat.lt_of_lt_of_le hl.start_lt hl.stop_le⟩
  exact hx.of_subset rfl (fun _ hp => hp) hx.level_le

lemma laid_readPlain (h : x.Laid low c) (hlow : low ≤ c.mark.index) {ch : Char} {s : List Char}
    (hc : c.rest = ch :: s) (hs : startsPlain x.inFlow ch s.head? = true) :
    x.readPlain.Ensures c (Advanced low c) := by
  rw [readPlain, ensures_bind]
  refine (laid_savePending h).mono fun y d hy => ?_
  obtain ⟨rfl, hy, hlevel⟩ := hy
  have hflow : y.inFlow = x.inFlow := by rw [inFlow, hlevel, inFlow]
  rw [ensures_bind]
  refine (spans_plainLexeme hc (hflow ▸ hs)).mono_before fun p e he hl => ?_
  obtain ⟨l, broken⟩ := p
  refine ensures_pure.mpr ⟨Laid.push_spans ?_ he hl hlow, Nat.lt_of_lt_of_le hl.start_lt hl.stop_le⟩
  exact hy.of_subset rfl (fun _ hp => hp) hy.level_le

/-- Whatever unit begins at the cursor, what the readers of all units ensure holds behind it. -/
lemma ensures_readAt {Q : Context → Cursor → Prop} {ch : Char} {s : List Char}
    (hc : c.rest = ch :: s) (directive : x.readDirective.Ensures c Q)
    (separator : ∀ content : Content, content.isIndicator = true →
      (x.readSeparator content).Ensures c Q)
    (flowStart : ∀ content : Content, content.isIndicator = true →
      (x.readFlowStart content).Ensures c Q)
    (flowEnd : ∀ content : Content, content.isIndicator = true →
      (x.readFlowEnd content).Ensures c Q)
    (flowEntry : x.readFlowEntry.Ensures c Q) (blockEntry : x.readBlockEntry.Ensures c Q)
    (key : x.readKey.Ensures c Q) (value : x.readValue.Ensures c Q)
    (node : ∀ unit : Scan Lexeme, (unit.Ensures c fun l d => l.Fills c d) →
      (x.readNode unit).Ensures c Q)
    (block : ∀ folded, (x.readBlock folded).Ensures c Q)
    (plain : startsPlain x.inFlow ch s.head? = true → x.readPlain.Ensures c Q) :
    (x.readAt ch).Ensures c Q := by
  have hne : c.rest ≠ [] := by simp [hc]
  have hafter : c.peek 1 = s.head? := by simp [Cursor.peek, hc, List.head?_eq_getElem?]
  rw [readAt, ensures_bind, ensures_column, ensures_bind, ensures_peek]
  refine ensures_ite (fun _ => directive) fun _ => ?_
  refine ensures_bind.mpr (ensures_atSeparator fun _ => ?_)
  refine ensures_ite (fun _ => separator _ rfl) fun _ => ?_
  refine ensures_bind.mpr (ensures_atSeparator fun _ => ?_)
  refine ensures_ite (fun _ => separator _ rfl) fun _ => ?_
  refine ensures_ite (fun _ => flowStart _ rfl) fun _ => ?_
  refine ensures_ite (fun _ => flowStart _ rfl) fun _ => ?_
  refine ensures_ite (fun _ => flowEnd _ rfl) fun _ => ?_
  refine ensures_ite (fun _ => flowEnd _ rfl) fun _ => ?_
  refine ensures_ite (fun _ => flowEntry) fun _ => ?_
  refine ensures_ite (fun _ => blockEntry) fun _ => ?_
  refine ensures_ite (fun _ => key) fun _ => ?_
  refine ensures_ite (fun _ => value) fun _ => ?_
  refine ensures_ite (fun _ => node _ (fills_namedLexeme hne (fun _ => rfl) (by simp))) fun _ => ?_
  refine ensures_ite (fun _ => node _ (fills_namedLexeme hne (fun _ => rfl) (by simp))) fun _ => ?_
  refine ensures_ite (fun _ => node _ (fills_tagLexeme hne)) fun _ => ?_
  refine ensures_ite (fun _ => block _) fun _ => ?_
  refine ensures_ite (fun _ => block _) fun _ => ?_
  refine ensures_ite (fun _ => node _ (fills_quotedLexeme hne)) fun _ => ?_
  refine ensures_ite (fun _ => node _ (fills_quotedLexeme hne)) fun _ => ?_
  exact ensures_ite (fun hs => plain (hafter ▸ hs)) fun _ => ensures_fail

/-- Whatever unit begins at the cursor, reading it keeps the invariant and moves the cursor. -/
lemma laid_readAt (h : x.Laid low c) (hlow : low ≤ c.mark.index) {ch : Char} {s : List Char}
    (hc : c.rest = ch :: s) : (x.readAt ch).Ensures c (Advanced low c) := by
  have hne : c.rest ≠ [] := by simp [hc]
  exact ensures_readAt hc (laid_readDirective h hlow hne)
    (fun _ hi => laid_readSeparator h hlow hne (Content.isPoint_of_isIndicator hi))
    (fun _ hi => laid_readFlowStart h hlow hne (Content.isPoint_of_isIndicator hi))
    (fun _ hi => laid_readFlowEnd h hlow hne (Content.isPoint_of_isIndicator hi))
    (laid_readFlowEntry h hlow hne) (laid_readBlockEntry h hlow hne) (laid_readKey h hlow hne)
    (laid_readValue h hlow hne)
    (fun _ hunit => laid_readNode h hlow (hunit.mono fun _ _ hl => hl.toSpans))
    (fun _ => laid_readBlock h hlow hne) (laid_readPlain h hlow hc)

/-- The end of the text: all units are placed, and the end of the stream stands behind them. -/
lemma laid_readEnd (h : x.Laid low c) :
    x.readEnd.Ensures c fun y d => d = c ∧ ∃ ls, Placed low ls c ∧
      y.lexemes.toList = ls ++ [⟨.streamEnd, c.mark, c.mark⟩] := by
  rw [readEnd, ensures_bind]
  refine (laid_closeDocument h).mono fun y d hy => ?_
  obtain ⟨rfl, hy⟩ := hy
  rw [ensures_bind, ensures_here, ensures_pure]
  exact ⟨rfl, _, hy.placed, Array.toList_push⟩

/-- A round of reading: blanks are skipped and collections ended, and then the end of the text is
read, or the unit that begins there. -/
lemma ensures_read {Q : ForInStep Context → Cursor → Prop}
    (h : x.skipBlanks.Ensures c fun y d => y.dropStale.Ensures d fun z e =>
      (e.rest = [] → (z.unwind e.mark.column e.mark).readEnd.Ensures e fun w f => Q (.done w) f) ∧
      ∀ ch s, e.rest = ch :: s → ((z.unwind e.mark.column e.mark).readAt ch).Ensures e fun w f =>
        w.dropStale.Ensures f fun v g => Q (.yield v) g) : x.read.Ensures c Q := by
  rw [read, ensures_bind]
  refine h.mono fun y d hy => ?_
  rw [ensures_bind]
  refine hy.mono fun z e hz => ?_
  obtain ⟨hend, hunit⟩ := hz
  rw [ensures_bind, ensures_column, ensures_bind, ensures_here]
  dsimp only
  rw [ensures_bind, ensures_peek]
  cases hrest : e.rest with
  | nil =>
      have hpeek : e.peek 0 = none := by simp [Cursor.peek, hrest]
      rw [hpeek]
      dsimp only
      rw [ensures_bind]
      exact (hend hrest).mono fun w f hw => ensures_pure.mpr hw
  | cons ch s =>
      have hpeek : e.peek 0 = some ch := by simp [Cursor.peek, hrest]
      rw [hpeek]
      dsimp only
      rw [ensures_bind]
      refine (hunit ch s hrest).mono fun w f hw => ?_
      rw [ensures_bind]
      exact hw.mono fun v g hv => ensures_pure.mpr hv

/-- A round of reading: it keeps the invariant and reads a character, or ends the stream. -/
lemma laid_read (h : x.Laid low c)
    (hlow : low ≤ c.mark.index ∨ low ≤ 1 ∧ c.mark.index = 0 ∧ c.peek 0 = some '\ufeff') :
    x.read.Ensures c fun r d =>
      match r with
      | .done y => d.rest = [] ∧ ∃ ls, Placed low ls d ∧
          y.lexemes.toList = ls ++ [⟨.streamEnd, d.mark, d.mark⟩]
      | .yield y => (y.Laid low d ∧ low ≤ d.mark.index) ∧ c.mark.index < d.mark.index := by
  refine ensures_read ((laid_skipBlanks h hlow).mono_before fun y d hcd hy => ?_)
  refine (laid_dropStale hy.1).mono fun z e hz => ?_
  obtain ⟨rfl, hz⟩ := hz
  have hu := hz.unwind e.mark.column
  refine ⟨fun hrest => ?_, fun ch s hrest => ?_⟩
  · refine (laid_readEnd hu).mono fun w f hw => ?_
    obtain ⟨rfl, hw⟩ := hw
    exact ⟨hrest, hw⟩
  · refine (laid_readAt hu hy.2 hrest).mono fun w f hw => ?_
    refine (laid_dropStale hw.1).mono fun v g hv => ?_
    obtain ⟨rfl, hv⟩ := hv
    have hle := Cursor.index_le_of_before hcd
    exact ⟨⟨hv, Nat.le_trans hy.2 (Nat.le_of_lt hw.2)⟩, Nat.lt_of_le_of_lt hle hw.2⟩

end Context

/-! ### The units of a whole text -/

/-- The number of characters that a byte order mark at the beginning takes. -/
def markWidth (s : List Char) : Nat :=
  match s with
  | '\ufeff' :: _ => 1
  | _ => 0

/-- The units of a text, from the start of the stream on: sound, in order and inside the text, none
with text in front of the end of a byte order mark, and the end of the stream behind all others. -/
structure Lexeme.Cover (s : List Char) (ls : List Lexeme) : Prop where
  streamStart : ∃ l rest, ls = l :: rest ∧ l.content = .streamStart
  inOrder : InOrder ls
  isSound : ∀ l ∈ ls, l.IsSound
  stop_le : ∀ l ∈ ls, l.stop.index ≤ s.length
  markWidth_le : ∀ l ∈ ls, l.isEmpty = false → markWidth s ≤ l.start.index
  streamEnd : ∃ front last, ls = front ++ [last] ∧ last.content = .streamEnd ∧
    last.start.index = s.length ∧ ∀ l ∈ front, l.content ≠ .streamEnd

/-- The end of the stream has no text. -/
lemma Lexeme.Cover.isEmpty_streamEnd {s : List Char} {ls : List Lexeme} (h : Lexeme.Cover s ls)
    {l : Lexeme} (hl : l ∈ ls) (hend : l.content = .streamEnd) : l.isEmpty = true := by
  have hsound := h.isSound l hl
  have hpoint : Content.streamEnd.isPoint = true := rfl
  rw [Lexeme.IsSound, hend, if_pos hpoint] at hsound
  simp [Lexeme.isEmpty, hsound]

/-- Before the first character, nothing but the start of the stream has been read. -/
lemma laid_start (low : Nat) (s : List Char) : Context.start.Laid low (Cursor.ofText s) := by
  constructor
  · constructor
    · exact ⟨_, [], rfl, rfl⟩
    · exact List.pairwise_singleton _ _
    · intro l hl
      rw [List.mem_singleton.mp hl]
      exact Lexeme.isSound_point rfl _
    · intro l hl
      simp [List.mem_singleton.mp hl]
    · intro l hl
      rw [List.mem_singleton.mp hl]
      exact Nat.le_refl _
    · intro l hl hne
      simp [List.mem_singleton.mp hl, Lexeme.isEmpty] at hne
  all_goals simp [Context.start]

/-- Units that are placed in front of the end of a text cover it together with the end of the
stream. -/
lemma cover_of_placed {s : List Char} {ls : List Lexeme} {d : Cursor}
    (h : Placed (markWidth s) ls d) (hbefore : (Cursor.ofText s).Before d) (hrest : d.rest = []) :
    Lexeme.Cover s (ls ++ [⟨.streamEnd, d.mark, d.mark⟩]) := by
  have hlen : d.mark.index = s.length := by
    have := hbefore.index_add_length
    simpa [hrest, Cursor.ofText, Mark.start] using this
  have hmem : ∀ {l}, l ∈ ls ++ [⟨.streamEnd, d.mark, d.mark⟩] →
      l ∈ ls ∨ l = ⟨.streamEnd, d.mark, d.mark⟩ := fun hl => by simpa using hl
  refine ⟨?_, ?_, ?_, ?_, ?_, ls, _, rfl, rfl, hlen, h.not_streamEnd⟩
  · obtain ⟨l, rest, rfl, hl⟩ := h.streamStart
    exact ⟨l, _, rfl, hl⟩
  · rw [InOrder, List.pairwise_append]
    refine ⟨h.inOrder, List.pairwise_singleton _ _, fun a ha b hb => ?_⟩
    rw [List.mem_singleton.mp hb]
    exact h.stop_le a ha
  · intro l hl
    rcases hmem hl with hl | rfl
    · exact h.isSound l hl
    · exact Lexeme.isSound_point rfl _
  · intro l hl
    rcases hmem hl with hl | rfl
    · exact hlen ▸ h.stop_le l hl
    · exact Nat.le_of_eq hlen
  · intro l hl hne
    rcases hmem hl with hl | rfl
    · exact h.low_le l hl hne
    · simp [Lexeme.isEmpty] at hne

/-- The units of a text are those of a run that repeats the reading of units. -/
lemma exists_run_of_scan {s : List Char} {ls : List Lexeme} (h : Lexeme.scan s = .ok ls) :
    ∃ x d, (Scan.iterate Context.read Context.start).run (Cursor.ofText s) = .ok (x, d) ∧
      x.lexemes.toList = ls := by
  rw [Lexeme.scan] at h
  split at h
  · cases h
  · cases hr : (Scan.iterate Context.read Context.start).run (Cursor.ofText s) with
    | error e => simp [hr, Except.map] at h
    | ok r => exact ⟨r.1, r.2, rfl, by simpa [hr, Except.map] using h⟩

/-- The units that are read from a text cover it. -/
theorem cover_of_scan {s : List Char} {ls : List Lexeme} (h : Lexeme.scan s = .ok ls) :
    Lexeme.Cover s ls := by
  obtain ⟨x, d, hrun, rfl⟩ := exists_run_of_scan h
  -- a byte order mark is still ahead in the first round only
  have hends := Scan.ensures_iterate_done Context.read
    (I := fun x c => x.Laid (markWidth s) c ∧ (Cursor.ofText s).Before c ∧
      (markWidth s ≤ c.mark.index ∨
        markWidth s ≤ 1 ∧ c.mark.index = 0 ∧ c.peek 0 = some '\ufeff'))
    (Q := fun y d => d.rest = [] ∧ (Cursor.ofText s).Before d ∧ ∃ ls, Placed (markWidth s) ls d ∧
      y.lexemes.toList = ls ++ [⟨.streamEnd, d.mark, d.mark⟩])
    (s := Context.start)
    ⟨laid_start _ s, Cursor.before_refl _, ?_⟩ ?_
  · obtain ⟨hrest, hbefore, ls, hls, heq⟩ := hends x d hrun
    rw [heq]
    exact cover_of_placed hls hbefore hrest
  · unfold markWidth
    split
    · exact .inr ⟨Nat.le_refl _, rfl, rfl⟩
    · exact .inl (Nat.zero_le _)
  · rintro y c ⟨hy, hc, hlow⟩
    refine (Context.laid_read hy hlow).mono_before fun r d hcd hr => ?_
    cases r with
    | done z => exact ⟨hr.1, hc.trans hcd, hr.2⟩
    | yield z => exact ⟨⟨hr.1.1, hc.trans hcd, .inl hr.1.2⟩, hr.2⟩

end YamlNavigator.Yaml
