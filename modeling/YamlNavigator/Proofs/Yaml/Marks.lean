import Mathlib.Data.List.Chain
import YamlNavigator.Proofs.Yaml.Order

/-!
What stands behind the units that mark the start of a block collection or of a key.

* `Lexeme.isOpening`, `Follows`: these units ask for another one behind them: a block sequence for
  its first hyphen, a block mapping for its first key or value, and a key without a question mark
  for its text;
* `BeginsAt`: the unit with text at which a pending key would begin;
* `Context.Marked`: the invariant of reading: every unit is followed as it asks, nothing is asked
  for behind the last one, and every pending key begins at a unit with text;
* `marked_readAt`, `marked_read`: every round of reading keeps it;
* `isChain_follows_of_scan`: the units of every text are followed as they ask.
-/

namespace YamlNavigator.Yaml

/-! ### Units that ask for others -/

/-- Does the unit mark the start of a block collection, or that of a key without a question mark? -/
def Lexeme.isOpening (l : Lexeme) : Bool :=
  match l.content with
  | .blockSequenceStart | .blockMappingStart => true
  | .key => l.isEmpty
  | _ => false

/-- The unit behind another is what that one asks for, at the same place: behind the start of a
block sequence a hyphen, behind that of a block mapping the mark of a key or a value, and behind the
mark of a key without a question mark a unit with text. -/
def Follows (l k : Lexeme) : Prop :=
  match l.content with
  | .blockSequenceStart => k.content = .blockEntry ∧ k.start.index = l.start.index
  | .blockMappingStart =>
      (k.content = .key ∨ k.content = .value) ∧ k.start.index = l.start.index
  | .key => l.isEmpty = true → k.isEmpty = false ∧ k.start.index = l.start.index
  | _ => True

/-- A unit that asks for nothing may be followed by any other. -/
lemma follows_of_isOpening {l : Lexeme} (h : l.isOpening = false) (k : Lexeme) : Follows l k := by
  revert h
  rw [Lexeme.isOpening, Follows]
  cases l.content <;> simp +contextual

/-- Units that take text ask for nothing. -/
lemma isOpening_of_isEmpty {l : Lexeme} (h : l.isEmpty = false) (hp : l.content.isPoint = false) :
    l.isOpening = false := by
  revert hp
  rw [Lexeme.isOpening]
  cases l.content <;> simp [Content.isPoint, h]

/-- A unit that spans text takes some. -/
lemma Lexeme.Spans.isEmpty {l : Lexeme} {c d : Cursor} (h : l.Spans c d) : l.isEmpty = false := by
  have hlt := h.start_lt
  rw [← h.start_eq] at hlt
  simpa [Lexeme.isEmpty] using hlt

/-- The units hold one with text at the slot of a pending key and at its mark, and nothing is asked
for behind the units in front of it. -/
def BeginsAt (ls : List Lexeme) (key : PendingKey) : Prop :=
  ∃ front l back, ls = front ++ l :: back ∧ front.length = key.slot ∧
    (∀ k ∈ front.getLast?, k.isOpening = false) ∧ l.isEmpty = false ∧ l.start = key.mark

/-- Units may be appended. -/
lemma BeginsAt.append {ls : List Lexeme} {key : PendingKey} (h : BeginsAt ls key)
    (ks : List Lexeme) : BeginsAt (ls ++ ks) key := by
  obtain ⟨front, l, back, rfl, hrest⟩ := h
  exact ⟨front, l, back ++ ks, by simp, hrest⟩

namespace Context

/-! ### The invariant of reading -/

/-- Every unit that was read is followed as it asks, and nothing is asked for behind the last one.
Every pending key begins at a unit with text; of two the one at the lower flow level begins earlier.
-/
structure Marked (x : Context) : Prop where
  chain : x.lexemes.toList.IsChain Follows
  closed : ∀ l ∈ x.lexemes.toList.getLast?, l.isOpening = false
  begins : ∀ p ∈ x.pending, BeginsAt x.lexemes.toList p.2
  level_le : ∀ p ∈ x.pending, p.1 ≤ x.flowLevel
  nested : ∀ p ∈ x.pending, ∀ q ∈ x.pending, p.1 < q.1 → p.2.slot < q.2.slot

/-- The context `y` comes from `x` by keeping in mind that a key may begin at the mark, or is `x`.
-/
structure Saves (x y : Context) (m : Mark) : Prop where
  lexemes : y.lexemes = x.lexemes
  flowLevel : y.flowLevel = x.flowLevel
  pending : y.pending = x.pending ∨ ∃ required,
    y.pending = x.forgetPending.pending ++ [(x.flowLevel, ⟨x.lexemes.size, required, m⟩)]

variable {x y : Context} {c d : Cursor} {l : Lexeme} {ks : List Lexeme}

/-- The keys that stay pending are those at lower flow levels. -/
lemma Marked.mem_forgetPending (h : x.Marked) {p : Int × PendingKey}
    (hp : p ∈ x.forgetPending.pending) : p ∈ x.pending ∧ p.1 < x.flowLevel := by
  obtain ⟨hmem, hne⟩ : p ∈ x.pending ∧ p.1 ≠ x.flowLevel := by
    simpa [Context.forgetPending] using hp
  exact ⟨hmem, Int.lt_iff_le_and_ne.mpr ⟨h.level_le p hmem, hne⟩⟩

/-- Units may be appended that are followed as they ask, and pending keys given up. -/
lemma Marked.append (h : x.Marked) (hl : y.lexemes.toList = x.lexemes.toList ++ ks)
    (hchain : ks.IsChain Follows) (hclosed : ∀ k ∈ ks.getLast?, k.isOpening = false)
    (hp : ∀ p ∈ y.pending, p ∈ x.pending) (hlevel : ∀ p ∈ y.pending, p.1 ≤ y.flowLevel) :
    y.Marked where
  chain := by
    rw [hl]
    exact h.chain.append hchain fun l hl k _ => follows_of_isOpening (h.closed l hl) k
  closed k hk := by
    rw [hl, List.getLast?_append] at hk
    rcases Option.or_eq_some_iff.mp hk with hk | ⟨-, hk⟩
    · exact hclosed k hk
    · exact h.closed k hk
  begins p hmem := hl ▸ (h.begins p (hp p hmem)).append ks
  level_le := hlevel
  nested p hm q hq := h.nested p (hp p hm) q (hp q hq)

/-- Nothing is appended. -/
lemma Marked.of_subset (h : x.Marked) (hl : y.lexemes = x.lexemes)
    (hp : ∀ p ∈ y.pending, p ∈ x.pending) (hlevel : ∀ p ∈ y.pending, p.1 ≤ y.flowLevel) :
    y.Marked :=
  h.append (by rw [hl, List.append_nil]) .nil (by simp) hp hlevel

/-- The key that is pending at the current flow level may be given up. -/
lemma Marked.forgetPending (h : x.Marked) : x.forgetPending.Marked :=
  h.of_subset rfl (fun _ hp => (h.mem_forgetPending hp).1) fun _ hp =>
    Int.le_of_lt (h.mem_forgetPending hp).2

/-- A unit that takes text may be appended. -/
lemma Marked.push (h : x.Marked) (htext : l.isEmpty = false) (hpoint : l.content.isPoint = false) :
    (x.push l).Marked :=
  h.append Array.toList_push (.singleton l)
    (by simpa using isOpening_of_isEmpty htext hpoint) (fun _ hp => hp) h.level_le

/-- A unit that takes text may be appended where a key may begin. -/
lemma Saves.marked {z : Context} {m : Mark} (hs : x.Saves y m) (h : x.Marked)
    (hl : z.lexemes = y.lexemes.push l) (hp : z.pending = y.pending)
    (hlevel : y.flowLevel ≤ z.flowLevel) (htext : l.isEmpty = false)
    (hpoint : l.content.isPoint = false) (hstart : l.start = m) : z.Marked := by
  have hlexemes : z.lexemes.toList = x.lexemes.toList ++ [l] := by
    rw [hl, hs.lexemes, Array.toList_push]
  have hclosed := isOpening_of_isEmpty htext hpoint
  rw [hs.flowLevel] at hlevel
  rcases hs.pending with hpending | ⟨required, hpending⟩
  · refine h.append hlexemes (.singleton l) (by simpa using hclosed) (fun p hmem => ?_)
      fun p hmem => ?_
    · rwa [hp, hpending] at hmem
    · rw [hp, hpending] at hmem
      exact Int.le_trans (h.level_le p hmem) hlevel
  · -- the new pending key begins at the unit that is appended
    have hall : ∀ p ∈ z.pending, p ∈ x.forgetPending.pending ∨
        p = (x.flowLevel, ⟨x.lexemes.size, required, m⟩) := by
      intro p hmem
      rw [hp, hpending] at hmem
      simpa using hmem
    have hmore := h.append (y := { z with pending := x.forgetPending.pending }) hlexemes
      (.singleton l) (by simpa using hclosed) (fun p hmem => (h.mem_forgetPending hmem).1)
      fun p hmem => Int.le_trans (Int.le_of_lt (h.mem_forgetPending hmem).2) hlevel
    refine ⟨hmore.chain, hmore.closed, fun p hmem => ?_, fun p hmem => ?_,
      fun p hmem q hmem' hlt => ?_⟩
    · rcases hall p hmem with hmem | rfl
      · exact hmore.begins p hmem
      · exact ⟨x.lexemes.toList, l, [], hlexemes, Array.length_toList, h.closed, htext, hstart⟩
    · rcases hall p hmem with hmem | rfl
      · exact hmore.level_le p hmem
      · exact hlevel
    · rcases hall p hmem with hmem | rfl <;> rcases hall q hmem' with hmem' | rfl
      · exact hmore.nested p hmem q hmem' hlt
      · obtain ⟨front, k, back, heq, hslot, -⟩ := h.begins p (h.mem_forgetPending hmem).1
        have hsize : x.lexemes.size = (front ++ k :: back).length := by
          rw [← heq, Array.length_toList]
        simp only [List.length_append, List.length_cons] at hsize
        show p.2.slot < x.lexemes.size
        omega
      · exact absurd hlt (Int.not_lt.mpr (Int.le_of_lt (h.mem_forgetPending hmem').2))
      · exact absurd hlt (Int.lt_irrefl _)

/-- Block collections may be ended. -/
lemma Marked.unwind (h : x.Marked) (column : Int) (m : Mark) : (x.unwind column m).Marked := by
  rw [Context.unwind]
  split
  · exact h
  · refine h.append ?_ (List.isChain_replicate_of_rel (closing column x.indents).2
      (show Follows ⟨.blockEnd, m, m⟩ ⟨.blockEnd, m, m⟩ from trivial)) (fun k hk => ?_)
      (fun _ hp => hp) h.level_le
    · simp
    · rw [List.eq_of_mem_replicate (List.mem_of_getLast? hk)]
      rfl

/-- Units may be put in front of the unit at which the key that is pending at the current flow level
begins, if that key is given up. -/
lemma Marked.insert (h : x.Marked) {p : Int × PendingKey} (hp : p ∈ x.pending)
    (hlevel : p.1 = x.flowLevel) {front back : List Lexeme}
    (hsplit : x.lexemes.toList = front ++ l :: back) (hslot : front.length = p.2.slot)
    (hfront : ∀ k ∈ front.getLast?, k.isOpening = false) (ks : List Lexeme)
    (hpending : y.pending = x.forgetPending.pending) (hflow : y.flowLevel = x.flowLevel)
    (hl : y.lexemes.toList = front ++ (ks ++ l :: back))
    (hchain : (ks ++ l :: back).IsChain Follows) : y.Marked where
  chain := by
    rw [hl]
    refine List.IsChain.append ?_ hchain fun k hk j _ => follows_of_isOpening (hfront k hk) j
    have hbefore := h.chain
    rw [hsplit] at hbefore
    exact hbefore.left_of_append
  closed k hk := by
    refine h.closed k ?_
    rw [hl] at hk
    rw [hsplit]
    simpa [List.getLast?_append, List.getLast?_cons] using hk
  begins q hq := by
    rw [hpending] at hq
    obtain ⟨hq, hlt⟩ := h.mem_forgetPending hq
    obtain ⟨front', l', back', hsplit', hslot', hrest⟩ := h.begins q hq
    have hbefore : front'.length < front.length := by
      rw [hslot', hslot]
      exact h.nested q hq p hp (hlevel ▸ hlt)
    -- the unit at which the other key begins stands in front of the slot
    obtain ⟨more, hfront'⟩ : ∃ more, front = front' ++ l' :: more := by
      rw [hsplit'] at hsplit
      rcases List.append_eq_append_iff.mp hsplit with ⟨as, has, hcons⟩ | ⟨as, has, -⟩
      · cases as with
        | nil => simp [has] at hbefore
        | cons a as =>
            obtain ⟨rfl, -⟩ := List.cons.inj hcons
            exact ⟨as, has⟩
      · rw [has, List.length_append] at hbefore
        omega
    exact ⟨front', l', more ++ (ks ++ l :: back), by rw [hl, hfront']; simp, hslot', hrest⟩
  level_le q hq := by
    rw [hpending] at hq
    rw [hflow]
    exact Int.le_of_lt (h.mem_forgetPending hq).2
  nested q hq r hr := by
    rw [hpending] at hq hr
    exact h.nested q (h.mem_forgetPending hq).1 r (h.mem_forgetPending hr).1

/-- A unit that is put in behind some units stands in front of the others. -/
lemma toList_insert_of_eq_append {ls : Array Lexeme} {front more : List Lexeme} {slot : Nat}
    (h : ls.toList = front ++ more) (hslot : front.length = slot) (k : Lexeme) :
    (ls.insertIdxIfInBounds slot k).toList = front ++ k :: more := by
  rw [toList_insertIdxIfInBounds, h, insertIdx_eq_take_append k (by simp [← hslot]), ← hslot,
    List.take_left, List.drop_left]

/-- The mark of the key that is pending at the current flow level may be put in front of it, alone
or behind the start of a block mapping. -/
lemma Marked.insertKey (h : x.Marked) {key : PendingKey} (hkey : x.pendingHere? = some key) :
    (x.forgetPending.insertKey key).Marked := by
  obtain ⟨p, hfind, rfl⟩ := Option.map_eq_some_iff.mp hkey
  have hmem := List.mem_of_find?_eq_some hfind
  have hlevel : p.1 = x.flowLevel := by simpa using List.find?_some hfind
  obtain ⟨front, l, back, hsplit, hslot, hfront, htext, hstart⟩ := h.begins p hmem
  have hback : (l :: back).IsChain Follows := by
    have hchain := h.chain
    rw [hsplit] at hchain
    exact hchain.right_of_append
  have hmark : Follows ⟨.key, p.2.mark, p.2.mark⟩ l := fun _ => ⟨htext, by rw [hstart]⟩
  have hone := toList_insert_of_eq_append hsplit hslot ⟨.key, p.2.mark, p.2.mark⟩
  rw [Context.insertKey]
  split
  · have htwo := toList_insert_of_eq_append hone hslot ⟨.blockMappingStart, p.2.mark, p.2.mark⟩
    exact h.insert hmem hlevel hsplit hslot hfront
      [⟨.blockMappingStart, p.2.mark, p.2.mark⟩, ⟨.key, p.2.mark, p.2.mark⟩] rfl rfl htwo
      (.cons_cons ⟨.inl rfl, rfl⟩ (.cons_cons hmark hback))
  · exact h.insert hmem hlevel hsplit hslot hfront [⟨.key, p.2.mark, p.2.mark⟩] rfl rfl hone
      (.cons_cons hmark hback)

/-! ### Operations -/

open Scan

lemma marked_dropStale (h : x.Marked) : x.dropStale.Ensures c fun y d => d = c ∧ y.Marked := by
  rw [dropStale, ensures_bind, ensures_here]
  refine ensures_unless fun _ => ensures_pure.mpr ⟨rfl, ?_⟩
  exact h.of_subset rfl (fun p hp => (List.mem_filter.mp hp).1)
    fun p hp => h.level_le p (List.mem_filter.mp hp).1

lemma saves_savePending (x : Context) :
    x.savePending.Ensures c fun y d => d = c ∧ x.Saves y c.mark := by
  rw [savePending]
  split
  · exact ensures_pure.mpr ⟨rfl, rfl, rfl, .inl rfl⟩
  · rw [ensures_bind, ensures_here]
    dsimp only
    rw [ensures_bind]
    exact ensures_dropPending (ensures_pure.mpr ⟨rfl, rfl, rfl, .inr ⟨_, rfl⟩⟩)

/-- Blanks are no units. -/
lemma marked_skipBlanks (h : x.Marked) : x.skipBlanks.Ensures c fun y _ => y.Marked := by
  rw [skipBlanks, ensures_bind, ensures_here, ensures_bind, ensures_nextIs]
  refine ensures_optional fun d _ => ensures_iterate_of_invariant h fun y e hy => ?_
  rw [ensures_bind]
  refine .of_before fun _ f _ => ?_
  rw [ensures_bind, ensures_nextIs]
  refine ensures_optional fun g _ => ?_
  rw [ensures_bind]
  refine .of_before fun b? k _ => ?_
  cases b? with
  | none => exact ensures_pure.mpr hy
  | some _ =>
      refine ensures_pure.mpr ?_
      dsimp only [ForInStep.value]
      split
      · exact hy
      · exact hy.of_subset rfl (fun _ hp => hp) hy.level_le

/-! ### Reading a unit -/

/-- A unit of a fixed number of characters takes text, and is appended. -/
lemma ensures_readMark {content : Content} {n : Nat} {Q : Context → Cursor → Prop}
    (hc : c.rest ≠ []) (hn : 0 < n) (hQ : ∀ l d, l.content = content → l.isEmpty = false →
      l.start = c.mark → Q (x.push l) d) : (x.readMark content n).Ensures c Q := by
  rw [readMark, ensures_bind, ensures_here, ensures_bind, ensures_advance, ensures_bind,
    ensures_here, ensures_pure]
  exact hQ _ _ rfl (by simpa [Lexeme.isEmpty] using Cursor.index_lt_forward hc hn) rfl

lemma marked_readMark (h : x.Marked) (hc : c.rest ≠ []) {content : Content}
    (hp : content.isPoint = false) {n : Nat} (hn : 0 < n) :
    (x.readMark content n).Ensures c fun y _ => y.Marked :=
  ensures_readMark hc hn fun _ _ hcontent htext _ => h.push htext (by rwa [hcontent])

lemma marked_closeDocument (h : x.Marked) :
    x.closeDocument.Ensures c fun y d => d = c ∧ y.Marked := by
  rw [closeDocument, ensures_bind, ensures_here]
  dsimp only
  rw [ensures_bind]
  refine ensures_dropPending (ensures_pure.mpr ⟨rfl, ?_⟩)
  have hx := (h.unwind (-1) c.mark).forgetPending
  exact hx.of_subset rfl (fun _ hp => hp) hx.level_le

lemma marked_readDirective (h : x.Marked) (hc : c.rest ≠ []) :
    x.readDirective.Ensures c fun y _ => y.Marked := by
  rw [readDirective, ensures_bind]
  refine (marked_closeDocument h).mono fun y d hy => ?_
  obtain ⟨rfl, hy⟩ := hy
  rw [ensures_bind]
  exact (spans_directiveLexeme hc).mono fun l e hl =>
    ensures_pure.mpr (hy.push hl.isEmpty hl.not_point)

lemma marked_readSeparator (h : x.Marked) (hc : c.rest ≠ []) {content : Content}
    (hp : content.isPoint = false) : (x.readSeparator content).Ensures c fun y _ => y.Marked := by
  rw [readSeparator, ensures_bind]
  refine (marked_closeDocument h).mono fun y d hy => ?_
  obtain ⟨rfl, hy⟩ := hy
  exact marked_readMark hy hc hp (by omega)

lemma marked_readFlowStart (h : x.Marked) (hc : c.rest ≠ []) {content : Content}
    (hp : content.isPoint = false) : (x.readFlowStart content).Ensures c fun y _ => y.Marked := by
  rw [readFlowStart, ensures_bind]
  refine (saves_savePending x).mono fun y d hy => ?_
  obtain ⟨rfl, hy⟩ := hy
  refine ensures_readMark hc Nat.one_pos fun l e hcontent htext hstart => ?_
  exact hy.marked h rfl rfl (Int.le_of_lt (Int.lt_succ _)) htext (by rwa [hcontent]) hstart

lemma marked_readFlowEnd (h : x.Marked) (hc : c.rest ≠ []) {content : Content}
    (hp : content.isPoint = false) : (x.readFlowEnd content).Ensures c fun y _ => y.Marked := by
  rw [readFlowEnd, ensures_bind]
  refine ensures_dropPending (marked_readMark ?_ hc hp Nat.one_pos)
  exact h.forgetPending.of_subset rfl (fun _ hp => hp) fun p hp =>
    Int.le_sub_one_of_lt (h.mem_forgetPending hp).2

lemma marked_readFlowEntry (h : x.Marked) (hc : c.rest ≠ []) :
    x.readFlowEntry.Ensures c fun y _ => y.Marked := by
  have hx := h.forgetPending
  rw [readFlowEntry, ensures_bind]
  refine ensures_dropPending (marked_readMark ?_ hc rfl Nat.one_pos)
  exact hx.of_subset rfl (fun _ hp => hp) hx.level_le

/-- A block collection that is begun asks for the indicator at the cursor. -/
lemma marked_readIndicator (h : x.Marked) (hc : c.rest ≠ []) (opening : Content) {content : Content}
    (hp : content.isPoint = false)
    (hfollows : ∀ m l, l.content = content → l.start = m → Follows ⟨opening, m, m⟩ l)
    (refusal : Problem) (allowed : Context → Bool) :
    Ensures
      (do
        let x ← x.openBlockHere opening refusal
        let x ← x.dropPending
        { x with keyAllowed := allowed x }.readMark content 1)
      c fun y _ => y.Marked := by
  have hx := h.forgetPending
  -- no collection is begun
  have hplain : Ensures
      (do
        let x ← x.dropPending
        { x with keyAllowed := allowed x }.readMark content 1)
      c fun y _ => y.Marked := by
    rw [ensures_bind]
    refine ensures_dropPending (marked_readMark ?_ hc hp Nat.one_pos)
    exact hx.of_subset rfl (fun _ hp => hp) hx.level_le
  rw [ensures_bind, openBlockHere]
  split
  · exact ensures_pure.mpr hplain
  · refine ensures_unless fun _ => ?_
    rw [ensures_bind, ensures_here, ensures_pure, Context.openBlock]
    split
    · rw [ensures_bind]
      refine ensures_dropPending (ensures_readMark hc Nat.one_pos fun l d hcontent htext hstart => ?_)
      have hclosed := isOpening_of_isEmpty htext (by rwa [hcontent])
      refine hx.append ?_ (.cons_cons (hfollows c.mark l hcontent hstart) (.singleton l))
        (by simpa using hclosed) (fun _ hp => hp) hx.level_le
      simp [pushEmpty, Context.push, Context.forgetPending]
    · exact hplain

lemma marked_readBlockEntry (h : x.Marked) (hc : c.rest ≠ []) :
    x.readBlockEntry.Ensures c fun y _ => y.Marked :=
  marked_readIndicator h hc .blockSequenceStart rfl (fun _ _ hl hm => ⟨hl, by rw [hm]⟩) _
    fun _ => true

lemma marked_readKey (h : x.Marked) (hc : c.rest ≠ []) :
    x.readKey.Ensures c fun y _ => y.Marked :=
  marked_readIndicator h hc .blockMappingStart rfl (fun _ _ hl hm => ⟨.inl hl, by rw [hm]⟩) _
    fun x => !x.inFlow

lemma marked_readValue (h : x.Marked) (hc : c.rest ≠ []) :
    x.readValue.Ensures c fun y _ => y.Marked := by
  rw [readValue]
  split
  · next key hkey =>
      have hx := h.insertKey hkey
      refine marked_readMark ?_ hc rfl Nat.one_pos
      exact hx.of_subset rfl (fun _ hp => hp) hx.level_le
  · exact marked_readIndicator h hc .blockMappingStart rfl (fun _ _ hl hm => ⟨.inr hl, by rw [hm]⟩) _
      fun x => !x.inFlow

lemma marked_readNode (h : x.Marked) {unit : Scan Lexeme}
    (hunit : unit.Ensures c fun l d => l.Spans c d) :
    (x.readNode unit).Ensures c fun y _ => y.Marked := by
  rw [readNode, ensures_bind]
  refine (saves_savePending x).mono fun y d hy => ?_
  obtain ⟨rfl, hy⟩ := hy
  rw [ensures_bind]
  exact hunit.mono fun l e hl => ensures_pure.mpr
    (hy.marked h rfl rfl (Int.le_refl _) hl.isEmpty hl.not_point hl.start_eq)

lemma marked_readBlock (h : x.Marked) (hc : c.rest ≠ []) (folded : Bool) :
    (x.readBlock folded).Ensures c fun y _ => y.Marked := by
  rw [readBlock, ensures_bind]
  refine ensures_dropPending ?_
  rw [ensures_bind]
  refine (spans_blockLexeme hc).mono fun l e hl => ensures_pure.mpr ?_
  refine Marked.push ?_ hl.isEmpty hl.not_point
  exact h.forgetPending.of_subset rfl (fun _ hp => hp) h.forgetPending.level_le

lemma marked_readPlain (h : x.Marked) {ch : Char} {s : List Char} (hc : c.rest = ch :: s)
    (hs : startsPlain x.inFlow ch s.head? = true) :
    x.readPlain.Ensures c fun y _ => y.Marked := by
  rw [readPlain, ensures_bind]
  refine (saves_savePending x).mono fun y d hy => ?_
  obtain ⟨rfl, hy⟩ := hy
  have hflow : y.inFlow = x.inFlow := by rw [inFlow, hy.flowLevel, inFlow]
  rw [ensures_bind]
  refine (spans_plainLexeme hc (hflow ▸ hs)).mono fun p e hl => ?_
  obtain ⟨l, broken⟩ := p
  exact ensures_pure.mpr
    (hy.marked h rfl rfl (Int.le_refl _) hl.isEmpty hl.not_point hl.start_eq)

/-- Whatever unit begins at the cursor, reading it keeps the invariant. -/
lemma marked_readAt (h : x.Marked) {ch : Char} {s : List Char} (hc : c.rest = ch :: s) :
    (x.readAt ch).Ensures c fun y _ => y.Marked := by
  have hne : c.rest ≠ [] := by simp [hc]
  exact ensures_readAt hc (marked_readDirective h hne)
    (fun _ hi => marked_readSeparator h hne (Content.isPoint_of_isIndicator hi))
    (fun _ hi => marked_readFlowStart h hne (Content.isPoint_of_isIndicator hi))
    (fun _ hi => marked_readFlowEnd h hne (Content.isPoint_of_isIndicator hi))
    (marked_readFlowEntry h hne) (marked_readBlockEntry h hne) (marked_readKey h hne)
    (marked_readValue h hne)
    (fun _ hunit => marked_readNode h (hunit.mono fun _ _ hl => hl.toSpans))
    (marked_readBlock h hne) (marked_readPlain h hc)

/-- A round of reading keeps the invariant; at the end of the text too every unit is followed as it
asks. -/
lemma marked_read (h : x.Marked) : x.read.Ensures c fun r _ =>
    r.value.lexemes.toList.IsChain Follows ∧ ∀ y, r = .yield y → y.Marked := by
  refine ensures_read ((marked_skipBlanks h).mono fun y d hy => ?_)
  refine (marked_dropStale hy).mono fun z e hz => ?_
  obtain ⟨rfl, hz⟩ := hz
  have hu := hz.unwind e.mark.column e.mark
  refine ⟨fun _ => ?_, fun ch s hrest => ?_⟩
  · rw [readEnd, ensures_bind]
    refine (marked_closeDocument hu).mono fun w f hw => ?_
    rw [ensures_bind, ensures_here, ensures_pure]
    refine ⟨?_, fun _ h => by cases h⟩
    have hend := hw.2.append (y := { w with pending := [] }.pushEmpty .streamEnd f.mark)
      Array.toList_push (.singleton _) (by simp [Lexeme.isOpening]) (fun _ hp => by cases hp)
      fun _ hp => by cases hp
    exact hend.chain
  · refine (marked_readAt hu hrest).mono fun w f hw => (marked_dropStale hw).mono fun v g hv => ?_
    exact ⟨hv.2.chain, fun _ h => by cases h; exact hv.2⟩

end Context

/-! ### The units of a whole text -/

/-- **Marks are followed as they ask.** In every text, the start of a block sequence stands directly
in front of a hyphen, the start of a block mapping in front of the mark of a key or a value, and the
mark of a key without a question mark in front of a unit with text. -/
theorem isChain_follows_of_scan {s : List Char} {ls : List Lexeme} (h : Lexeme.scan s = .ok ls) :
    ls.IsChain Follows := by
  obtain ⟨x, d, hrun, rfl⟩ := exists_run_of_scan h
  have hstart : Context.start.Marked :=
    ⟨.singleton _, by simp [Context.start, Lexeme.isOpening], by simp [Context.start],
      by simp [Context.start], by simp [Context.start]⟩
  have hends : (Scan.iterate Context.read Context.start).Ensures (Cursor.ofText s) fun y _ =>
      y.lexemes.toList.IsChain Follows :=
    Scan.ensures_iterate (I := fun y _ => y.Marked) hstart fun y c hy =>
      (Context.marked_read hy).mono fun r d hr => by
        cases r with
        | done z => exact hr.1
        | yield z => exact ⟨hr.1, hr.2 z rfl⟩
  exact hends x d hrun

end YamlNavigator.Yaml
