import YamlNavigator.Proofs.Yaml.Gaps
import YamlNavigator.Proofs.Yaml.MirrorStream

/-!
Keys without a question mark and their colons.

* `Lexeme.isKeyMark`: the marks of these keys, which take no text;
* `Context.Extends`, `extends_readAt`: what reading a unit adds to the units and the pending keys;
* `HasColon`: a colon stands on the line on which a key begins;
* `Context.Lined`, `lined_read`: the invariant of the scanner and its round;
* `hasColon_of_scan`: every key without a question mark has a colon;
* `sign_not_mem_gap`: in front of the first colon behind such a key stands no comment.
-/

namespace YamlNavigator.Yaml

/-- Marks of keys without a question mark. -/
def Lexeme.isKeyMark (l : Lexeme) : Bool := l.content = .key && l.isEmpty

/-- Units with text mark no key. -/
lemma Lexeme.isKeyMark_of_isEmpty {l : Lexeme} (h : l.isEmpty = false) : l.isKeyMark = false := by
  simp [isKeyMark, h]

namespace Context

/-! ### What a round adds -/

/-- The context `y` comes from `x` by reading at a mark: no unit is lost, and the mark of a key is
added only at a pending key, together with a colon at the mark; a key may become pending there. -/
structure Extends (x : Context) (m : Mark) (y : Context) : Prop where
  kept : ∀ l ∈ x.lexemes.toList, l ∈ y.lexemes.toList
  added : ∀ l ∈ y.lexemes.toList, l.isKeyMark = true → l ∈ x.lexemes.toList ∨
    ∃ p ∈ x.pending, l.start = p.2.mark ∧
      ∃ w ∈ y.lexemes.toList, w.content = .value ∧ w.start = m
  pending : ∀ p ∈ y.pending, p ∈ x.pending ∨ p.2.mark = m

variable {x y z : Context} {c d : Cursor} {l : Lexeme} {m : Mark}

/-- Units may be appended that mark no key. -/
lemma Extends.of_append (ks : List Lexeme) (hl : y.lexemes.toList = x.lexemes.toList ++ ks)
    (hks : ∀ k ∈ ks, k.isKeyMark = false) (hp : ∀ p ∈ y.pending, p ∈ x.pending ∨ p.2.mark = m) :
    x.Extends m y where
  kept l hmem := hl ▸ List.mem_append_left ks hmem
  added l hmem hmark := by
    rw [hl] at hmem
    refine .inl ((List.mem_append.mp hmem).resolve_right fun hmem => ?_)
    rw [hks l hmem] at hmark
    cases hmark
  pending := hp

/-- Behind other units one with text may be appended. -/
lemma Extends.push (h : x.Extends m y) (hl : z.lexemes = y.lexemes.push l)
    (htext : l.isEmpty = false) (hp : z.pending = y.pending) : x.Extends m z where
  kept k hk := by
    rw [hl, Array.toList_push]
    exact List.mem_append_left _ (h.kept k hk)
  added k hk hmark := by
    rw [hl, Array.toList_push, List.mem_append, List.mem_singleton] at hk
    rcases hk with hk | rfl
    · refine (h.added k hk hmark).imp_right ?_
      rintro ⟨p, hp, hstart, w, hw, hvalue⟩
      refine ⟨p, hp, hstart, w, ?_, hvalue⟩
      rw [hl, Array.toList_push]
      exact List.mem_append_left _ hw
    · rw [Lexeme.isKeyMark_of_isEmpty htext] at hmark
      cases hmark
  pending p hmem := h.pending p (hp ▸ hmem)

/-- The rest of a context does not matter. -/
lemma Extends.of_eq (h : x.Extends m y) (hl : z.lexemes = y.lexemes) (hp : z.pending = y.pending) :
    x.Extends m z where
  kept := by simpa only [hl] using h.kept
  added := by simpa only [hl] using h.added
  pending := by simpa only [hp] using h.pending

/-- The key that is pending at the current flow level may be given up. -/
lemma extends_forgetPending (x : Context) (m : Mark) : x.Extends m x.forgetPending :=
  .of_append [] (List.append_nil _).symm (by simp) fun _ hp => .inl (List.mem_filter.mp hp).1

/-- A key may become pending. -/
lemma Saves.extends (h : x.Saves y m) : x.Extends m y := by
  refine .of_append [] (by rw [h.lexemes, List.append_nil]) (by simp) fun p hp => ?_
  rcases h.pending with heq | ⟨required, heq⟩
  · exact .inl (heq ▸ hp)
  · rw [heq, List.mem_append, List.mem_singleton] at hp
    rcases hp with hp | rfl
    · exact .inl (List.mem_filter.mp hp).1
    · exact .inr rfl

/-- Block collections may be ended. -/
lemma extends_unwind (x : Context) (column : Int) (m : Mark) : x.Extends m (x.unwind column m) := by
  rw [Context.unwind]
  split
  · exact .of_append [] (List.append_nil _).symm (by simp) fun _ hp => .inl hp
  · refine .of_append (List.replicate (closing column x.indents).2 ⟨.blockEnd, m, m⟩) (by simp)
      (fun k hk => ?_) fun _ hp => .inl hp
    rw [List.eq_of_mem_replicate hk]
    rfl

/-- A block collection may be begun. -/
lemma extends_openBlock (x : Context) {content : Content} (hc : content ≠ .key) (m : Mark) :
    x.Extends m (x.openBlock content m) := by
  rw [Context.openBlock]
  split
  · refine .of_append [⟨content, m, m⟩] (by simp [pushEmpty, Context.push]) ?_
      fun _ hp => .inl hp
    simp [Lexeme.isKeyMark, hc]
  · exact .of_append [] (List.append_nil _).symm (by simp) fun _ hp => .inl hp

/-- A pending key may be given up behind other units. -/
lemma Extends.forgetPending (h : x.Extends m y) : x.Extends m y.forgetPending where
  kept := h.kept
  added := h.added
  pending p hp := h.pending p (List.mem_filter.mp hp).1

/-- The units that are put in front of a pending key are added to the others. -/
lemma mem_insertKey (x : Context) (key : PendingKey) :
    (∀ k ∈ x.lexemes.toList, k ∈ (x.insertKey key).lexemes.toList) ∧
      ∀ k ∈ (x.insertKey key).lexemes.toList, k.isKeyMark = true →
        k ∈ x.lexemes.toList ∨ k.start = key.mark := by
  have hinsert : ∀ (ls : Array Lexeme) (k : Lexeme),
      (∀ j ∈ ls.toList, j ∈ (ls.insertIdxIfInBounds key.slot k).toList) ∧
        ∀ j ∈ (ls.insertIdxIfInBounds key.slot k).toList, j ∈ ls.toList ∨ j = k := by
    intro ls k
    rw [toList_insertIdxIfInBounds]
    refine ⟨fun j hj => ?_, fun j hj => (List.eq_or_mem_of_mem_insertIdx hj).symm⟩
    rcases Nat.lt_or_ge ls.toList.length key.slot with hlt | hle
    · rwa [List.insertIdx_of_length_lt hlt]
    · exact (List.mem_insertIdx hle).mpr (.inr hj)
  obtain ⟨hkept, hadded⟩ := hinsert x.lexemes ⟨.key, key.mark, key.mark⟩
  have hkey : ∀ k ∈ (x.lexemes.insertIdxIfInBounds key.slot ⟨.key, key.mark, key.mark⟩).toList,
      k ∈ x.lexemes.toList ∨ k.start = key.mark := fun k hk =>
    (hadded k hk).imp_right fun heq => by rw [heq]
  rw [insertKey]
  split
  · obtain ⟨hkept', hadded'⟩ := hinsert
      (x.lexemes.insertIdxIfInBounds key.slot ⟨.key, key.mark, key.mark⟩)
      ⟨.blockMappingStart, key.mark, key.mark⟩
    refine ⟨fun k hk => hkept' k (hkept k hk), fun k hk hmark => ?_⟩
    rcases hadded' k hk with hk | rfl
    · exact hkey k hk
    · cases hmark
  · exact ⟨hkept, fun k hk _ => hkey k hk⟩

/-! ### Readers -/

open Scan

lemma extends_closeDocument (x : Context) :
    x.closeDocument.Ensures c fun y d => d = c ∧ x.Extends c.mark y := by
  rw [closeDocument, ensures_bind, ensures_here]
  dsimp only
  rw [ensures_bind]
  refine ensures_dropPending (ensures_pure.mpr ⟨rfl, ?_⟩)
  exact (extends_unwind x (-1) c.mark).forgetPending.of_eq rfl rfl

lemma extends_readMark (h : x.Extends m y) (hc : c.rest ≠ []) (content : Content) {n : Nat}
    (hn : 0 < n) : (y.readMark content n).Ensures c fun z _ => x.Extends m z :=
  ensures_readMark hc hn fun _ _ _ htext _ => h.push rfl htext rfl

lemma extends_readDirective (x : Context) (hc : c.rest ≠ []) :
    x.readDirective.Ensures c fun y _ => x.Extends c.mark y := by
  rw [readDirective, ensures_bind]
  refine (extends_closeDocument x).mono fun y d hy => ?_
  obtain ⟨rfl, hy⟩ := hy
  rw [ensures_bind]
  exact (spans_directiveLexeme hc).mono fun l e hl =>
    ensures_pure.mpr (hy.push rfl hl.isEmpty rfl)

lemma extends_readSeparator (x : Context) (hc : c.rest ≠ []) (content : Content) :
    (x.readSeparator content).Ensures c fun y _ => x.Extends c.mark y := by
  rw [readSeparator, ensures_bind]
  refine (extends_closeDocument x).mono fun y d hy => ?_
  obtain ⟨rfl, hy⟩ := hy
  exact extends_readMark hy hc content (by omega)

lemma extends_readFlowStart (x : Context) (hc : c.rest ≠ []) (content : Content) :
    (x.readFlowStart content).Ensures c fun y _ => x.Extends c.mark y := by
  rw [readFlowStart, ensures_bind]
  refine (saves_savePending x).mono fun y d hy => ?_
  obtain ⟨rfl, hy⟩ := hy
  refine extends_readMark ?_ hc content Nat.one_pos
  exact hy.extends.of_eq rfl rfl

lemma extends_readFlowEnd (x : Context) (hc : c.rest ≠ []) (content : Content) :
    (x.readFlowEnd content).Ensures c fun y _ => x.Extends c.mark y := by
  rw [readFlowEnd, ensures_bind]
  refine ensures_dropPending (extends_readMark ?_ hc content Nat.one_pos)
  exact (extends_forgetPending x c.mark).of_eq rfl rfl

lemma extends_readFlowEntry (x : Context) (hc : c.rest ≠ []) :
    x.readFlowEntry.Ensures c fun y _ => x.Extends c.mark y := by
  rw [readFlowEntry, ensures_bind]
  refine ensures_dropPending (extends_readMark ?_ hc .flowEntry Nat.one_pos)
  exact (extends_forgetPending x c.mark).of_eq rfl rfl

/-- An indicator may begin a block collection. -/
lemma extends_readIndicator (x : Context) (hc : c.rest ≠ []) {opening : Content}
    (ho : opening ≠ .key) (content : Content) (refusal : Problem) (allowed : Context → Bool) :
    Ensures
      (do
        let x ← x.openBlockHere opening refusal
        let x ← x.dropPending
        { x with keyAllowed := allowed x }.readMark content 1)
      c fun y _ => x.Extends c.mark y := by
  have hmore : ∀ y, x.Extends c.mark y → Ensures
      (do
        let x ← y.dropPending
        { x with keyAllowed := allowed x }.readMark content 1)
      c fun y _ => x.Extends c.mark y := by
    intro y hy
    rw [ensures_bind]
    refine ensures_dropPending (extends_readMark ?_ hc content Nat.one_pos)
    exact hy.forgetPending.of_eq rfl rfl
  rw [ensures_bind, openBlockHere]
  split
  · exact ensures_pure.mpr
      (hmore x (.of_append [] (List.append_nil _).symm (by simp) fun _ hp => .inl hp))
  · refine ensures_unless fun _ => ?_
    rw [ensures_bind, ensures_here, ensures_pure]
    exact hmore _ (extends_openBlock x ho c.mark)

/-- The colon behind a pending key makes it a key. -/
lemma extends_readValue (x : Context) (hc : c.rest ≠ []) :
    x.readValue.Ensures c fun y _ => x.Extends c.mark y := by
  rw [readValue]
  split
  · next key hkey =>
      obtain ⟨p, hfind, rfl⟩ := Option.map_eq_some_iff.mp hkey
      have hp := List.mem_of_find?_eq_some hfind
      obtain ⟨hkept, hadded⟩ := mem_insertKey x.forgetPending p.2
      have hpending : (x.forgetPending.insertKey p.2).pending = x.forgetPending.pending := by
        rw [insertKey]
        split <;> rfl
      refine ensures_readMark hc Nat.one_pos fun l d hcontent htext hstart => ?_
      have hmem : ∀ k, k ∈ (({ x.forgetPending.insertKey p.2 with keyAllowed := false }).push
          l).lexemes.toList ↔ k ∈ (x.forgetPending.insertKey p.2).lexemes.toList ∨ k = l := by
        intro k
        rw [Context.push, Array.toList_push, List.mem_append, List.mem_singleton]
      refine ⟨fun k hk => (hmem k).mpr (.inl (hkept k hk)), fun k hk hmark => ?_, fun q hq => ?_⟩
      · rcases (hmem k).mp hk with hk | rfl
        · exact (hadded k hk hmark).imp_right fun hk =>
            ⟨p, hp, hk, l, (hmem l).mpr (.inr rfl), hcontent, hstart⟩
        · rw [Lexeme.isKeyMark_of_isEmpty htext] at hmark
          cases hmark
      · have hq' : q ∈ (x.forgetPending.insertKey p.2).pending := hq
        rw [hpending] at hq'
        exact .inl (List.mem_filter.mp hq').1
  · exact extends_readIndicator x hc (by simp) .value _ fun x => !x.inFlow

lemma extends_readNode (x : Context) {unit : Scan Lexeme}
    (hunit : unit.Ensures c fun l d => l.Spans c d) :
    (x.readNode unit).Ensures c fun y _ => x.Extends c.mark y := by
  rw [readNode, ensures_bind]
  refine (saves_savePending x).mono fun y d hy => ?_
  obtain ⟨rfl, hy⟩ := hy
  rw [ensures_bind]
  exact hunit.mono fun l e hl => ensures_pure.mpr (hy.extends.push rfl hl.isEmpty rfl)

lemma extends_readBlock (x : Context) (hc : c.rest ≠ []) (folded : Bool) :
    (x.readBlock folded).Ensures c fun y _ => x.Extends c.mark y := by
  rw [readBlock, ensures_bind]
  refine ensures_dropPending ?_
  rw [ensures_bind]
  exact (spans_blockLexeme hc).mono fun l e hl =>
    ensures_pure.mpr ((extends_forgetPending x c.mark).push rfl hl.isEmpty rfl)

lemma extends_readPlain (x : Context) {ch : Char} {s : List Char} (hc : c.rest = ch :: s)
    (hs : startsPlain x.inFlow ch s.head? = true) :
    x.readPlain.Ensures c fun y _ => x.Extends c.mark y := by
  rw [readPlain, ensures_bind]
  refine (saves_savePending x).mono fun y d hy => ?_
  obtain ⟨rfl, hy⟩ := hy
  have hflow : y.inFlow = x.inFlow := by rw [inFlow, hy.flowLevel, inFlow]
  rw [ensures_bind]
  refine (spans_plainLexeme hc (hflow ▸ hs)).mono fun p e hl => ?_
  obtain ⟨l, broken⟩ := p
  exact ensures_pure.mpr (hy.extends.push rfl hl.isEmpty rfl)

/-- Whatever unit begins at the cursor, reading it adds no key but with its colon. -/
lemma extends_readAt (x : Context) {ch : Char} {s : List Char} (hc : c.rest = ch :: s) :
    (x.readAt ch).Ensures c fun y _ => x.Extends c.mark y := by
  have hne : c.rest ≠ [] := by simp [hc]
  exact ensures_readAt hc (extends_readDirective x hne)
    (fun content _ => extends_readSeparator x hne content)
    (fun content _ => extends_readFlowStart x hne content)
    (fun content _ => extends_readFlowEnd x hne content) (extends_readFlowEntry x hne)
    (extends_readIndicator x hne (by simp) .blockEntry _ fun _ => true)
    (extends_readIndicator x hne (by simp) .key _ fun x => !x.inFlow) (extends_readValue x hne)
    (fun _ hunit => extends_readNode x (hunit.mono fun _ _ hl => hl.toSpans))
    (extends_readBlock x hne) (extends_readPlain x hc)

/-- Blanks change neither the units nor the pending keys. -/
lemma ensures_skipBlanks (x : Context) :
    x.skipBlanks.Ensures c fun y _ => y.lexemes = x.lexemes ∧ y.pending = x.pending := by
  rw [skipBlanks, ensures_bind, ensures_here, ensures_bind, ensures_nextIs]
  refine ensures_optional fun d _ => ensures_iterate_of_invariant ⟨rfl, rfl⟩ fun y e hy => ?_
  rw [ensures_bind]
  refine .of_before fun _ f _ => ?_
  rw [ensures_bind, ensures_nextIs]
  refine ensures_optional fun g _ => ?_
  rw [ensures_bind]
  refine .of_before fun b? k _ => ?_
  cases b? with
  | none => exact ensures_pure.mpr hy
  | some _ =>
      refine ensures_pure.mpr ?_
      dsimp only [ForInStep.value]
      split <;> exact hy

/-- The pending keys that are kept began on the line of the cursor. -/
lemma ensures_dropStale (x : Context) :
    x.dropStale.Ensures c fun y d => d = c ∧ y.lexemes = x.lexemes ∧
      ∀ p ∈ y.pending, p ∈ x.pending ∧ p.2.mark.line = c.mark.line := by
  rw [dropStale, ensures_bind, ensures_here]
  refine ensures_unless fun _ => ensures_pure.mpr ⟨rfl, rfl, fun p hp => ?_⟩
  obtain ⟨hmem, hfresh⟩ := List.mem_filter.mp hp
  simp only [isStale, Bool.not_or, Bool.and_eq_true, Bool.not_eq_true', bne_eq_false_iff_eq]
    at hfresh
  exact ⟨hmem, hfresh.1⟩

end Context

/-! ### Keys and their colons -/

/-- Among the units is a colon on the line on which the unit `k` begins, behind that. -/
def HasColon (s : List Char) (ls : List Lexeme) (k : Lexeme) : Prop :=
  ∃ w ∈ ls, w.content = .value ∧ ∃ c d : Cursor, (Cursor.ofText s).Before c ∧ c.Before d ∧
    c.mark = k.start ∧ d.mark = w.start ∧ d.mark.line = c.mark.line

/-- There may be more units. -/
lemma HasColon.mono {s : List Char} {ls ks : List Lexeme} {k : Lexeme} (h : HasColon s ls k)
    (hsub : ∀ l ∈ ls, l ∈ ks) : HasColon s ks k := by
  obtain ⟨w, hw, hrest⟩ := h
  exact ⟨w, hsub w hw, hrest⟩

namespace Context

variable {s : List Char} {x y z : Context} {c d : Cursor}

/-- The cursor is one of the text, every key without a question mark has its colon, and pending keys
began where the cursor was. -/
structure Lined (s : List Char) (x : Context) (c : Cursor) : Prop where
  before : (Cursor.ofText s).Before c
  hasColon : ∀ k ∈ x.lexemes.toList, k.isKeyMark = true → HasColon s x.lexemes.toList k
  began : ∀ p ∈ x.pending, ∃ b, (Cursor.ofText s).Before b ∧ b.Before c ∧ b.mark = p.2.mark

/-- The cursor may move on, and pending keys may be given up. -/
lemma Lined.of_subset (h : x.Lined s c) (hcd : c.Before d) (hl : y.lexemes = x.lexemes)
    (hp : ∀ p ∈ y.pending, p ∈ x.pending) : y.Lined s d where
  before := h.before.trans hcd
  hasColon := by
    rw [hl]
    exact h.hasColon
  began p hmem := by
    obtain ⟨b, hb, hbc, hmark⟩ := h.began p (hp p hmem)
    exact ⟨b, hb, hbc.trans hcd, hmark⟩

/-- Where all pending keys began on the line of the cursor, keys that are added have their colons
there. -/
lemma Lined.extends (h : x.Lined s c) (hline : ∀ p ∈ x.pending, p.2.mark.line = c.mark.line)
    (hxy : x.Extends c.mark y) (hcd : c.Before d) : y.Lined s d where
  before := h.before.trans hcd
  hasColon k hk hmark := by
    rcases hxy.added k hk hmark with hk | ⟨p, hp, hstart, w, hw, hvalue, hat⟩
    · exact (h.hasColon k hk hmark).mono hxy.kept
    · obtain ⟨b, hb, hbc, hbegan⟩ := h.began p hp
      refine ⟨w, hw, hvalue, b, c, hb, hbc, hbegan.trans hstart.symm, hat.symm, ?_⟩
      rw [hbegan, hline p hp]
  began p hp := by
    rcases hxy.pending p hp with hp | heq
    · obtain ⟨b, hb, hbc, hbegan⟩ := h.began p hp
      exact ⟨b, hb, hbc.trans hcd, hbegan⟩
    · exact ⟨c, h.before, hcd, heq.symm⟩

open Scan

/-- A round of reading keeps the invariant; at the end of the text every key has its colon. -/
lemma lined_read (h : x.Lined s c) : x.read.Ensures c fun r d =>
    (∀ k ∈ r.value.lexemes.toList, k.isKeyMark = true → HasColon s r.value.lexemes.toList k) ∧
      ∀ y, r = .yield y → y.Lined s d := by
  refine ensures_read ((ensures_skipBlanks x).mono_before fun y d hcd hy => ?_)
  have hy' := h.of_subset hcd hy.1 fun p hp => hy.2 ▸ hp
  refine (ensures_dropStale y).mono fun z e hz => ?_
  obtain ⟨rfl, hz, hpending⟩ := hz
  have hz' := hy'.of_subset (Cursor.before_refl e) hz fun p hp => (hpending p hp).1
  have hu := hz'.extends (fun p hp => (hpending p hp).2)
    (extends_unwind z e.mark.column e.mark) (Cursor.before_refl e)
  have hline : ∀ p ∈ (z.unwind e.mark.column e.mark).pending, p.2.mark.line = e.mark.line := by
    intro p hp
    rcases (extends_unwind z e.mark.column e.mark).pending p hp with hp | heq
    · exact (hpending p hp).2
    · rw [heq]
  refine ⟨fun _ => ?_, fun ch t hrest => ?_⟩
  · rw [readEnd, ensures_bind]
    refine (extends_closeDocument _).mono fun w f hw => ?_
    obtain ⟨rfl, hw⟩ := hw
    have hclosed := hu.extends hline hw (Cursor.before_refl f)
    rw [ensures_bind, ensures_here, ensures_pure]
    refine ⟨fun k hk hmark => ?_, fun _ heq => by cases heq⟩
    simp only [ForInStep.value, pushEmpty, Context.push, Array.toList_push, List.mem_append,
      List.mem_singleton] at hk ⊢
    rcases hk with hk | rfl
    · exact (hclosed.hasColon k hk hmark).mono fun l hl => List.mem_append_left _ hl
    · cases hmark
  · refine (extends_readAt _ hrest).mono_before fun w f hef hw => ?_
    refine (ensures_dropStale w).mono fun v g hv => ?_
    obtain ⟨rfl, hv, hpending'⟩ := hv
    have hv' := (hu.extends hline hw hef).of_subset (Cursor.before_refl g) hv fun p hp =>
      (hpending' p hp).1
    refine ⟨hv'.hasColon, fun y heq => ?_⟩
    cases heq
    exact hv'

end Context

/-- **Keys without a question mark have their colons.** In every text, a colon stands on the line on
which such a key begins. -/
theorem hasColon_of_scan {s : List Char} {ls : List Lexeme} (h : Lexeme.scan s = .ok ls) :
    ∀ k ∈ ls, k.isKeyMark = true → HasColon s ls k := by
  obtain ⟨x, d, hrun, rfl⟩ := exists_run_of_scan h
  have hstart : Context.start.Lined s (Cursor.ofText s) :=
    ⟨Cursor.before_refl _, by simp [Context.start, Lexeme.isKeyMark], by simp [Context.start]⟩
  have hends : (Scan.iterate Context.read Context.start).Ensures (Cursor.ofText s) fun y _ =>
      ∀ k ∈ y.lexemes.toList, k.isKeyMark = true → HasColon s y.lexemes.toList k :=
    Scan.ensures_iterate (I := fun y c => y.Lined s c) hstart fun y c hy =>
      (Context.lined_read hy).mono fun r d hr => by
        cases r with
        | done z => exact hr.1
        | yield z => exact ⟨hr.1, hr.2 z rfl⟩
  exact hends x d hrun

/-! ### Between a key and its colon -/

/-- Between cursors on one line no line ends, unless a line feed is the next character. -/
lemma Cursor.isBreak_of_line_eq {c : Cursor} {n : Nat}
    (h : (c.forward n).mark.line = c.mark.line) (hnext : (c.forward n).peek 0 ≠ some '\n') :
    ∀ ch ∈ c.rest.take n, isBreak ch = false := by
  induction n generalizing c with
  | zero => simp
  | succ n ih =>
      rcases hrest : c.rest with _ | ⟨ch, t⟩
      · simp
      · have hstep : c.next = ⟨t, c.mark.step ch t⟩ := by
          rw [next]
          split
          · next heq => rw [hrest] at heq; cases heq
          · next heq => rw [hrest] at heq; cases heq; rfl
        rw [forward_succ] at h hnext
        have hle : c.mark.line ≤ c.next.mark.line := line_le_of_before (before_forward c 1)
        have hle' := line_le_of_before (before_forward c.next n)
        have hmore := ih (by omega : (c.next.forward n).mark.line = c.next.mark.line) hnext
        have hline : (c.mark.step ch t).line = c.mark.line := by
          rw [hstep] at hle hle' h
          exact Nat.le_antisymm (h ▸ hle') hle
        rw [hstep] at hmore hnext
        rw [List.take_succ_cons, List.forall_mem_cons]
        refine ⟨?_, hmore⟩
        -- a carriage return ends the line unless a line feed follows it
        have hreturn : ch = '\r' → t.head? ≠ some '\n' := by
          rintro - heq
          obtain ⟨t', rfl⟩ := List.head?_eq_some_iff.mp heq
          cases n with
          | zero => simp [Cursor.peek] at hnext
          | succ n =>
              have := hmore '\n' (by simp)
              cases this
        simp only [Mark.step] at hline
        rw [isBreak, ← Bool.not_eq_true]
        intro hbreak
        rw [if_pos] at hline
        · simp at hline
        · simp only [Bool.or_eq_true, decide_eq_true_eq, Bool.and_eq_true, bne_iff_ne] at hbreak ⊢
          rcases hbreak with (((hbreak | hbreak) | hbreak) | hbreak) | hbreak
          · simp [hbreak]
          · exact .inr ⟨hbreak, hreturn hbreak⟩
          · simp [hbreak]
          · simp [hbreak]
          · simp [hbreak]

section Gaps

variable {s : List Char} {reserved : Bool} {offset : Nat} {ls front back : List Lexeme}
variable {k l u w : Lexeme}

/-- Units that are spaced begin with a character of their own. -/
lemma SpacedFrom.start_of_mem (h : SpacedFrom s reserved offset ls) (hl : l ∈ ls) :
    ∃ ch more, s.drop l.start.index = ch :: more ∧ isBlankOrBreak ch = false := by
  induction h with
  | tail => cases hl
  | unit _ _ start _ ih =>
      rcases List.mem_cons.mp hl with rfl | hl
      · exact start
      · exact ih hl

/-- Between units that are spaced and follow one another stand spaces, line breaks and comments. -/
lemma SpacedFrom.isSpacing (h : SpacedFrom s reserved offset (front ++ u :: w :: back)) :
    IsSpacing u.isReserved ((s.drop u.stop.index).take (w.start.index - u.stop.index)) false := by
  induction front generalizing reserved offset with
  | nil =>
      cases h with
      | unit _ _ _ rest =>
          cases rest with
          | unit _ spacing _ _ => exact spacing
  | cons l front ih =>
      cases h with
      | unit _ _ _ rest => exact ih rest

/-- On one line no comment ends. -/
lemma IsSpacing.sign_not_mem {gap : List Char} (h : IsSpacing reserved gap false)
    (hgap : ∀ ch ∈ gap, isBreak ch = false) : '#' ∉ gap := by
  intro hsign
  obtain ⟨pre, after, rfl⟩ := List.append_of_mem hsign
  have hreads := h.reads
  have hafter : ∀ ch ∈ after, isBreak ch = false := fun ch hch => hgap ch (by simp [hch])
  rw [commentState_append] at hreads
  cases hpre : commentState reserved pre with
  | none => simp [hpre] at hreads
  | some inside => simp [hpre, commentState_sign inside hafter] at hreads

/-- Colons take text. -/
lemma isEmpty_of_value (h : Lexeme.Cover s ls) (hw : w ∈ ls) (hvalue : w.content = .value) :
    w.isEmpty = false := by
  have hsound := h.isSound w hw
  rw [Lexeme.IsSound, hvalue] at hsound
  simpa [Lexeme.isEmpty, Content.isPoint] using hsound

/-- No line ends between the start of a key without a question mark and its colon. -/
lemma exists_inline_of_scan (h : Lexeme.scan s = .ok ls) (hk : k ∈ ls)
    (hmark : k.isKeyMark = true) :
    ∃ w ∈ ls, w.content = .value ∧ k.start.index ≤ w.start.index ∧
      ∀ ch ∈ (s.drop k.start.index).take (w.start.index - k.start.index), isBreak ch = false := by
  obtain ⟨w, hw, hvalue, c, d, hc, ⟨n, rfl⟩, hbegin, hend, hline⟩ := hasColon_of_scan h k hk hmark
  have hrest : c.rest = s.drop k.start.index := by rw [rest_of_ofText hc, hbegin]
  have hindex := Cursor.index_forward c n
  rw [hend, hbegin] at hindex
  refine ⟨w, hw, hvalue, by omega, ?_⟩
  -- the colon is no line feed
  have hnext : (c.forward n).peek 0 ≠ some '\n' := by
    obtain ⟨ch, more, hdrop, hch⟩ := (spacedFrom_of_scan h).start_of_mem
      (List.mem_filter.mpr ⟨hw, by simp [isEmpty_of_value (cover_of_scan h) hw hvalue]⟩)
    rw [Cursor.peek, rest_of_ofText (hc.trans (Cursor.before_forward c n)), hend, hdrop]
    intro heq
    obtain rfl : ch = '\n' := by simpa using heq
    cases hch
  have hall := Cursor.isBreak_of_line_eq hline hnext
  rw [hrest] at hall
  exact fun b hb => hall b (List.take_subset_take_left _ (by omega) hb)

/-- The first colon behind a key without a question mark stands in front of all others that start
behind the key. -/
lemma start_le_of_value {mid : List Lexeme} (h : Lexeme.Cover s ls)
    (hls : ls = front ++ k :: (mid ++ w :: back)) (hk : k.isKeyMark = true)
    (hmid : ∀ l ∈ mid, l.content ≠ .value) (hl : l ∈ ls) (hvalue : l.content = .value)
    (hle : k.start.index ≤ l.start.index) : w.start.index ≤ l.start.index := by
  have hlt : l.start.index < l.stop.index := by
    simpa [Lexeme.isEmpty] using isEmpty_of_value h hl hvalue
  have hord := h.inOrder
  rw [hls, InOrder] at hord
  rw [hls] at hl
  obtain ⟨-, hbehind, hfront⟩ := List.pairwise_append.mp hord
  rcases List.mem_append.mp hl with hl | hl
  · have := hfront l hl k List.mem_cons_self
    omega
  rcases List.mem_cons.mp hl with rfl | hl
  · rw [Lexeme.isKeyMark, hvalue] at hk
    cases hk
  rcases List.mem_append.mp hl with hl | hl
  · exact absurd hvalue (hmid l hl)
  rcases List.mem_cons.mp hl with rfl | hl
  · exact Nat.le_refl _
  · have hback := (List.pairwise_append.mp (List.pairwise_cons.mp hbehind).2).2.1
    have hstop := (List.pairwise_cons.mp hback).1 l hl
    have hsound := (h.isSound w (by simp [hls])).start_le
    omega

/-- **No comment stands between a key and its colon.** Behind a key without a question mark, the gap
in front of the first colon holds no number sign. -/
theorem sign_not_mem_gap {mid : List Lexeme} (h : Lexeme.scan s = .ok ls)
    (hls : ls = front ++ k :: (mid ++ u :: w :: back)) (hk : k.isKeyMark = true)
    (hmid : ∀ l ∈ mid ++ [u], l.content ≠ .value) (hu : u.isEmpty = false)
    (hw : w.content = .value) :
    '#' ∉ (s.drop u.stop.index).take (w.start.index - u.stop.index) := by
  have hcover := cover_of_scan h
  obtain ⟨v, hv, hvalue, hkv, hbreak⟩ := exists_inline_of_scan h (by simp [hls]) hk
  have hfirst : ls = front ++ k :: ((mid ++ [u]) ++ w :: back) := by simp [hls]
  have hwv := start_le_of_value hcover hfirst hk hmid hv hvalue hkv
  have hord := hcover.inOrder
  rw [hls, InOrder] at hord
  obtain ⟨hbehind, hmore⟩ := List.pairwise_cons.mp (List.pairwise_append.mp hord).2.1
  have hku : k.start.index ≤ u.stop.index := by
    have hstop := hbehind u (by simp)
    have hsound := (hcover.isSound k (by simp [hls])).start_le
    have hsound' := (hcover.isSound u (by simp [hls])).start_le
    omega
  have huw : u.stop.index ≤ w.start.index :=
    (List.pairwise_cons.mp (List.pairwise_append.mp hmore).2.1).1 w (by simp)
  have hgap : (s.drop u.stop.index).take (w.start.index - u.stop.index) ⊆
      (s.drop k.start.index).take (v.start.index - k.start.index) := by
    have hdrop : s.drop u.stop.index =
        (s.drop k.start.index).drop (u.stop.index - k.start.index) := by
      rw [List.drop_drop, Nat.add_sub_cancel' hku]
    intro ch hch
    rw [hdrop, List.take_drop] at hch
    exact List.take_subset_take_left _ (by omega) (List.drop_subset _ _ hch)
  -- among the units with text too the colon stands directly behind the unit
  have hspaced := spacedFrom_of_scan h
  have hsplit : ls = (front ++ k :: mid) ++ u :: w :: back := by simp [hls]
  have hwtext := isEmpty_of_value hcover (by simp [hls]) hw
  rw [hsplit, List.filter_append, List.filter_cons_of_pos (by simp [hu]),
    List.filter_cons_of_pos (by simp [hwtext])] at hspaced
  exact hspaced.isSpacing.sign_not_mem fun ch hch => hbreak ch (hgap hch)

end Gaps

end YamlNavigator.Yaml
