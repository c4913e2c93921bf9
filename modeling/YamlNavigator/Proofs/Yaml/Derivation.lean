import YamlNavigator.Proofs.Outcome
import YamlNavigator.Proofs.Yaml.Order
import YamlNavigator.Yaml.Event.Grammar

/-!
Events and the units that they were read from.

* `Content.isOwned`: the units whose tokens belong to nodes: scalars, aliases, anchors and tags;
* `CutAt`: an offset between the units that have been read and those that are left;
* `Announces`: properties in front of a node, and the anchor and the tag that its event has;
* `Derives`: a derivation that a section of the grammar takes events from the front of a list of
  units and leaves others; every node stands directly behind the unit that leads to it;
* `Described`, `described`: what the functions of the grammar read has a derivation.
-/

namespace YamlNavigator.Yaml

/-- The units whose tokens belong to nodes. All others are structure. -/
def Content.isOwned : Content → Bool
  | .scalar _ _ | .reference _ | .anchor _ | .tag _ _ => true
  | _ => false

/-- Units that belong to nodes take text. -/
lemma Lexeme.IsSound.start_lt {l : Lexeme} (h : l.IsSound) (hl : l.content.isOwned = true) :
    l.start.index < l.stop.index := by
  rw [IsSound] at h
  split at h
  · next hpoint =>
      cases hc : l.content <;> rw [hc] at hl hpoint <;> simp [Content.isOwned] at hl <;>
        simp [Content.isPoint] at hpoint
  · split at h
    · next hkey =>
        rw [hkey] at hl
        cases hl
    · exact h

namespace Grammar

/-! ### Derivations -/

/-- The parts of the grammar: a node, the items of a sequence with their end, and the entries of a
mapping with theirs. -/
inductive Part where
  | node
  | items
  | entries
  deriving DecidableEq, Repr

/-- An offset lies behind the units of `L` that have been read, and before those that are left. -/
structure CutAt (L : List Lexeme) (offset : Nat) (ls : List Lexeme) : Prop where
  before : ∀ pre, L = pre ++ ls → ∀ u ∈ pre, u.stop.index ≤ offset
  after : ∀ u ∈ ls, offset ≤ u.start.index

/-- The units `ps` are the properties of a node with an anchor and a tag; with any of them the node
has one or the other, and without them it has neither. An anchor among them is one of the node. -/
structure Announces (ps : List Lexeme) (anchor tag : Option String) : Prop where
  isProperty : ∀ p ∈ ps, p.isProperty = true
  isSome : ps ≠ [] → anchor.isSome = true ∨ tag.isSome = true
  isNone : ps = [] → anchor = none ∧ tag = none
  isAnchored : ∀ p ∈ ps, ∀ name, p.content = .anchor name → anchor.isSome = true

/-- The parts of the grammar, with the value of an entry behind its colon apart from a node, and
with block and flow collections apart from each other. -/
inductive Section where
  | node
  | value
  | items (flow : Bool)
  | entries (flow : Bool)
  deriving DecidableEq, Repr

namespace Section

/-- The part of the grammar that a section is. -/
def part : Section → Part
  | node | value => .node
  | items _ => .items
  | entries _ => .entries

/-- The units around the contents of a collection that lead to no node: the marks of blocks, or the
brackets and commas of flow collections. -/
def frames : Section → Content → Bool
  | items flow, c =>
      match c with
      | .blockSequenceStart | .blockEnd => !flow
      | .flowSequenceStart | .flowSequenceEnd | .flowEntry => flow
      | _ => false
  | entries flow, c =>
      match c with
      | .blockMappingStart | .blockEnd => !flow
      | .flowMappingStart | .flowMappingEnd | .flowEntry => flow
      | _ => false
  | _, _ => false

/-- The unit that ends the contents of a collection. -/
def closer : Section → Content
  | items true => .flowSequenceEnd
  | entries true => .flowMappingEnd
  | _ => .blockEnd

end Section

/-- The units that lead to an item of a sequence: hyphens, or in a flow sequence its bracket and
commas. -/
def leadsItem (flow : Bool) : Content → Bool
  | .blockEntry => !flow
  | .flowSequenceStart | .flowEntry => flow
  | _ => false

/-- The units that lead to a key of a mapping: marks of keys, and in a flow mapping its brace and
commas. -/
def leadsKey (flow : Bool) : Content → Bool
  | .key => true
  | .flowMappingStart | .flowEntry => flow
  | _ => false

/-- The units that a sequence can begin with. -/
def opensSequence : Content → Bool
  | .blockSequenceStart | .flowSequenceStart | .blockEntry => true
  | _ => false

/-- The units that a mapping can begin with, if it is not a pair. -/
def opensMapping : Content → Bool
  | .blockMappingStart | .flowMappingStart => true
  | _ => false

/-- A section of the grammar takes events from the front of the units `ls` of a stream `L` and
leaves `rest`. Every node stands directly behind the unit that leads to it, and a value directly
behind its colon, or where its key ends; the contents of a collection begin with the unit that opens
it. They end with a unit of their own, but for sequences without indentation, which end in front of
what is no hyphen, and for pairs. -/
inductive Derives (L : List Lexeme) :
    Section → List Lexeme → List Event → List Lexeme → Prop
  | reference {l : Lexeme} {ls : List Lexeme} {name : String} (h : l.content = .reference name) :
      Derives L .node (l :: ls) [⟨.reference name, l.start, l.stop⟩] ls
  | scalar {ps ls : List Lexeme} {l : Lexeme} {text : String} {style : ScalarStyle}
      {anchor tag : Option String} (props : Announces ps anchor tag)
      (h : l.content = .scalar text style) :
      Derives L .node (ps ++ l :: ls)
        [⟨.scalar text anchor tag, (front (ps ++ l :: ls)).start, l.stop⟩] ls
  | bare {ps ls : List Lexeme} {l : Lexeme} {anchor tag : Option String}
      (props : Announces (ps ++ [l]) anchor tag) (h : (front ls).isProperty = false) :
      Derives L .node (ps ++ l :: ls)
        [⟨.scalar "" anchor tag, (front (ps ++ l :: ls)).start, l.stop⟩] ls
  | empty {ls : List Lexeme} {m : Mark} (h : CutAt L m.index ls) :
      Derives L .node ls [emptyScalar m] ls
  | sequence {ps ls rest : List Lexeme} {l : Lexeme} {anchor tag : Option String} {flow : Bool}
      {stop : Mark} {es : List Event} (props : Announces ps anchor tag)
      (opens : opensSequence l.content = true) (stop_eq : stop.index = l.stop.index)
      (taken : rest.length ≤ ls.length) (r : Derives L (.items flow) (l :: ls) es rest) :
      Derives L .node (ps ++ l :: ls)
        (⟨.sequenceStart anchor tag flow, (front (ps ++ l :: ls)).start, stop⟩ :: es) rest
  | mapping {ps ls rest : List Lexeme} {l : Lexeme} {anchor tag : Option String} {flow : Bool}
      {stop : Mark} {es : List Event} (props : Announces ps anchor tag)
      (opens : opensMapping l.content = true) (stop_eq : stop.index = l.stop.index)
      (taken : rest.length ≤ ls.length) (r : Derives L (.entries flow) (l :: ls) es rest) :
      Derives L .node (ps ++ l :: ls)
        (⟨.mappingStart anchor tag flow, (front (ps ++ l :: ls)).start, stop⟩ :: es) rest
  | valued {l : Lexeme} {ls rest : List Lexeme} {es : List Event} (h : l.content = .value)
      (node : Derives L .node ls es rest) : Derives L .value (l :: ls) es rest
  | missing {ls : List Lexeme} (h : CutAt L (front ls).start.index ls) :
      Derives L .value ls [emptyScalar (front ls).start] ls
  | frame {s : Section} {l : Lexeme} {ls rest : List Lexeme} {es : List Event}
      (h : s.frames l.content = true) (r : Derives L s ls es rest) : Derives L s (l :: ls) es rest
  | itemsEnd {flow : Bool} {l : Lexeme} {ls : List Lexeme}
      (closes : l.content = (Section.items flow).closer) (h : CutAt L l.stop.index ls) :
      Derives L (.items flow) (l :: ls) [⟨.sequenceEnd, l.start, l.stop⟩] ls
  | itemsStop {ls : List Lexeme} (behind : (front ls).content ≠ .blockEntry)
      (h : CutAt L (front ls).start.index ls) :
      Derives L (.items false) ls [⟨.sequenceEnd, (front ls).start, (front ls).start⟩] ls
  | item {flow : Bool} {lead : Lexeme} {ls mid rest : List Lexeme} {es es' : List Event}
      (leads : leadsItem flow lead.content = true) (node : Derives L .node ls es mid)
      (more : Derives L (.items flow) mid es' rest) :
      Derives L (.items flow) (lead :: ls) (es ++ es') rest
  | pair {lead key : Lexeme} {ls mid rest : List Lexeme} {es es' : List Event}
      (leads : leadsItem true lead.content = true) (h : key.content = .key)
      (taken : mid.length ≤ ls.length) (r : Derives L (.entries true) (key :: ls) es mid)
      (more : Derives L (.items true) mid es' rest) :
      Derives L (.items true) (lead :: key :: ls)
        (⟨.mappingStart none none true, key.start, key.stop⟩ :: es ++ es') rest
  | entriesEnd {flow : Bool} {l : Lexeme} {ls : List Lexeme}
      (closes : l.content = (Section.entries flow).closer) (h : CutAt L l.stop.index ls) :
      Derives L (.entries flow) (l :: ls) [⟨.mappingEnd, l.start, l.stop⟩] ls
  | entriesStop {ls : List Lexeme}
      (behind : (Section.items true).frames (front ls).content = true)
      (h : CutAt L (front ls).start.index ls) :
      Derives L (.entries true) ls [⟨.mappingEnd, (front ls).start, (front ls).start⟩] ls
  | entry {flow : Bool} {lead : Lexeme} {ls mid mid' rest : List Lexeme} {es es' es'' : List Event}
      (leads : leadsKey flow lead.content = true) (key : Derives L .node ls es mid)
      (value : Derives L .value mid es' mid') (more : Derives L (.entries flow) mid' es'' rest) :
      Derives L (.entries flow) (lead :: ls) (es ++ (es' ++ es'')) rest

/-! ### Units that are left -/

/-- A list of units that can be read as a stream: they are in order and sound, and the last one is
the end of the stream, and no other. -/
structure IsStream (L : List Lexeme) : Prop where
  inOrder : InOrder L
  isSound : ∀ l ∈ L, l.IsSound
  last : ∀ l, L.getLast? = some l → l.content = .streamEnd
  ends : ∀ front l back, L = front ++ l :: back → l.content = .streamEnd → back = []

/-- The units of a text can be read as a stream. -/
lemma isStream_of_cover {s : List Char} {ls : List Lexeme} (h : Lexeme.Cover s ls) :
    IsStream ls where
  inOrder := h.inOrder
  isSound := h.isSound
  last l hl := by
    obtain ⟨front, last, rfl, hlast, -, -⟩ := h.streamEnd
    rw [List.getLast?_concat, Option.some_inj] at hl
    rw [← hl, hlast]
  ends pre l back hls hl := by
    obtain ⟨front, last, rfl, -, -, hfront⟩ := h.streamEnd
    rcases List.eq_nil_or_concat back with rfl | ⟨back, k, rfl⟩
    · rfl
    · rw [List.concat_eq_append, ← List.cons_append, ← List.append_assoc] at hls
      have hmem : l ∈ front := by
        rw [List.append_inj_left' hls rfl]
        simp
      exact absurd hl (hfront l hmem)

/-- Units of a stream that are left, the end of the stream among them. -/
structure Left (L ls : List Lexeme) : Prop where
  suffix : ls <:+ L
  ne_nil : ls ≠ []

variable {L ls rest : List Lexeme} {l : Lexeme} {es : List Event}

/-- The unit at the front of a list that has one. -/
@[simp]
lemma front_cons (l : Lexeme) (ls : List Lexeme) : front (l :: ls) = l := rfl

/-- There is a unit at the front of what is left. -/
lemma Left.exists_cons (h : Left L ls) : ∃ l rest, ls = l :: rest :=
  List.exists_cons_of_ne_nil h.ne_nil

/-- Behind a unit that is not the end of the stream something is left. -/
lemma Left.tail (h : Left L (l :: ls)) (hL : IsStream L) (hl : l.content ≠ .streamEnd) :
    Left L ls where
  suffix := (List.suffix_cons l ls).trans h.suffix
  ne_nil := by
    rintro rfl
    obtain ⟨pre, rfl⟩ := h.suffix
    exact hl (hL.last l (by simp))

/-- The start of the first unit that is left lies at the cut before it. -/
lemma Left.cutAt_start (h : Left L ls) (hL : IsStream L) : CutAt L (front ls).start.index ls := by
  obtain ⟨l, rest, rfl⟩ := h.exists_cons
  refine ⟨fun pre hpre u hu => ?_, fun u hu => ?_⟩
  · have hord := hL.inOrder
    rw [InOrder, hpre, List.pairwise_append] at hord
    exact hord.2.2 u hu l List.mem_cons_self
  · have hord := hL.inOrder
    obtain ⟨pre, rfl⟩ := h.suffix
    rw [InOrder, List.pairwise_append, List.pairwise_cons] at hord
    have hl := (hL.isSound l (List.mem_append_right pre List.mem_cons_self)).start_le
    rcases List.mem_cons.mp hu with rfl | hu
    · exact Nat.le_refl _
    · exact Nat.le_trans hl (hord.2.1.1 u hu)

/-- The stop of a unit lies at the cut behind it. -/
lemma Left.cutAt_stop (h : Left L (l :: ls)) (hL : IsStream L) : CutAt L l.stop.index ls := by
  have hord := hL.inOrder
  obtain ⟨pre, rfl⟩ := h.suffix
  rw [InOrder, List.pairwise_append, List.pairwise_cons] at hord
  have hl := (hL.isSound l (List.mem_append_right pre List.mem_cons_self)).start_le
  refine ⟨fun pre' hpre u hu => ?_, hord.2.1.1⟩
  have heq : pre ++ [l] = pre' := by
    rw [← List.singleton_append, ← List.append_assoc] at hpre
    exact List.append_cancel_right hpre
  rw [← heq] at hu
  rcases List.mem_append.mp hu with hu | hu
  · exact Nat.le_trans (hord.2.2 u hu l List.mem_cons_self) hl
  · exact Nat.le_of_eq (by rw [List.mem_singleton.mp hu])

/-- A unit that is left does not stop before it starts. -/
lemma Left.start_le_stop (hL : IsStream L) (h : Left L (l :: ls)) : l.start.index ≤ l.stop.index :=
  (hL.isSound l (h.suffix.subset List.mem_cons_self)).start_le

/-- The next unit stands behind the one in front of it. -/
lemma Left.stop_le_front (hL : IsStream L) (h : Left L (l :: ls)) (hls : Left L ls) :
    l.stop.index ≤ (front ls).start.index := by
  obtain ⟨k, ks, rfl⟩ := hls.exists_cons
  exact (h.cutAt_stop hL).after k List.mem_cons_self

/-- Units at the front start in front of those behind them. -/
lemma Left.front_le (hL : IsStream L) : ∀ {ps ks : List Lexeme}, Left L (ps ++ ks) → Left L ks →
    (front (ps ++ ks)).start.index ≤ (front ks).start.index
  | [], _, _, _ => Nat.le_refl _
  | p :: ps, ks, h, hks => by
      obtain ⟨k, ks, rfl⟩ := hks.exists_cons
      have hle := (h.cutAt_start hL).after k (by simp)
      simpa using hle

/-! ### Properties -/

/-- Events in front of a reading. -/
lemma emit_eq_ok_iff {r : Reading} {es₁ : List Event} :
    emit es₁ r = .ok (es, rest) ↔ ∃ es₂, r = .ok (es₂, rest) ∧ es = es₁ ++ es₂ := by
  rw [emit, Except.map_eq_ok_iff]
  constructor
  · rintro ⟨⟨es₂, rest'⟩, hr, heq⟩
    cases heq
    exact ⟨es₂, hr, rfl⟩
  · rintro ⟨es₂, hr, rfl⟩
    exact ⟨(es₂, rest), hr, rfl⟩

/-- A reading whose events stand in front of those of another. -/
lemma bind_emit_eq_ok {r : Reading} {f : List Lexeme → Reading}
    (h : (do let (es₁, mid) ← r; emit es₁ (f mid)) = .ok (es, rest)) :
    ∃ es₁ mid es₂, r = .ok (es₁, mid) ∧ f mid = .ok (es₂, rest) ∧ es = es₁ ++ es₂ := by
  obtain ⟨⟨es₁, mid⟩, hr, hemit⟩ := Except.bind_eq_ok_iff.mp h
  obtain ⟨es₂, hf, rfl⟩ := emit_eq_ok_iff.mp hemit
  exact ⟨es₁, mid, es₂, hr, hf, rfl⟩

/-- A node may have no properties. -/
lemma announces_nil : Announces [] none none :=
  ⟨by simp, fun h => absurd rfl h, fun _ => ⟨rfl, rfl⟩, by simp⟩

/-- An anchor that is read is the first unit. -/
lemma anchor?_eq_some {name : String} (h : anchor? ls = some (name, l, rest)) :
    ls = l :: rest ∧ l.isProperty = true := by
  unfold anchor? at h
  split at h
  · cases h
    exact ⟨rfl, rfl⟩
  · cases h

/-- A tag that is read is the first unit. -/
lemma tag?_eq_ok_some {t : Tagging} {tag : String} (h : tag? t ls = .ok (some (tag, l, rest))) :
    ls = l :: rest ∧ l.isProperty = true ∧ ∀ name, l.content ≠ .anchor name := by
  unfold tag? at h
  split at h
  · obtain ⟨tag', -, hok⟩ := Except.bind_eq_ok_iff.mp h
    cases hok
    exact ⟨rfl, rfl, fun name hname => by cases hname⟩
  · cases h

/-- The properties that are read are the first units, up to two. They start with the first unit, and
stop with the last of them. -/
lemma properties_eq_ok {t : Tagging} {p : Properties} (h : properties t ls = .ok (p, rest)) :
    ∃ ps, ls = ps ++ rest ∧ Announces ps p.anchor p.tag ∧ p.start = (front ls).start ∧
      (p.anchor.isSome = true ∨ p.tag.isSome = true →
        ∃ qs l, ps = qs ++ [l] ∧ p.stop = l.stop) := by
  rw [properties] at h
  split at h
  · next name a rest₁ ha =>
      obtain ⟨rfl, hprop⟩ := anchor?_eq_some ha
      obtain ⟨tag, htag, hok⟩ := Except.bind_eq_ok_iff.mp h
      rcases tag with _ | ⟨tag, l, rest₂⟩
      · cases hok
        exact ⟨[a], rfl, ⟨by simpa using hprop, fun _ => .inl rfl, by simp, fun _ _ _ _ => rfl⟩, rfl,
          fun _ => ⟨[], a, rfl, rfl⟩⟩
      · obtain ⟨rfl, hprop', -⟩ := tag?_eq_ok_some htag
        cases hok
        exact ⟨[a, l], rfl, ⟨by simp [hprop, hprop'], fun _ => .inl rfl, by simp,
          fun _ _ _ _ => rfl⟩, rfl, fun _ => ⟨[a], l, rfl, rfl⟩⟩
  · obtain ⟨tag, htag, hok⟩ := Except.bind_eq_ok_iff.mp h
    rcases tag with _ | ⟨tag, l, rest₁⟩
    · cases hok
      exact ⟨[], rfl, announces_nil, rfl, fun h => by simp at h⟩
    · obtain ⟨rfl, hprop, hanchor⟩ := tag?_eq_ok_some htag
      dsimp only at hok
      split at hok
      · next name a rest₂ ha =>
          obtain ⟨rfl, hprop'⟩ := anchor?_eq_some ha
          cases hok
          exact ⟨[l, a], rfl, ⟨by simp [hprop, hprop'], fun _ => .inl rfl, by simp,
            fun _ _ _ _ => rfl⟩, rfl, fun _ => ⟨[l], a, rfl, rfl⟩⟩
      · cases hok
        exact ⟨[l], rfl, ⟨by simpa using hprop, fun _ => .inr rfl, by simp, by simp [hanchor]⟩, rfl,
          fun _ => ⟨[], l, rfl, rfl⟩⟩

/-- Behind properties something is left. -/
lemma Left.append {ps : List Lexeme} (hL : IsStream L) (hps : ∀ p ∈ ps, p.isProperty = true)
    (h : Left L (ps ++ ls)) : Left L ls := by
  induction ps with
  | nil => exact h
  | cons p ps ih =>
      refine ih (fun q hq => hps q (List.mem_cons_of_mem p hq)) (h.tail hL ?_)
      intro heq
      have hp := hps p List.mem_cons_self
      rw [Lexeme.isProperty, heq] at hp
      cases hp

/-! ### What the functions of the grammar read -/

/-- Units around the contents of a collection are structure. -/
lemma Section.isOwned_of_frames {s : Section} {c : Content} (h : s.frames c = true) :
    c.isOwned = false := by
  revert h
  cases s <;> cases c <;> simp [frames, Content.isOwned]

/-- The unit that ends a sequence is one around its items. -/
lemma Section.frames_closer_items (flow : Bool) :
    (items flow).frames (items flow).closer = true := by
  cases flow <;> rfl

/-- The unit that ends a mapping is one around its entries. -/
lemma Section.frames_closer_entries (flow : Bool) :
    (entries flow).frames (entries flow).closer = true := by
  cases flow <;> rfl

/-- Units around contents stand around contents of a collection. -/
lemma Section.part_ne_of_frames {s : Section} {c : Content} (h : s.frames c = true) :
    s.part ≠ .node := by
  revert h
  cases s <;> simp [frames, part]

/-- Units that lead to items are structure. -/
lemma isOwned_of_leadsItem {flow : Bool} {c : Content} (h : leadsItem flow c = true) :
    c.isOwned = false := by
  revert h
  cases c <;> simp [leadsItem, Content.isOwned]

/-- Units that lead to keys are structure. -/
lemma isOwned_of_leadsKey {flow : Bool} {c : Content} (h : leadsKey flow c = true) :
    c.isOwned = false := by
  revert h
  cases c <;> simp [leadsKey, Content.isOwned]

/-- A derivation takes units from the front of what is left. -/
lemma Derives.suffix {s : Section} (h : Derives L s ls es rest) : rest <:+ ls := by
  induction h with
  | reference _ => exact List.suffix_cons _ _
  | scalar _ _ | bare _ _ => exact (List.suffix_cons _ _).trans (List.suffix_append _ _)
  | empty _ | missing _ | itemsStop _ _ | entriesStop _ _ => exact List.suffix_refl _
  | sequence _ _ _ _ _ ih | mapping _ _ _ _ _ ih => exact ih.trans (List.suffix_append _ _)
  | valued _ _ ih | frame _ _ ih => exact ih.trans (List.suffix_cons _ _)
  | itemsEnd _ _ | entriesEnd _ _ => exact List.suffix_cons _ _
  | item _ _ _ ih ih' => exact (ih'.trans ih).trans (List.suffix_cons _ _)
  | pair _ _ _ _ _ ih ih' => exact (ih'.trans ih).trans (List.suffix_cons _ _)
  | entry _ _ _ _ ih ih' ih'' =>
      exact ((ih''.trans ih').trans ih).trans (List.suffix_cons _ _)

/-- A derivation leaves no more units than there are. -/
lemma Derives.length_le {s : Section} (h : Derives L s ls es rest) : rest.length ≤ ls.length :=
  h.suffix.length_le

/-- The items of a flow sequence are read up to the comma or the bracket at its front. -/
lemma Derives.frames_front (h : Derives L (.items true) ls es rest) :
    (Section.items true).frames (front ls).content = true := by
  cases h with
  | frame h _ => exact h
  | itemsEnd closes _ =>
      rw [front_cons, closes]
      exact Section.frames_closer_items true
  | item leads _ _ | pair leads _ _ _ _ =>
      rw [front_cons]
      revert leads
      cases Lexeme.content _ <;> simp [leadsItem, Section.frames]

/-- The items of a flow sequence, and those of a sequence without indentation, begin with a unit of
their own. -/
lemma Derives.length_le_of_items {flow : Bool} (h : Derives L (.items flow) (l :: ls) es rest)
    (hl : flow = true ∨ l.content = .blockEntry) : rest.length ≤ ls.length := by
  cases h with
  | frame _ r => exact r.length_le
  | itemsEnd _ _ => exact Nat.le_refl _
  | itemsStop behind _ =>
      rcases hl with hl | hl
      · cases hl
      · exact absurd hl behind
  | item _ node more => exact Nat.le_trans more.length_le node.length_le
  | pair _ _ taken _ more => exact Nat.le_trans more.length_le (Nat.le_succ_of_le taken)

/-- The entries of a flow mapping, and those of a pair, begin with a unit of their own. -/
lemma Derives.length_le_of_entries (h : Derives L (.entries true) (l :: ls) es rest)
    (hl : (Section.items true).frames l.content = false) : rest.length ≤ ls.length := by
  cases h with
  | frame _ r => exact r.length_le
  | entriesEnd _ _ => exact Nat.le_refl _
  | entriesStop behind _ =>
      rw [front_cons, hl] at behind
      cases behind
  | entry _ key value more =>
      exact Nat.le_trans more.length_le (Nat.le_trans value.length_le key.length_le)

/-- No property stands at the front. This holds in front of everything but a node, and so behind
every node. -/
def Clear (ls : List Lexeme) : Prop := (front ls).isProperty = false

/-- Structure is no property. -/
lemma clear_of_isOwned (h : (front ls).content.isOwned = false) : Clear ls := by
  rw [Clear, Lexeme.isProperty]
  revert h
  cases (front ls).content <;> simp [Content.isOwned]

/-- The units of a flow collection from its beginning on, or from behind an entry on. The first
entry stands behind the opening unit. -/
def opened (first : Bool) (opener : Lexeme) (ls : List Lexeme) : List Lexeme :=
  if first then opener :: ls else ls

/-- What the functions of the grammar read with `n` nested calls has a derivation, if no property
stands behind it. -/
structure Described (L : List Lexeme) (n : Nat) : Prop where
  node : ∀ {t place ls es rest}, Left L ls → node t place n ls = .ok (es, rest) →
    Left L rest ∧ (Clear rest → Derives L .node ls es rest)
  blockSequence : ∀ {t ls es rest}, Left L ls → blockSequence t n ls = .ok (es, rest) →
    Left L rest ∧ (Clear rest → Clear ls ∧ Derives L (.items false) ls es rest)
  indentlessSequence : ∀ {t ls es rest}, Left L ls → indentlessSequence t n ls = .ok (es, rest) →
    Left L rest ∧ (Clear rest → Clear ls ∧ Derives L (.items false) ls es rest)
  blockMapping : ∀ {t ls es rest}, Left L ls → blockMapping t n ls = .ok (es, rest) →
    Left L rest ∧ (Clear rest → Clear ls ∧ Derives L (.entries false) ls es rest)
  blockValue : ∀ {t ls es rest}, Left L ls → blockValue t n ls = .ok (es, rest) →
    Left L rest ∧ (Clear rest → Clear ls ∧ ∃ es₁ es₂ mid, es = es₁ ++ es₂ ∧
      Derives L .value ls es₁ mid ∧ Derives L (.entries false) mid es₂ rest)
  flowSequence : ∀ {t first} (opener : Lexeme) {ls es rest}, opener.content = .flowSequenceStart →
    Left L ls → flowSequence t first n ls = .ok (es, rest) →
      Left L rest ∧ (Clear rest → (first = false → Clear ls) ∧
        Derives L (.items true) (opened first opener ls) es rest)
  flowPairKey : ∀ {t key ls es rest}, key.content = .key → Left L ls → CutAt L key.stop.index ls →
    flowPairKey t key n ls = .ok (es, rest) → Left L rest ∧ (Clear rest →
      ∃ es₁ es₂ mid, es = es₁ ++ es₂ ∧ Derives L (.entries true) (key :: ls) es₁ mid ∧
        Derives L (.items true) mid es₂ rest)
  flowPairValue : ∀ {t ls es rest}, Left L ls → flowPairValue t n ls = .ok (es, rest) →
    Left L rest ∧ (Clear rest → Clear ls ∧ ∃ es₁ es₂ es₃ mid, es = es₁ ++ (es₂ ++ es₃) ∧
      Derives L .value ls es₁ mid ∧ Derives L (.entries true) mid es₂ mid ∧
        Derives L (.items true) mid es₃ rest)
  flowMapping : ∀ {t first} (opener : Lexeme) {ls es rest}, opener.content = .flowMappingStart →
    Left L ls → flowMapping t first n ls = .ok (es, rest) →
      Left L rest ∧ (Clear rest → (first = false → Clear ls) ∧
        Derives L (.entries true) (opened first opener ls) es rest)
  flowValue : ∀ {t ls es rest}, Left L ls → flowValue t n ls = .ok (es, rest) →
    Left L rest ∧ (Clear rest → Clear ls ∧ ∃ es₁ es₂ mid, es = es₁ ++ es₂ ∧
      Derives L .value ls es₁ mid ∧ Derives L (.entries true) mid es₂ rest)

namespace Described

variable {t : Tagging} {n : Nat}

/-- Without nested calls nothing is read. -/
lemma zero (L : List Lexeme) : Described L 0 := by
  constructor <;> intros <;> rename_i h <;> cases h

/-- Units of a known kind that is structure are no properties. -/
lemma clear_cons {c : Content} (hl : l.content = c) (hc : c.isOwned = false) : Clear (l :: ls) :=
  clear_of_isOwned (by rw [front_cons, hl, hc])

/-- A unit that ends a sequence. -/
lemma itemsEnd_eq_ok (flow : Bool) (hL : IsStream L) (hleft : Left L ls)
    (hl : (front ls).content = (Section.items flow).closer)
    (h : (pure ([⟨.sequenceEnd, (front ls).start, (front ls).stop⟩], ls.tail) : Reading) =
      .ok (es, rest)) : Left L rest ∧ Derives L (.items flow) ls es rest := by
  obtain ⟨l, ls, rfl⟩ := hleft.exists_cons
  cases h
  have hend : l.content ≠ .streamEnd := hl.trans_ne (by cases flow <;> nofun)
  exact ⟨hleft.tail hL hend, .itemsEnd hl (hleft.cutAt_stop hL)⟩

/-- A unit that ends a mapping. -/
lemma entriesEnd_eq_ok (flow : Bool) (hL : IsStream L) (hleft : Left L ls)
    (hl : (front ls).content = (Section.entries flow).closer)
    (h : (pure ([⟨.mappingEnd, (front ls).start, (front ls).stop⟩], ls.tail) : Reading) =
      .ok (es, rest)) : Left L rest ∧ Derives L (.entries flow) ls es rest := by
  obtain ⟨l, ls, rfl⟩ := hleft.exists_cons
  cases h
  have hend : l.content ≠ .streamEnd := hl.trans_ne (by cases flow <;> nofun)
  exact ⟨hleft.tail hL hend, .entriesEnd hl (hleft.cutAt_stop hL)⟩

/-- The entries of a block sequence. -/
lemma blockSequence_succ (hL : IsStream L) (ih : Described L n) (hleft : Left L ls)
    (h : Grammar.blockSequence t (n + 1) ls = .ok (es, rest)) :
    Left L rest ∧ (Clear rest → Clear ls ∧ Derives L (.items false) ls es rest) := by
  obtain ⟨l, ls, rfl⟩ := hleft.exists_cons
  rw [Grammar.blockSequence, front_cons, List.tail_cons] at h
  split at h
  · next hl =>
      have hclear : Clear (l :: ls) := clear_cons hl rfl
      have hleads : leadsItem false l.content = true := by rw [hl]; rfl
      have hrest := hleft.tail hL (by rw [hl]; simp)
      split at h
      case h_3 =>
          obtain ⟨es₁, mid, es₂, hnode, hmore, rfl⟩ := bind_emit_eq_ok h
          obtain ⟨hmid, hnode⟩ := ih.node hrest hnode
          obtain ⟨hleft', hmore⟩ := ih.blockSequence hmid hmore
          refine ⟨hleft', fun hf => ?_⟩
          obtain ⟨hfmid, hmore⟩ := hmore hf
          exact ⟨hclear, .item hleads (hnode hfmid) hmore⟩
      all_goals
          obtain ⟨es₂, hmore, rfl⟩ := emit_eq_ok_iff.mp h
          obtain ⟨hleft', hmore⟩ := ih.blockSequence hrest hmore
          exact ⟨hleft', fun hf =>
            ⟨hclear, .item hleads (.empty (hleft.cutAt_stop hL)) (hmore hf).2⟩⟩
  · next hl =>
      obtain ⟨hrest, hend⟩ := itemsEnd_eq_ok false hL hleft hl h
      exact ⟨hrest, fun _ => ⟨clear_cons hl rfl, hend⟩⟩
  · cases h

/-- The entries of a sequence that is not indented. -/
lemma indentlessSequence_succ (hL : IsStream L) (ih : Described L n) (hleft : Left L ls)
    (h : Grammar.indentlessSequence t (n + 1) ls = .ok (es, rest)) :
    Left L rest ∧ (Clear rest → Clear ls ∧ Derives L (.items false) ls es rest) := by
  obtain ⟨l, ls, rfl⟩ := hleft.exists_cons
  rw [Grammar.indentlessSequence, front_cons, List.tail_cons] at h
  split at h
  · next hl =>
      have hclear : Clear (l :: ls) := clear_cons hl rfl
      have hleads : leadsItem false l.content = true := by rw [hl]; rfl
      have hrest := hleft.tail hL (by rw [hl]; simp)
      split at h
      case h_5 =>
          obtain ⟨es₁, mid, es₂, hnode, hmore, rfl⟩ := bind_emit_eq_ok h
          obtain ⟨hmid, hnode⟩ := ih.node hrest hnode
          obtain ⟨hleft', hmore⟩ := ih.indentlessSequence hmid hmore
          refine ⟨hleft', fun hf => ?_⟩
          obtain ⟨hfmid, hmore⟩ := hmore hf
          exact ⟨hclear, .item hleads (hnode hfmid) hmore⟩
      all_goals
          obtain ⟨es₂, hmore, rfl⟩ := emit_eq_ok_iff.mp h
          obtain ⟨hleft', hmore⟩ := ih.indentlessSequence hrest hmore
          exact ⟨hleft', fun hf =>
            ⟨hclear, .item hleads (.empty (hleft.cutAt_stop hL)) (hmore hf).2⟩⟩
  · next hl =>
      cases h
      exact ⟨hleft, fun hf => ⟨hf, .itemsStop hl (hleft.cutAt_start hL)⟩⟩

/-- The keys of a block mapping, up to its end. -/
lemma blockMapping_succ (hL : IsStream L) (ih : Described L n) (hleft : Left L ls)
    (h : Grammar.blockMapping t (n + 1) ls = .ok (es, rest)) :
    Left L rest ∧ (Clear rest → Clear ls ∧ Derives L (.entries false) ls es rest) := by
  obtain ⟨l, ls, rfl⟩ := hleft.exists_cons
  rw [Grammar.blockMapping, front_cons, List.tail_cons] at h
  split at h
  · next hl =>
      have hclear : Clear (l :: ls) := clear_cons hl rfl
      have hleads : leadsKey false l.content = true := by rw [hl]; rfl
      have hrest := hleft.tail hL (by rw [hl]; simp)
      split at h
      case h_4 =>
          obtain ⟨es₁, mid, es₂, hnode, hvalue, rfl⟩ := bind_emit_eq_ok h
          obtain ⟨hmid, hnode⟩ := ih.node hrest hnode
          obtain ⟨hleft', hvalue⟩ := ih.blockValue hmid hvalue
          refine ⟨hleft', fun hf => ?_⟩
          obtain ⟨hfmid, es₃, es₄, mid', rfl, hvalue, hmore⟩ := hvalue hf
          exact ⟨hclear, .entry hleads (hnode hfmid) hvalue hmore⟩
      all_goals
          obtain ⟨es₂, hvalue, rfl⟩ := emit_eq_ok_iff.mp h
          obtain ⟨hleft', hvalue⟩ := ih.blockValue hrest hvalue
          refine ⟨hleft', fun hf => ?_⟩
          obtain ⟨-, es₃, es₄, mid', rfl, hvalue, hmore⟩ := hvalue hf
          exact ⟨hclear, .entry hleads (.empty (hleft.cutAt_stop hL)) hvalue hmore⟩
  · next hl =>
      obtain ⟨hrest, hend⟩ := entriesEnd_eq_ok false hL hleft hl h
      exact ⟨hrest, fun _ => ⟨clear_cons hl rfl, hend⟩⟩
  · cases h

/-- The values of a block mapping. -/
lemma blockValue_succ (hL : IsStream L) (ih : Described L n) (hleft : Left L ls)
    (h : Grammar.blockValue t (n + 1) ls = .ok (es, rest)) :
    Left L rest ∧ (Clear rest → Clear ls ∧ ∃ es₁ es₂ mid, es = es₁ ++ es₂ ∧
      Derives L .value ls es₁ mid ∧ Derives L (.entries false) mid es₂ rest) := by
  obtain ⟨l, ls, rfl⟩ := hleft.exists_cons
  rw [Grammar.blockValue, front_cons, List.tail_cons] at h
  split at h
  · next hl =>
      have hclear : Clear (l :: ls) := clear_cons hl rfl
      have hrest := hleft.tail hL (by rw [hl]; simp)
      split at h
      case h_4 =>
          obtain ⟨es₁, mid, es₂, hnode, hmore, rfl⟩ := bind_emit_eq_ok h
          obtain ⟨hmid, hnode⟩ := ih.node hrest hnode
          obtain ⟨hleft', hmore⟩ := ih.blockMapping hmid hmore
          refine ⟨hleft', fun hf => ?_⟩
          obtain ⟨hfmid, hmore⟩ := hmore hf
          exact ⟨hclear, es₁, es₂, mid, rfl, .valued hl (hnode hfmid), hmore⟩
      all_goals
          obtain ⟨es₂, hmore, rfl⟩ := emit_eq_ok_iff.mp h
          obtain ⟨hleft', hmore⟩ := ih.blockMapping hrest hmore
          exact ⟨hleft', fun hf =>
            ⟨hclear, _, es₂, ls, rfl, .valued hl (.empty (hleft.cutAt_stop hL)), (hmore hf).2⟩⟩
  · obtain ⟨es₂, hmore, rfl⟩ := emit_eq_ok_iff.mp h
    obtain ⟨hleft', hmore⟩ := ih.blockMapping hleft hmore
    refine ⟨hleft', fun hf => ?_⟩
    obtain ⟨hclear, hmore⟩ := hmore hf
    exact ⟨hclear, _, es₂, l :: ls, rfl, .missing (hleft.cutAt_start hL), hmore⟩

/-- An entry of a flow collection stands behind the opening unit or a comma. -/
lemma exists_lead {first : Bool} (opener : Lexeme) (hL : IsStream L) (hleft : Left L ls)
    (h : ¬(!first && (front ls).content != .flowEntry) = true) :
    Left L (if first = true then ls else ls.tail) ∧ (first = false → Clear ls) ∧
      ∃ lead, (lead = opener ∨ lead.content = .flowEntry) ∧
        opened first opener ls = lead :: if first = true then ls else ls.tail := by
  obtain ⟨l, ls, rfl⟩ := hleft.exists_cons
  cases first with
  | true => exact ⟨hleft, nofun, opener, .inl rfl, rfl⟩
  | false =>
      have hl : l.content = .flowEntry := by simpa using h
      exact ⟨hleft.tail hL (by rw [hl]; simp), fun _ => clear_cons hl rfl, l, .inr hl, rfl⟩

/-- The items of a flow sequence. -/
lemma flowSequence_succ {first : Bool} {opener : Lexeme}
    (hopener : opener.content = .flowSequenceStart) (hL : IsStream L) (ih : Described L n)
    (hleft : Left L ls) (h : Grammar.flowSequence t first (n + 1) ls = .ok (es, rest)) :
    Left L rest ∧ (Clear rest → (first = false → Clear ls) ∧
      Derives L (.items true) (opened first opener ls) es rest) := by
  rw [Grammar.flowSequence] at h
  split at h
  · next hl =>
      obtain ⟨hrest, hend⟩ := itemsEnd_eq_ok true hL hleft hl h
      refine ⟨hrest, fun _ => ⟨fun _ => clear_of_isOwned (by rw [hl]; rfl), ?_⟩⟩
      cases first with
      | true => exact .frame (by rw [hopener]; rfl) hend
      | false => exact hend
  · dsimp only at h
    split at h
    · obtain ⟨_, hrefuse, -⟩ := Except.bind_eq_ok_iff.mp h
      cases hrefuse
    · next hsep =>
        obtain ⟨hleft', hclear, lead, hlead, hopened⟩ :=
          exists_lead opener hL hleft hsep
        have hleads : leadsItem true lead.content = true ∧
            (Section.items true).frames lead.content = true := by
          rcases hlead with rfl | hlead
          · rw [hopener]
            exact ⟨rfl, rfl⟩
          · rw [hlead]
            exact ⟨rfl, rfl⟩
        rw [hopened]
        generalize (if first = true then ls else ls.tail) = ks at h hleft'
        split at h
        · next hk =>
            obtain ⟨es₂, hpair, rfl⟩ := emit_eq_ok_iff.mp h
            obtain ⟨k, ks, rfl⟩ := hleft'.exists_cons
            rw [front_cons] at hk hpair ⊢
            obtain ⟨hrest, hpair⟩ := ih.flowPairKey hk (hleft'.tail hL (by rw [hk]; simp))
              (hleft'.cutAt_stop hL) hpair
            refine ⟨hrest, fun hf => ⟨hclear, ?_⟩⟩
            obtain ⟨es₃, es₄, mid, rfl, hentries, hmore⟩ := hpair hf
            rw [← List.append_assoc]
            have htaken := hentries.length_le_of_entries (by rw [hk]; rfl)
            exact .pair hleads.1 hk htaken hentries hmore
        · next hk =>
            obtain ⟨hrest, hend⟩ := itemsEnd_eq_ok true hL hleft' hk h
            exact ⟨hrest, fun _ => ⟨hclear, .frame hleads.2 hend⟩⟩
        · obtain ⟨es₁, mid, es₂, hnode, hmore, rfl⟩ := bind_emit_eq_ok h
          obtain ⟨hmid, hnode⟩ := ih.node hleft' hnode
          obtain ⟨hrest, hmore⟩ := ih.flowSequence opener hopener hmid hmore
          refine ⟨hrest, fun hf => ⟨hclear, ?_⟩⟩
          obtain ⟨hfmid, hmore⟩ := hmore hf
          exact .item hleads.1 (hnode (hfmid rfl)) hmore

/-- The key of a pair in a flow sequence. -/
lemma flowPairKey_succ {key : Lexeme} (hk : key.content = .key) (ih : Described L n)
    (hleft : Left L ls) (hkey : CutAt L key.stop.index ls)
    (h : Grammar.flowPairKey t key (n + 1) ls = .ok (es, rest)) :
    Left L rest ∧ (Clear rest → ∃ es₁ es₂ mid, es = es₁ ++ es₂ ∧
      Derives L (.entries true) (key :: ls) es₁ mid ∧ Derives L (.items true) mid es₂ rest) := by
  have hleads : leadsKey true key.content = true := by rw [hk]; rfl
  rw [Grammar.flowPairKey] at h
  split at h
  case h_4 =>
      obtain ⟨es₁, mid, es₂, hnode, hvalue, rfl⟩ := bind_emit_eq_ok h
      obtain ⟨hmid, hnode⟩ := ih.node hleft hnode
      obtain ⟨hleft', hvalue⟩ := ih.flowPairValue hmid hvalue
      refine ⟨hleft', fun hf => ?_⟩
      obtain ⟨hfmid, es₃, es₄, es₅, mid', rfl, hvalue, hend, hmore⟩ := hvalue hf
      exact ⟨es₁ ++ (es₃ ++ es₄), es₅, mid', by simp, .entry hleads (hnode hfmid) hvalue hend,
        hmore⟩
  all_goals
      obtain ⟨es₂, hvalue, rfl⟩ := emit_eq_ok_iff.mp h
      obtain ⟨hleft', hvalue⟩ := ih.flowPairValue hleft hvalue
      refine ⟨hleft', fun hf => ?_⟩
      obtain ⟨-, es₃, es₄, es₅, mid', rfl, hvalue, hend, hmore⟩ := hvalue hf
      exact ⟨[emptyScalar key.stop] ++ (es₃ ++ es₄), es₅, mid', by simp,
        .entry hleads (.empty hkey) hvalue hend, hmore⟩

/-- The value of a pair in a flow sequence. -/
lemma flowPairValue_succ (hL : IsStream L) (ih : Described L n) (hleft : Left L ls)
    (h : Grammar.flowPairValue t (n + 1) ls = .ok (es, rest)) :
    Left L rest ∧ (Clear rest → Clear ls ∧ ∃ es₁ es₂ es₃ mid, es = es₁ ++ (es₂ ++ es₃) ∧
      Derives L .value ls es₁ mid ∧ Derives L (.entries true) mid es₂ mid ∧
        Derives L (.items true) mid es₃ rest) := by
  -- what follows the value, however that was read
  have hmore : ∀ {es₁ mid}, Left L mid → (Clear mid → Clear ls ∧ Derives L .value ls es₁ mid) →
      emit (es₁ ++ [⟨.mappingEnd, (front mid).start, (front mid).start⟩])
        (Grammar.flowSequence t false n mid) = .ok (es, rest) →
      Left L rest ∧ (Clear rest → Clear ls ∧ ∃ es₁ es₂ es₃ mid, es = es₁ ++ (es₂ ++ es₃) ∧
        Derives L .value ls es₁ mid ∧ Derives L (.entries true) mid es₂ mid ∧
          Derives L (.items true) mid es₃ rest) := by
    intro es₁ mid hmid hvalue hemit
    obtain ⟨es₃, hitems, rfl⟩ := emit_eq_ok_iff.mp hemit
    obtain ⟨hrest, hitems⟩ :=
      ih.flowSequence ⟨.flowSequenceStart, Mark.start, Mark.start⟩ rfl hmid hitems
    refine ⟨hrest, fun hf => ?_⟩
    obtain ⟨hfmid, hitems⟩ := hitems hf
    obtain ⟨hclear, hvalue⟩ := hvalue (hfmid rfl)
    exact ⟨hclear, es₁, _, es₃, mid, List.append_assoc _ _ _, hvalue,
      .entriesStop (Derives.frames_front hitems) (hmid.cutAt_start hL), hitems⟩
  obtain ⟨l, ls, rfl⟩ := hleft.exists_cons
  rw [Grammar.flowPairValue, front_cons, List.tail_cons] at h
  split at h
  · next hl =>
      have hclear : Clear (l :: ls) := clear_cons hl rfl
      have hrest := hleft.tail hL (by rw [hl]; simp)
      split at h
      case h_3 =>
          obtain ⟨⟨es₁, mid⟩, hnode, hemit⟩ := Except.bind_eq_ok_iff.mp h
          obtain ⟨hmid, hnode⟩ := ih.node hrest hnode
          exact hmore hmid (fun hf => ⟨hclear, .valued hl (hnode hf)⟩) hemit
      all_goals
          exact hmore hrest (fun _ => ⟨hclear, .valued hl (.empty (hleft.cutAt_stop hL))⟩) h
  · exact hmore hleft (fun hf => ⟨hf, .missing (hleft.cutAt_start hL)⟩) h

/-- The keys of a flow mapping, up to its end. -/
lemma flowMapping_succ {first : Bool} {opener : Lexeme}
    (hopener : opener.content = .flowMappingStart) (hL : IsStream L) (ih : Described L n)
    (hleft : Left L ls) (h : Grammar.flowMapping t first (n + 1) ls = .ok (es, rest)) :
    Left L rest ∧ (Clear rest → (first = false → Clear ls) ∧
      Derives L (.entries true) (opened first opener ls) es rest) := by
  rw [Grammar.flowMapping] at h
  split at h
  · next hl =>
      obtain ⟨hrest, hend⟩ := entriesEnd_eq_ok true hL hleft hl h
      refine ⟨hrest, fun _ => ⟨fun _ => clear_of_isOwned (by rw [hl]; rfl), ?_⟩⟩
      cases first with
      | true => exact .frame (by rw [hopener]; rfl) hend
      | false => exact hend
  · dsimp only at h
    split at h
    · obtain ⟨_, hrefuse, -⟩ := Except.bind_eq_ok_iff.mp h
      cases hrefuse
    · next hsep =>
        obtain ⟨hleft', hclear, lead, hlead, hopened⟩ :=
          exists_lead opener hL hleft hsep
        have hleads : leadsKey true lead.content = true ∧
            (Section.entries true).frames lead.content = true := by
          rcases hlead with rfl | hlead
          · rw [hopener]
            exact ⟨rfl, rfl⟩
          · rw [hlead]
            exact ⟨rfl, rfl⟩
        rw [hopened]
        generalize (if first = true then ls else ls.tail) = ks at h hleft'
        split at h
        · next hk =>
            obtain ⟨k, ks, rfl⟩ := hleft'.exists_cons
            rw [front_cons] at hk
            rw [front_cons, List.tail_cons] at h
            have hleads' : leadsKey true k.content = true := by rw [hk]; rfl
            have hrest := hleft'.tail hL (by rw [hk]; simp)
            split at h
            case h_4 =>
                obtain ⟨es₁, mid, es₂, hnode, hvalue, rfl⟩ := bind_emit_eq_ok h
                obtain ⟨hmid, hnode⟩ := ih.node hrest hnode
                obtain ⟨hrest', hvalue⟩ := ih.flowValue hmid hvalue
                refine ⟨hrest', fun hf => ⟨hclear, ?_⟩⟩
                obtain ⟨hfmid, es₃, es₄, mid', rfl, hvalue, hmore⟩ := hvalue hf
                exact .frame hleads.2 (.entry hleads' (hnode hfmid) hvalue hmore)
            all_goals
                obtain ⟨es₂, hvalue, rfl⟩ := emit_eq_ok_iff.mp h
                obtain ⟨hrest', hvalue⟩ := ih.flowValue hrest hvalue
                refine ⟨hrest', fun hf => ⟨hclear, ?_⟩⟩
                obtain ⟨-, es₃, es₄, mid', rfl, hvalue, hmore⟩ := hvalue hf
                exact .frame hleads.2
                  (.entry hleads' (.empty (hleft'.cutAt_stop hL)) hvalue hmore)
        · next hk =>
            obtain ⟨hrest, hend⟩ := entriesEnd_eq_ok true hL hleft' hk h
            exact ⟨hrest, fun _ => ⟨hclear, .frame hleads.2 hend⟩⟩
        · obtain ⟨⟨es₁, mid⟩, hnode, hemit⟩ := Except.bind_eq_ok_iff.mp h
          obtain ⟨es₂, hmore, rfl⟩ := emit_eq_ok_iff.mp hemit
          obtain ⟨hmid, hnode⟩ := ih.node hleft' hnode
          obtain ⟨hrest, hmore⟩ := ih.flowMapping opener hopener hmid hmore
          refine ⟨hrest, fun hf => ⟨hclear, ?_⟩⟩
          obtain ⟨hfmid, hmore⟩ := hmore hf
          rw [List.append_assoc]
          exact .entry hleads.1 (hnode (hfmid rfl)) (.missing (hmid.cutAt_start hL)) hmore

/-- The values of a flow mapping. -/
lemma flowValue_succ (hL : IsStream L) (ih : Described L n) (hleft : Left L ls)
    (h : Grammar.flowValue t (n + 1) ls = .ok (es, rest)) :
    Left L rest ∧ (Clear rest → Clear ls ∧ ∃ es₁ es₂ mid, es = es₁ ++ es₂ ∧
      Derives L .value ls es₁ mid ∧ Derives L (.entries true) mid es₂ rest) := by
  -- the entries behind the value
  have hbehind : ∀ {mid es rest}, Left L mid → Grammar.flowMapping t false n mid = .ok (es, rest) →
      Left L rest ∧ (Clear rest → (false = false → Clear mid) ∧
        Derives L (.entries true) mid es rest) :=
    ih.flowMapping ⟨.flowMappingStart, Mark.start, Mark.start⟩ rfl
  obtain ⟨l, ls, rfl⟩ := hleft.exists_cons
  rw [Grammar.flowValue, front_cons, List.tail_cons] at h
  split at h
  · next hl =>
      have hclear : Clear (l :: ls) := clear_cons hl rfl
      have hrest := hleft.tail hL (by rw [hl]; simp)
      split at h
      case h_3 =>
          obtain ⟨es₁, mid, es₂, hnode, hmore, rfl⟩ := bind_emit_eq_ok h
          obtain ⟨hmid, hnode⟩ := ih.node hrest hnode
          obtain ⟨hleft', hmore⟩ := hbehind hmid hmore
          refine ⟨hleft', fun hf => ?_⟩
          obtain ⟨hfmid, hmore⟩ := hmore hf
          exact ⟨hclear, es₁, es₂, mid, rfl, .valued hl (hnode (hfmid rfl)), hmore⟩
      all_goals
          obtain ⟨es₂, hmore, rfl⟩ := emit_eq_ok_iff.mp h
          obtain ⟨hleft', hmore⟩ := hbehind hrest hmore
          exact ⟨hleft', fun hf =>
            ⟨hclear, _, es₂, ls, rfl, .valued hl (.empty (hleft.cutAt_stop hL)), (hmore hf).2⟩⟩
  · obtain ⟨es₂, hmore, rfl⟩ := emit_eq_ok_iff.mp h
    obtain ⟨hleft', hmore⟩ := hbehind hleft hmore
    refine ⟨hleft', fun hf => ?_⟩
    obtain ⟨hclear, hmore⟩ := hmore hf
    exact ⟨hclear rfl, _, es₂, l :: ls, rfl, .missing (hleft.cutAt_start hL), hmore⟩

/-- A sequence that begins with a unit of its own. -/
lemma sequence_eq_ok {r : Reading} {ps : List Lexeme} {anchor tag : Option String} {flow : Bool}
    {m : Mark} (hL : IsStream L) (hprops : Announces ps anchor tag) (hleft : Left L (l :: ls))
    (hopens : opensSequence l.content = true) (hend : l.content ≠ .streamEnd)
    (hstop : m.index = l.stop.index)
    (hr : ∀ {es rest}, Left L ls → r = .ok (es, rest) →
      Left L rest ∧ (Clear rest →
        rest.length ≤ ls.length ∧ Derives L (.items flow) (l :: ls) es rest))
    (h : emit [⟨.sequenceStart anchor tag flow, (front (ps ++ l :: ls)).start, m⟩] r =
      .ok (es, rest)) : Left L rest ∧ (Clear rest → Derives L .node (ps ++ l :: ls) es rest) := by
  obtain ⟨es₂, hmore, rfl⟩ := emit_eq_ok_iff.mp h
  obtain ⟨hrest, hitems⟩ := hr (hleft.tail hL hend) hmore
  exact ⟨hrest, fun hf => .sequence hprops hopens hstop (hitems hf).1 (hitems hf).2⟩

/-- A mapping that begins with a unit of its own. -/
lemma mapping_eq_ok {r : Reading} {ps : List Lexeme} {anchor tag : Option String} {flow : Bool}
    {m : Mark} (hL : IsStream L) (hprops : Announces ps anchor tag) (hleft : Left L (l :: ls))
    (hopens : opensMapping l.content = true) (hend : l.content ≠ .streamEnd)
    (hstop : m.index = l.stop.index)
    (hr : ∀ {es rest}, Left L ls → r = .ok (es, rest) →
      Left L rest ∧ (Clear rest →
        rest.length ≤ ls.length ∧ Derives L (.entries flow) (l :: ls) es rest))
    (h : emit [⟨.mappingStart anchor tag flow, (front (ps ++ l :: ls)).start, m⟩] r =
      .ok (es, rest)) : Left L rest ∧ (Clear rest → Derives L .node (ps ++ l :: ls) es rest) := by
  obtain ⟨es₂, hmore, rfl⟩ := emit_eq_ok_iff.mp h
  obtain ⟨hrest, hentries⟩ := hr (hleft.tail hL hend) hmore
  exact ⟨hrest, fun hf => .mapping hprops hopens hstop (hentries hf).1 (hentries hf).2⟩

/-- A node. -/
lemma node_succ {place : Place} (hL : IsStream L) (ih : Described L n) (hleft : Left L ls)
    (h : Grammar.node t place (n + 1) ls = .ok (es, rest)) :
    Left L rest ∧ (Clear rest → Derives L .node ls es rest) := by
  unfold Grammar.node at h
  split at h
  · cases h
    exact ⟨hleft.tail hL (by simp), fun _ => .reference rfl⟩
  · obtain ⟨⟨p, ks⟩, hprops, hok⟩ := Except.bind_eq_ok_iff.mp h
    obtain ⟨ps, rfl, hannounces, hstart, hstop⟩ := properties_eq_ok hprops
    have hks := hleft.append hL hannounces.isProperty
    obtain ⟨k, ks, rfl⟩ := hks.exists_cons
    dsimp only at hok
    rw [front_cons, List.tail_cons] at hok
    rw [hstart] at hok
    -- the mark of a block takes no text
    have hpoint : k.content.isPoint = true → k.start.index = k.stop.index := by
      intro hp
      have hsound := hL.isSound k (hks.suffix.subset List.mem_cons_self)
      rw [Lexeme.IsSound, if_pos hp] at hsound
      exact congrArg Mark.index hsound.symm
    -- the contents of a block collection stand behind its mark
    have hblock : ∀ (s : Section) {r : Reading}, s.frames k.content = true →
        (∀ {es rest}, Left L ks → r = .ok (es, rest) →
          Left L rest ∧ (Clear rest → Clear ks ∧ Derives L s ks es rest)) →
        ∀ {es rest}, Left L ks → r = .ok (es, rest) →
          Left L rest ∧ (Clear rest → rest.length ≤ ks.length ∧ Derives L s (k :: ks) es rest) := by
      intro s r hframes hr es rest hleft hok
      obtain ⟨hrest, hderives⟩ := hr hleft hok
      exact ⟨hrest, fun hf => ⟨(hderives hf).2.length_le, .frame hframes (hderives hf).2⟩⟩
    split at hok
    · next hk =>
        obtain ⟨es₂, hmore, rfl⟩ := emit_eq_ok_iff.mp hok
        obtain ⟨hrest, hitems⟩ := ih.indentlessSequence hks hmore
        refine ⟨hrest, fun hf => ?_⟩
        obtain ⟨-, hitems⟩ := hitems hf
        have htaken := hitems.length_le_of_items (.inr hk)
        exact .sequence hannounces (by rw [hk]; rfl) rfl htaken hitems
    · next text style hk =>
        cases hok
        exact ⟨hks.tail hL (by rw [hk]; simp), fun _ => .scalar hannounces hk⟩
    · next hk =>
        refine sequence_eq_ok hL hannounces hks (by rw [hk]; rfl) (by rw [hk]; simp) rfl
          (fun hleft hok => ?_) hok
        obtain ⟨hrest, hitems⟩ := ih.flowSequence k hk hleft hok
        refine ⟨hrest, fun hf => ?_⟩
        obtain ⟨-, hitems⟩ := hitems hf
        exact ⟨hitems.length_le_of_items (.inl rfl), hitems⟩
    · next hk =>
        refine mapping_eq_ok hL hannounces hks (by rw [hk]; rfl) (by rw [hk]; simp) rfl
          (fun hleft hok => ?_) hok
        obtain ⟨hrest, hentries⟩ := ih.flowMapping k hk hleft hok
        refine ⟨hrest, fun hf => ?_⟩
        obtain ⟨-, hentries⟩ := hentries hf
        exact ⟨hentries.length_le_of_entries (by rw [hk]; rfl), hentries⟩
    · next hk =>
        exact sequence_eq_ok hL hannounces hks (by rw [hk]; rfl) (by rw [hk]; simp)
          (hpoint (by rw [hk]; rfl)) (hblock (.items false) (by rw [hk]; rfl) ih.blockSequence) hok
    · next hk =>
        exact sequence_eq_ok hL hannounces hks (by rw [hk]; rfl) (by rw [hk]; simp)
          (hpoint (by rw [hk]; rfl)) (hblock (.items false) (by rw [hk]; rfl) ih.blockSequence) hok
    · next hk =>
        exact mapping_eq_ok hL hannounces hks (by rw [hk]; rfl) (by rw [hk]; simp)
          (hpoint (by rw [hk]; rfl)) (hblock (.entries false) (by rw [hk]; rfl) ih.blockMapping) hok
    · next hk =>
        exact mapping_eq_ok hL hannounces hks (by rw [hk]; rfl) (by rw [hk]; simp)
          (hpoint (by rw [hk]; rfl)) (hblock (.entries false) (by rw [hk]; rfl) ih.blockMapping) hok
    · split at hok
      · next hsome =>
          cases hok
          obtain ⟨qs, l, rfl, hlast⟩ := hstop (by simpa using hsome)
          rw [hlast, List.append_assoc, List.singleton_append]
          exact ⟨hks, fun hf => .bare hannounces hf⟩
      · cases hok

end Described

/-- **What the grammar reads has a derivation.** -/
theorem described (hL : IsStream L) (n : Nat) : Described L n := by
  induction n with
  | zero => exact Described.zero L
  | succ n ih =>
      exact {
        node := Described.node_succ hL ih
        blockSequence := Described.blockSequence_succ hL ih
        indentlessSequence := Described.indentlessSequence_succ hL ih
        blockMapping := Described.blockMapping_succ hL ih
        blockValue := Described.blockValue_succ hL ih
        flowSequence := fun {_ _} _ {_ _ _} hopener => Described.flowSequence_succ hopener hL ih
        flowPairKey := fun hk => Described.flowPairKey_succ hk ih
        flowPairValue := Described.flowPairValue_succ hL ih
        flowMapping := fun {_ _} _ {_ _ _} hopener => Described.flowMapping_succ hopener hL ih
        flowValue := Described.flowValue_succ hL ih }

end Grammar

end YamlNavigator.Yaml
