import YamlNavigator.Proofs.Yaml.Division
import YamlNavigator.Proofs.Yaml.MirrorStream

/-!
The grammar does not look at the places of units: events stand where their units do.

* `Event.mapMarks`, `Event.moveAll`: an event that is moved to other places, and the events of a
  stream, of which all but the start of the stream are moved;
* `Grammar.Carries`: a reading of moved units that answers moved events wherever another reading
  answers events;
* `Grammar.Carried`, `Grammar.carried`: the functions of the grammar carry over, at every bound on
  nested calls;
* `ofLexemes_moveAll`, `ofLexemes_text`: moved units have moved events, those of a spelled text
  among them.
-/

namespace YamlNavigator.Yaml

/-- An event with its marks changed by a function. -/
def Event.mapMarks (f : Mark → Mark) (e : Event) : Event :=
  { e with start := f e.start, stop := f e.stop }

/-- The events of a stream with the marks of all but the first one, the start of the stream, changed
by a function. -/
def Event.moveAll (f : Mark → Mark) : List Event → List Event
  | [] => []
  | e :: es => e :: es.map (mapMarks f)

namespace Grammar

variable {f : Mark → Mark} {L ls rest : List Lexeme} {l : Lexeme} {es : List Event} {t : Tagging}

/-- What a unit is does not change when it is moved. -/
@[simp]
lemma content_mapMarks (f : Mark → Mark) (l : Lexeme) : (l.mapMarks f).content = l.content := rfl

/-- The unit at the front of what is left is moved. -/
lemma Left.front_map (h : Left L ls) :
    front (ls.map (Lexeme.mapMarks f)) = (front ls).mapMarks f := by
  obtain ⟨l, rest, rfl⟩ := h.exists_cons
  rfl

/-! ### Readings that carry over -/

/-- Wherever the reading `r` answers events and leaves units of the stream `L`, the reading `r'`
answers them moved. -/
def Carries (f : Mark → Mark) (L : List Lexeme) (r r' : Reading) : Prop :=
  ∀ es rest, r = .ok (es, rest) →
    Left L rest ∧ r' = .ok (es.map (Event.mapMarks f), rest.map (Lexeme.mapMarks f))

variable {r r' : Reading}

/-- A refusal carries over to anything. -/
lemma carries_refuse {cause : Content → Problem} : Carries f L (refuse cause ls) r' := nofun

/-- What would come behind a refusal does not matter. -/
lemma carries_refuse_bind {α : Type} {cause : Content → Problem} {k : α → Reading} :
    Carries f L (refuse cause ls >>= k) r' := nofun

/-- Events that are answered outright. -/
lemma carries_pure {es' : List Event} {rest' : List Lexeme} (h : Left L rest)
    (hes : es' = es.map (Event.mapMarks f)) (hrest : rest' = rest.map (Lexeme.mapMarks f)) :
    Carries f L (pure (es, rest)) (pure (es', rest')) := by
  rintro _ _ ⟨⟩
  exact ⟨h, by rw [hes, hrest]; rfl⟩

/-- Events in front of a reading. -/
lemma Carries.emit {es' : List Event} (h : Carries f L r r')
    (hes : es' = es.map (Event.mapMarks f)) :
    Carries f L (Grammar.emit es r) (Grammar.emit es' r') := by
  intro es₁ rest hemit
  obtain ⟨es₂, hr, rfl⟩ := emit_eq_ok_iff.mp hemit
  obtain ⟨hrest, hr'⟩ := h es₂ rest hr
  exact ⟨hrest, emit_eq_ok_iff.mpr ⟨_, hr', by rw [hes, List.map_append]⟩⟩

/-- A reading and one that goes on where it stops. -/
lemma Carries.bind {k k' : List Event × List Lexeme → Reading} (h : Carries f L r r')
    (hk : ∀ es rest, Left L rest → Carries f L (k (es, rest))
      (k' (es.map (Event.mapMarks f), rest.map (Lexeme.mapMarks f)))) :
    Carries f L (r >>= k) (r' >>= k') := by
  intro es rest hbind
  obtain ⟨⟨es₁, mid⟩, hr, hrun⟩ := Except.bind_eq_ok_iff.mp hbind
  obtain ⟨hmid, hr'⟩ := h es₁ mid hr
  obtain ⟨hrest, hrun'⟩ := hk es₁ mid hmid es rest hrun
  exact ⟨hrest, Except.bind_eq_ok_iff.mpr ⟨_, hr', hrun'⟩⟩

/-- A reading whose events stand in front of those of another. -/
lemma Carries.bind_emit {k k' : List Lexeme → Reading} (h : Carries f L r r')
    (hk : ∀ rest, Left L rest → Carries f L (k rest) (k' (rest.map (Lexeme.mapMarks f)))) :
    Carries f L (do let (es, rest) ← r; Grammar.emit es (k rest))
      (do let (es, rest) ← r'; Grammar.emit es (k' rest)) :=
  h.bind fun _ rest hrest => (hk rest hrest).emit rfl

/-! ### Properties -/

/-- An anchor is read from a moved unit. -/
lemma anchor?_map (ls : List Lexeme) : anchor? (ls.map (Lexeme.mapMarks f)) =
    (anchor? ls).map fun p => (p.1, p.2.1.mapMarks f, p.2.2.map (Lexeme.mapMarks f)) := by
  rcases ls with _ | ⟨⟨c, start, stop⟩, ls⟩
  · rfl
  · cases c <;> rfl

/-- A handle that is known is known at every place. -/
lemma Tagging.resolve_eq_ok {handle : Option String} {suffix tag : String} {m : Mark}
    (h : t.resolve handle suffix m = .ok tag) (m' : Mark) :
    t.resolve handle suffix m' = .ok tag := by
  unfold resolve at h ⊢
  split at h
  · exact h
  · split at h
    · exact h
    · cases h

/-- A tag is read from a moved unit. -/
lemma tag?_map {o : Option (String × Lexeme × List Lexeme)} (h : tag? t ls = .ok o) :
    tag? t (ls.map (Lexeme.mapMarks f)) =
      .ok (o.map fun p => (p.1, p.2.1.mapMarks f, p.2.2.map (Lexeme.mapMarks f))) := by
  rcases ls with _ | ⟨⟨c, start, stop⟩, ls⟩
  · cases h
    rfl
  · cases c with
    | tag handle suffix =>
        obtain ⟨tag, htag, hok⟩ := Except.bind_eq_ok_iff.mp h
        cases hok
        exact Except.bind_eq_ok_iff.mpr ⟨tag, Tagging.resolve_eq_ok htag _, rfl⟩
    | _ =>
        cases h
        rfl

/-- Properties with their marks changed by a function. -/
def Properties.mapMarks (f : Mark → Mark) (p : Properties) : Properties :=
  { p with start := f p.start, stop := f p.stop }

/-- The properties of a node are read from moved units. -/
lemma properties_map (hL : IsStream L) (hleft : Left L ls) {p : Properties}
    (h : properties t ls = .ok (p, rest)) : Left L rest ∧
      properties t (ls.map (Lexeme.mapMarks f)) =
        .ok (p.mapMarks f, rest.map (Lexeme.mapMarks f)) := by
  obtain ⟨ps, hls, hannounces, -, -⟩ := properties_eq_ok h
  refine ⟨(hls ▸ hleft).append hL hannounces.isProperty, ?_⟩
  rw [properties] at h ⊢
  rw [anchor?_map]
  cases ha : anchor? ls with
  | some a =>
      rw [ha] at h
      obtain ⟨o, ho, hok⟩ := Except.bind_eq_ok_iff.mp h
      refine Except.bind_eq_ok_iff.mpr ⟨_, tag?_map ho, ?_⟩
      cases o <;> cases hok <;> rfl
  | none =>
      rw [ha] at h
      obtain ⟨o, ho, hok⟩ := Except.bind_eq_ok_iff.mp h
      refine Except.bind_eq_ok_iff.mpr ⟨_, tag?_map ho, ?_⟩
      cases o with
      | none =>
          cases hok
          simp only [Option.map_none, hleft.front_map]
          rfl
      | some o =>
          simp only [Option.map_some, anchor?_map]
          dsimp only at hok
          cases hb : anchor? o.2.2 <;> rw [hb] at hok <;> cases hok <;> rfl

/-- A reading behind the properties of a node. -/
lemma carries_properties {k k' : Properties × List Lexeme → Reading} (hL : IsStream L)
    (hleft : Left L ls) (hk : ∀ p ks, Left L ks →
      Carries f L (k (p, ks)) (k' (p.mapMarks f, ks.map (Lexeme.mapMarks f)))) :
    Carries f L (properties t ls >>= k) (properties t (ls.map (Lexeme.mapMarks f)) >>= k') := by
  intro es rest h
  obtain ⟨⟨p, ks⟩, hprops, hok⟩ := Except.bind_eq_ok_iff.mp h
  obtain ⟨hks, hprops'⟩ := properties_map (f := f) hL hleft hprops
  obtain ⟨hrest, hok'⟩ := hk p ks hks es rest hok
  exact ⟨hrest, Except.bind_eq_ok_iff.mpr ⟨_, hprops', hok'⟩⟩

/-! ### Nodes -/

/-- The functions of the grammar with `n` nested calls carry over to moved units. -/
structure Carried (f : Mark → Mark) (L : List Lexeme) (n : Nat) : Prop where
  node : ∀ {t place ls}, Left L ls →
    Carries f L (node t place n ls) (node t place n (ls.map (Lexeme.mapMarks f)))
  blockSequence : ∀ {t ls}, Left L ls →
    Carries f L (blockSequence t n ls) (blockSequence t n (ls.map (Lexeme.mapMarks f)))
  indentlessSequence : ∀ {t ls}, Left L ls →
    Carries f L (indentlessSequence t n ls) (indentlessSequence t n (ls.map (Lexeme.mapMarks f)))
  blockMapping : ∀ {t ls}, Left L ls →
    Carries f L (blockMapping t n ls) (blockMapping t n (ls.map (Lexeme.mapMarks f)))
  blockValue : ∀ {t ls}, Left L ls →
    Carries f L (blockValue t n ls) (blockValue t n (ls.map (Lexeme.mapMarks f)))
  flowSequence : ∀ {t first ls}, Left L ls →
    Carries f L (flowSequence t first n ls) (flowSequence t first n (ls.map (Lexeme.mapMarks f)))
  flowPairKey : ∀ {t key ls}, Left L ls → Carries f L (flowPairKey t key n ls)
    (flowPairKey t (key.mapMarks f) n (ls.map (Lexeme.mapMarks f)))
  flowPairValue : ∀ {t ls}, Left L ls →
    Carries f L (flowPairValue t n ls) (flowPairValue t n (ls.map (Lexeme.mapMarks f)))
  flowMapping : ∀ {t first ls}, Left L ls →
    Carries f L (flowMapping t first n ls) (flowMapping t first n (ls.map (Lexeme.mapMarks f)))
  flowValue : ∀ {t ls}, Left L ls →
    Carries f L (flowValue t n ls) (flowValue t n (ls.map (Lexeme.mapMarks f)))

namespace Carried

variable {n : Nat}

/-- Without nested calls nothing is read. -/
lemma zero (f : Mark → Mark) (L : List Lexeme) : Carried f L 0 := by
  constructor <;> intros <;> exact carries_refuse

/-- Behind a unit of a kind that does not end the stream something is left. -/
lemma left_of_content {c : Content} (hL : IsStream L) (hleft : Left L (l :: ls))
    (hl : l.content = c) (hc : c ≠ .streamEnd) : Left L ls :=
  hleft.tail hL (hl ▸ hc)

/-- The entries of a block sequence. -/
lemma blockSequence_succ (hL : IsStream L) (ih : Carried f L n) (hleft : Left L ls) :
    Carries f L (Grammar.blockSequence t (n + 1) ls)
      (Grammar.blockSequence t (n + 1) (ls.map (Lexeme.mapMarks f))) := by
  obtain ⟨l, ls, rfl⟩ := hleft.exists_cons
  simp only [Grammar.blockSequence, List.map_cons, front_cons, List.tail_cons, content_mapMarks]
  split
  · next hl =>
      have hrest := left_of_content hL hleft hl (by simp)
      rw [hrest.front_map, content_mapMarks]
      split
      · exact (ih.blockSequence hrest).emit rfl
      · exact (ih.blockSequence hrest).emit rfl
      · exact (ih.node hrest).bind_emit fun _ => ih.blockSequence
  · next hl => exact carries_pure (left_of_content hL hleft hl (by simp)) rfl rfl
  · exact carries_refuse

/-- The entries of a sequence that is not indented. -/
lemma indentlessSequence_succ (hL : IsStream L) (ih : Carried f L n) (hleft : Left L ls) :
    Carries f L (Grammar.indentlessSequence t (n + 1) ls)
      (Grammar.indentlessSequence t (n + 1) (ls.map (Lexeme.mapMarks f))) := by
  obtain ⟨l, ls, rfl⟩ := hleft.exists_cons
  simp only [Grammar.indentlessSequence, List.map_cons, front_cons, List.tail_cons,
    content_mapMarks]
  split
  · next hl =>
      have hrest := left_of_content hL hleft hl (by simp)
      rw [hrest.front_map, content_mapMarks]
      split
      case h_5 => exact (ih.node hrest).bind_emit fun _ => ih.indentlessSequence
      all_goals exact (ih.indentlessSequence hrest).emit rfl
  · exact carries_pure hleft rfl rfl

/-- The keys of a block mapping, up to its end. -/
lemma blockMapping_succ (hL : IsStream L) (ih : Carried f L n) (hleft : Left L ls) :
    Carries f L (Grammar.blockMapping t (n + 1) ls)
      (Grammar.blockMapping t (n + 1) (ls.map (Lexeme.mapMarks f))) := by
  obtain ⟨l, ls, rfl⟩ := hleft.exists_cons
  simp only [Grammar.blockMapping, List.map_cons, front_cons, List.tail_cons, content_mapMarks]
  split
  · next hl =>
      have hrest := left_of_content hL hleft hl (by simp)
      rw [hrest.front_map, content_mapMarks]
      split
      case h_4 => exact (ih.node hrest).bind_emit fun _ => ih.blockValue
      all_goals exact (ih.blockValue hrest).emit rfl
  · next hl => exact carries_pure (left_of_content hL hleft hl (by simp)) rfl rfl
  · exact carries_refuse

/-- The values of a block mapping. -/
lemma blockValue_succ (hL : IsStream L) (ih : Carried f L n) (hleft : Left L ls) :
    Carries f L (Grammar.blockValue t (n + 1) ls)
      (Grammar.blockValue t (n + 1) (ls.map (Lexeme.mapMarks f))) := by
  obtain ⟨l, ls, rfl⟩ := hleft.exists_cons
  have hmissing := ih.blockMapping (t := t) hleft
  rw [List.map_cons] at hmissing
  simp only [Grammar.blockValue, List.map_cons, front_cons, List.tail_cons, content_mapMarks]
  split
  · next hl =>
      have hrest := left_of_content hL hleft hl (by simp)
      rw [hrest.front_map, content_mapMarks]
      split
      case h_4 => exact (ih.node hrest).bind_emit fun _ => ih.blockMapping
      all_goals exact (ih.blockMapping hrest).emit rfl
  · exact hmissing.emit rfl

/-- The entry of a flow collection that is behind a comma, or is the first one. -/
lemma left_entry {first : Bool} (hL : IsStream L) (hleft : Left L ls)
    (h : ¬(!first && (front ls).content != .flowEntry) = true) :
    Left L (if first = true then ls else ls.tail) :=
  (Described.exists_lead ⟨.flowEntry, Mark.start, Mark.start⟩ hL hleft h).1

/-- The items of a flow sequence. -/
lemma flowSequence_succ {first : Bool} (hL : IsStream L) (ih : Carried f L n) (hleft : Left L ls) :
    Carries f L (Grammar.flowSequence t first (n + 1) ls)
      (Grammar.flowSequence t first (n + 1) (ls.map (Lexeme.mapMarks f))) := by
  simp only [Grammar.flowSequence, hleft.front_map, content_mapMarks]
  split
  · next hl =>
      obtain ⟨l, ls, rfl⟩ := hleft.exists_cons
      exact carries_pure (left_of_content hL hleft hl (by simp)) rfl rfl
  · split
    · exact carries_refuse_bind
    · next hsep =>
        have hleft' := left_entry hL hleft hsep
        rw [← List.map_tail, ← apply_ite (List.map (Lexeme.mapMarks f))]
        generalize (if first = true then ls else ls.tail) = ks at hleft' ⊢
        obtain ⟨k, ks, rfl⟩ := hleft'.exists_cons
        have hitem : Carries f L (Grammar.node t .flow n (k :: ks)) _ := ih.node hleft'
        rw [List.map_cons] at hitem ⊢
        simp only [front_cons, List.tail_cons, content_mapMarks]
        split
        · next hk =>
            exact (ih.flowPairKey (left_of_content hL hleft' hk (by simp))).emit rfl
        · next hk => exact carries_pure (left_of_content hL hleft' hk (by simp)) rfl rfl
        · exact hitem.bind_emit fun _ => ih.flowSequence

/-- The key of a pair in a flow sequence. -/
lemma flowPairKey_succ {key : Lexeme} (ih : Carried f L n) (hleft : Left L ls) :
    Carries f L (Grammar.flowPairKey t key (n + 1) ls)
      (Grammar.flowPairKey t (key.mapMarks f) (n + 1) (ls.map (Lexeme.mapMarks f))) := by
  simp only [Grammar.flowPairKey, hleft.front_map, content_mapMarks]
  split
  case h_4 => exact (ih.node hleft).bind_emit fun _ => ih.flowPairValue
  all_goals exact (ih.flowPairValue hleft).emit rfl

/-- The value of a pair in a flow sequence. -/
lemma flowPairValue_succ (hL : IsStream L) (ih : Carried f L n) (hleft : Left L ls) :
    Carries f L (Grammar.flowPairValue t (n + 1) ls)
      (Grammar.flowPairValue t (n + 1) (ls.map (Lexeme.mapMarks f))) := by
  -- what follows the value, however that was read
  have hmore : ∀ (es : List Event) (mid : List Lexeme), Left L mid → Carries f L
      (emit (es ++ [⟨.mappingEnd, (front mid).start, (front mid).start⟩])
        (Grammar.flowSequence t false n mid))
      (emit (es.map (Event.mapMarks f) ++ [⟨.mappingEnd,
        (front (mid.map (Lexeme.mapMarks f))).start, (front (mid.map (Lexeme.mapMarks f))).start⟩])
        (Grammar.flowSequence t false n (mid.map (Lexeme.mapMarks f)))) := by
    intro es mid hmid
    refine (ih.flowSequence hmid).emit ?_
    rw [hmid.front_map, List.map_append]
    rfl
  obtain ⟨l, ls, rfl⟩ := hleft.exists_cons
  simp only [Grammar.flowPairValue, List.map_cons, front_cons, List.tail_cons, content_mapMarks]
  split
  · next hl =>
      have hrest := left_of_content hL hleft hl (by simp)
      rw [hrest.front_map, content_mapMarks]
      split
      case h_3 => exact (ih.node hrest).bind hmore
      all_goals exact hmore [emptyScalar l.stop] ls hrest
  · exact hmore [emptyScalar l.start] (l :: ls) hleft

/-- The keys of a flow mapping, up to its end. -/
lemma flowMapping_succ {first : Bool} (hL : IsStream L) (ih : Carried f L n) (hleft : Left L ls) :
    Carries f L (Grammar.flowMapping t first (n + 1) ls)
      (Grammar.flowMapping t first (n + 1) (ls.map (Lexeme.mapMarks f))) := by
  simp only [Grammar.flowMapping, hleft.front_map, content_mapMarks]
  split
  · next hl =>
      obtain ⟨l, ls, rfl⟩ := hleft.exists_cons
      exact carries_pure (left_of_content hL hleft hl (by simp)) rfl rfl
  · split
    · exact carries_refuse_bind
    · next hsep =>
        have hleft' := left_entry hL hleft hsep
        rw [← List.map_tail, ← apply_ite (List.map (Lexeme.mapMarks f))]
        generalize (if first = true then ls else ls.tail) = ks at hleft' ⊢
        obtain ⟨k, ks, rfl⟩ := hleft'.exists_cons
        have hkey : Carries f L (Grammar.node t .flow n (k :: ks)) _ := ih.node hleft'
        rw [List.map_cons] at hkey ⊢
        simp only [front_cons, List.tail_cons, content_mapMarks]
        split
        · next hk =>
            have hrest := left_of_content hL hleft' hk (by simp)
            rw [hrest.front_map, content_mapMarks]
            split
            case h_4 => exact (ih.node hrest).bind_emit fun _ => ih.flowValue
            all_goals exact (ih.flowValue hrest).emit rfl
        · next hk => exact carries_pure (left_of_content hL hleft' hk (by simp)) rfl rfl
        · refine hkey.bind fun es rest hrest => (ih.flowMapping hrest).emit ?_
          rw [hrest.front_map, List.map_append]
          rfl

/-- The values of a flow mapping. -/
lemma flowValue_succ (hL : IsStream L) (ih : Carried f L n) (hleft : Left L ls) :
    Carries f L (Grammar.flowValue t (n + 1) ls)
      (Grammar.flowValue t (n + 1) (ls.map (Lexeme.mapMarks f))) := by
  obtain ⟨l, ls, rfl⟩ := hleft.exists_cons
  have hmissing : Carries f L (Grammar.flowMapping t false n (l :: ls)) _ := ih.flowMapping hleft
  rw [List.map_cons] at hmissing
  simp only [Grammar.flowValue, List.map_cons, front_cons, List.tail_cons, content_mapMarks]
  split
  · next hl =>
      have hrest := left_of_content hL hleft hl (by simp)
      rw [hrest.front_map, content_mapMarks]
      split
      case h_3 => exact (ih.node hrest).bind_emit fun _ => ih.flowMapping
      all_goals exact (ih.flowMapping hrest).emit rfl
  · exact hmissing.emit rfl

/-- A node. -/
lemma node_succ {place : Place} (hL : IsStream L) (ih : Carried f L n) (hleft : Left L ls) :
    Carries f L (Grammar.node t place (n + 1) ls)
      (Grammar.node t place (n + 1) (ls.map (Lexeme.mapMarks f))) := by
  intro es rest h
  unfold Grammar.node at h ⊢
  split at h
  · cases h
    exact ⟨hleft.tail hL (by simp), rfl⟩
  · next hls =>
      split
      · next hmap =>
          obtain ⟨l, ks, rfl, hl, -⟩ := List.map_eq_cons_iff.mp hmap
          cases l
          cases hl
          exact absurd rfl (hls _ _ _ _)
      · refine carries_properties hL hleft (fun p ks hks => ?_) es rest h
        obtain ⟨k, ks, rfl⟩ := hks.exists_cons
        have hitems := ih.indentlessSequence (t := t) hks
        rw [List.map_cons] at hitems ⊢
        simp only [front_cons, List.tail_cons, content_mapMarks]
        split
        · exact hitems.emit rfl
        · next hk => exact carries_pure (left_of_content hL hks hk (by simp)) rfl rfl
        · next hk => exact (ih.flowSequence (left_of_content hL hks hk (by simp))).emit rfl
        · next hk => exact (ih.flowMapping (left_of_content hL hks hk (by simp))).emit rfl
        · next hk => exact (ih.blockSequence (left_of_content hL hks hk (by simp))).emit rfl
        · next hk => exact (ih.blockSequence (left_of_content hL hks hk (by simp))).emit rfl
        · next hk => exact (ih.blockMapping (left_of_content hL hks hk (by simp))).emit rfl
        · next hk => exact (ih.blockMapping (left_of_content hL hks hk (by simp))).emit rfl
        · show Carries f L _ (ite ((p.anchor.isSome || p.tag.isSome) = true) _ _)
          split
          · exact carries_pure hks rfl rfl
          · exact carries_refuse

end Carried

/-- **The grammar carries over to moved units.** -/
theorem carried (f : Mark → Mark) (hL : IsStream L) (n : Nat) : Carried f L n := by
  induction n with
  | zero => exact Carried.zero f L
  | succ n ih =>
      exact {
        node := ih.node_succ hL
        blockSequence := ih.blockSequence_succ hL
        indentlessSequence := ih.indentlessSequence_succ hL
        blockMapping := ih.blockMapping_succ hL
        blockValue := ih.blockValue_succ hL
        flowSequence := ih.flowSequence_succ hL
        flowPairKey := ih.flowPairKey_succ
        flowPairValue := ih.flowPairValue_succ hL
        flowMapping := ih.flowMapping_succ hL
        flowValue := ih.flowValue_succ hL }

/-! ### Documents -/

/-- Moving units keeps their number, and so the bound on nested calls. -/
@[simp]
lemma bound_map (f : Mark → Mark) (ls : List Lexeme) :
    bound (ls.map (Lexeme.mapMarks f)) = bound ls := by
  rw [bound, bound, List.length_map]

/-- The end of a document, which may be left unmarked, is read from moved units. -/
lemma documentEnd_map (hL : IsStream L) (hleft : Left L ls) : Left L (documentEnd ls).2 ∧
    documentEnd (ls.map (Lexeme.mapMarks f)) =
      ((documentEnd ls).1.mapMarks f, (documentEnd ls).2.map (Lexeme.mapMarks f)) := by
  obtain ⟨l, ls, rfl⟩ := hleft.exists_cons
  by_cases hl : l.content = .documentEnd
  · have hend : ∀ {k ks}, k.content = .documentEnd →
        documentEnd (k :: ks) = (⟨.documentEnd true, k.start, k.stop⟩, ks) := fun h => if_pos h
    rw [List.map_cons, hend hl, hend (k := l.mapMarks f) hl]
    exact ⟨hleft.tail hL (by rw [hl]; simp), rfl⟩
  · have hend : ∀ {k ks}, k.content ≠ .documentEnd →
        documentEnd (k :: ks) = (⟨.documentEnd false, k.start, k.start⟩, k :: ks) :=
      fun h => if_neg h
    rw [List.map_cons, hend hl, hend (k := l.mapMarks f) hl]
    exact ⟨hleft, rfl⟩

/-- The body of a document and the document's end. -/
lemma Carries.documentRest (hL : IsStream L) (h : Carries f L r r') :
    Carries f L (Grammar.documentRest r) (Grammar.documentRest r') := by
  refine h.bind fun es rest hrest => ?_
  obtain ⟨hleft, hmap⟩ := documentEnd_map (f := f) hL hrest
  simp only [hmap]
  exact carries_pure hleft (by rw [List.map_append]; rfl) rfl

/-- The body of a document that begins with a marker. -/
lemma carries_documentBody (hL : IsStream L) (hleft : Left L ls) : Carries f L (documentBody t ls)
    (documentBody t (ls.map (Lexeme.mapMarks f))) := by
  simp only [documentBody, hleft.front_map, content_mapMarks, bound_map]
  split
  case h_5 => exact (carried f hL _).node hleft
  all_goals exact carries_pure hleft rfl rfl

/-- Directives are read from moved units. -/
lemma directives_map {d d' : Directives} (h : directives d ls = .ok (d', rest)) :
    directives d (ls.map (Lexeme.mapMarks f)) = .ok (d', rest.map (Lexeme.mapMarks f)) := by
  induction ls generalizing d with
  | nil =>
      cases h
      rfl
  | cons l ls ih =>
      obtain ⟨c, start, stop⟩ := l
      cases c with
      | directive x =>
          cases x with
          | version major minor =>
              rw [directives] at h
              split at h
              · cases h
              · next hversion =>
                  split at h
                  · cases h
                  · next hmajor =>
                      rw [List.map_cons, Lexeme.mapMarks, directives, if_neg hversion,
                        if_neg hmajor]
                      exact ih h
          | tagHandle handle stem =>
              rw [directives] at h
              split at h
              · cases h
              · next hhandle =>
                  rw [List.map_cons, Lexeme.mapMarks, directives, if_neg hhandle]
                  exact ih h
          | unknown name => exact ih h
      | _ =>
          cases h
          rfl

/-- A document that begins with a marker. -/
lemma carries_explicitDocument (hL : IsStream L) (hleft : Left L ls) :
    Carries f L (explicitDocument ls) (explicitDocument (ls.map (Lexeme.mapMarks f))) := by
  intro es rest h
  rw [explicitDocument] at h ⊢
  obtain ⟨⟨d, ks⟩, hdirectives, hok⟩ := Except.bind_eq_ok_iff.mp h
  obtain ⟨hks, -⟩ := directives_eq_ok hL hleft hdirectives
  suffices hbody : Carries f L _ _ by
    obtain ⟨hrest, hok'⟩ := hbody es rest hok
    exact ⟨hrest, Except.bind_eq_ok_iff.mpr ⟨_, directives_map hdirectives, hok'⟩⟩
  simp only [hks.front_map, content_mapMarks]
  split
  · exact carries_refuse_bind
  · next hk =>
      obtain ⟨k, ks, rfl⟩ := hks.exists_cons
      have hk' : k.content = .documentStart := by simpa using hk
      rw [hleft.front_map]
      exact ((carries_documentBody hL (hks.tail hL (by rw [hk']; simp))).documentRest hL).emit rfl

/-- Documents up to the end of the stream. -/
lemma documents_map (hL : IsStream L) : ∀ {n : Nat} {ls : List Lexeme} {es : List Event},
    Left L ls → documents n ls = .ok es →
      documents n (ls.map (Lexeme.mapMarks f)) = .ok (es.map (Event.mapMarks f)) := by
  intro n
  induction n with
  | zero =>
      intro ls es _ h
      cases h
  | succ n ih =>
      intro ls es hleft h
      have hleft' := (left_dropWhile_documentEnd hL hleft).1
      have hdrop : (ls.map (Lexeme.mapMarks f)).dropWhile (·.content = .documentEnd) =
          (ls.dropWhile (·.content = .documentEnd)).map (Lexeme.mapMarks f) := List.dropWhile_map ..
      rw [documents] at h ⊢
      simp only [hdrop, hleft'.front_map, content_mapMarks]
      dsimp only at h
      split at h
      · next hend =>
          cases h
          rw [if_pos hend]
          rfl
      · next hend =>
          obtain ⟨⟨es₁, rest⟩, hdocument, hok⟩ := Except.bind_eq_ok_iff.mp h
          obtain ⟨es₂, hmore, hok⟩ := Except.bind_eq_ok_iff.mp hok
          cases hok
          obtain ⟨hrest, hdocument'⟩ :=
            carries_explicitDocument (f := f) hL hleft' es₁ rest hdocument
          rw [if_neg hend]
          refine Except.bind_eq_ok_iff.mpr ⟨_, hdocument', ?_⟩
          refine Except.bind_eq_ok_iff.mpr ⟨_, ih hrest hmore, ?_⟩
          rw [List.map_append]
          rfl

/-- The first document if it begins without a marker. -/
lemma carries_implicitDocument (hL : IsStream L) (hleft : Left L ls) :
    Carries f L (implicitDocument ls) (implicitDocument (ls.map (Lexeme.mapMarks f))) := by
  simp only [implicitDocument, hleft.front_map, content_mapMarks, bound_map]
  split
  case h_4 => exact (((carried f hL _).node hleft).documentRest hL).emit rfl
  all_goals exact carries_pure hleft rfl rfl

end Grammar

open Grammar in
/-- **Moved units have moved events.** Behind the start of a stream something is left, and its
events stand where its units do. -/
theorem ofLexemes_moveAll {f : Mark → Mark} {L : List Lexeme} {es : List Event} (hL : IsStream L)
    (htail : L.tail ≠ []) (h : Event.ofLexemes L = .ok es) :
    Event.ofLexemes (Lexeme.moveAll f L) = .ok (Event.moveAll f es) := by
  rw [Event.ofLexemes] at h ⊢
  obtain ⟨l, L, rfl⟩ := List.exists_cons_of_ne_nil (l := L) (by rintro rfl; exact htail rfl)
  obtain ⟨⟨es₁, rest⟩, hfirst, hok⟩ := Except.bind_eq_ok_iff.mp h
  obtain ⟨es₂, hmore, hok⟩ := Except.bind_eq_ok_iff.mp hok
  cases hok
  obtain ⟨hrest, hfirst'⟩ := carries_implicitDocument (f := f) hL
    ⟨List.suffix_cons l L, htail⟩ es₁ rest hfirst
  refine Except.bind_eq_ok_iff.mpr ⟨_, hfirst', ?_⟩
  refine Except.bind_eq_ok_iff.mpr ⟨es₂.map (Event.mapMarks f), ?_, ?_⟩
  · rw [bound_map]
    exact documents_map hL hrest hmore
  · simp only [Event.moveAll, List.cons_append, List.map_append]
    rfl

/-- The events of a spelled text are those of the text, at the places that correspond. -/
theorem ofLexemes_text {w : Spelling} {s : List Char} {ls : List Lexeme} {es : List Event}
    (hls : Lexeme.scan s = .ok ls) (h : Event.ofLexemes ls = .ok es) :
    Event.ofLexemes (Lexeme.moveAll (Mark.spelled w s) ls) =
      .ok (Event.moveAll (Mark.spelled w s) es) := by
  have hL := Grammar.isStream_of_cover (cover_of_scan hls)
  refine ofLexemes_moveAll hL ?_ h
  -- the start of the stream is not its end
  obtain ⟨l, rest, rfl, hl⟩ := (cover_of_scan hls).streamStart
  rw [List.tail_cons]
  rintro rfl
  have hend := hL.last l rfl
  rw [hl] at hend
  cases hend

end YamlNavigator.Yaml
