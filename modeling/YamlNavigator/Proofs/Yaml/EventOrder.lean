import YamlNavigator.Proofs.Yaml.Division

/-!
The marks of the events of a stream never go back.

* `Between`: events in order between two offsets, none of which stops before it starts;
* `Grammar.Ordered`, `Grammar.ordered_of_derives`: the events that a section of the grammar takes
  are in order, between the units in front of it and those behind;
* `Grammar.between_of_documents`, `between_of_ofLexemes`: so are all events of a stream.
-/

namespace YamlNavigator.Yaml

/-- The events lie between two offsets, one behind the other. -/
inductive Between : Nat → List Event → Nat → Prop
  | nil {lo hi : Nat} (le : lo ≤ hi) : Between lo [] hi
  | cons {lo hi : Nat} {e : Event} {es : List Event} (start_le : lo ≤ e.start.index)
      (le : e.start.index ≤ e.stop.index) (more : Between e.stop.index es hi) :
      Between lo (e :: es) hi

namespace Between

variable {lo mid hi : Nat} {e : Event} {es es' : List Event}

/-- The offsets are in order. -/
lemma le (h : Between lo es hi) : lo ≤ hi := by
  induction h with
  | nil le => exact le
  | cons start_le le _ ih => omega

/-- The first offset may lie further to the front. -/
lemma mono (h : Between lo es hi) (hlo : mid ≤ lo) : Between mid es hi := by
  cases h with
  | nil le => exact .nil (Nat.le_trans hlo le)
  | cons start_le le more => exact .cons (Nat.le_trans hlo start_le) le more

/-- A single event. -/
lemma single (hlo : lo ≤ e.start.index) (he : e.start.index ≤ e.stop.index)
    (hhi : e.stop.index ≤ hi) : Between lo [e] hi :=
  .cons hlo he (.nil hhi)

lemma append (h : Between lo es mid) (h' : Between mid es' hi) : Between lo (es ++ es') hi := by
  induction h with
  | nil le => exact h'.mono le
  | cons start_le le _ ih => exact .cons start_le le (ih h')

end Between

namespace Grammar

variable {L ls ks rest heads closers : List Lexeme} {l : Lexeme} {e last : Event} {es : List Event}
variable {s : Section}

/-! ### Sections -/

/-- The events that a section takes from the units `ls` stand in front of the units `rest`. Those of
a node stand behind the unit in front of it, and others behind the start of the first unit. Contents
of a collection that take the first unit stand behind it, if it does not end them. -/
structure Ordered (L : List Lexeme) (s : Section) (ls : List Lexeme) (es : List Event)
    (rest : List Lexeme) : Prop where
  node : s = .node → ∀ pre u, L = pre ++ u :: ls →
    Between u.stop.index es (front rest).start.index
  other : s ≠ .node → Between (front ls).start.index es (front rest).start.index
  contents : s.part ≠ .node → rest.length < ls.length → (front ls).content ≠ s.closer →
    Between (front ls).stop.index es (front rest).start.index

/-- In front of units that are left something is left. -/
lemma Left.of_suffix (h : Left L rest) (hls : ls <:+ L) (hrest : rest <:+ ls) : Left L ls :=
  ⟨hls, by
    rintro rfl
    exact h.ne_nil (List.suffix_nil.mp hrest)⟩

namespace Ordered

/-- A node that starts with the first unit. -/
lemma of_front (hL : IsStream L) (hls : Left L ls)
    (h : Between (front ls).start.index es (front rest).start.index) :
    Ordered L .node ls es rest where
  node _ pre u hpre := by
    have hu : Left L (u :: ls) := ⟨⟨pre, hpre.symm⟩, by simp⟩
    exact h.mono (hu.stop_le_front hL hls)
  other hs := absurd rfl hs
  contents hs := absurd rfl hs

/-- The value of an entry, behind the start of the first unit. -/
lemma of_value (h : Between (front ls).start.index es (front rest).start.index) :
    Ordered L .value ls es rest where
  node hs := by cases hs
  other _ := h
  contents hs := absurd rfl hs

/-- The end of contents of a collection. -/
lemma of_end (hs : s.part ≠ .node)
    (h : Between (front ls).start.index es (front rest).start.index)
    (hend : rest.length < ls.length → (front ls).content = s.closer) : Ordered L s ls es rest where
  node hnode := absurd (congrArg Section.part hnode) hs
  other _ := h
  contents _ hlt hne := absurd (hend hlt) hne

/-- Contents of a collection behind the first unit. -/
lemma of_behind (hs : s.part ≠ .node) (hle : l.start.index ≤ l.stop.index)
    (h : Between l.stop.index es (front rest).start.index) :
    Ordered L s (l :: ls) es rest where
  node hnode := absurd (congrArg Section.part hnode) hs
  other _ := h.mono hle
  contents _ _ _ := h

/-- A collection with its properties, around its contents. -/
lemma collection {ps : List Lexeme} {step : Step} {stop : Mark} (hL : IsStream L)
    (hleft : Left L (ps ++ l :: ls)) (hl : Left L (l :: ls)) (hs : s.part ≠ .node)
    (hopens : l.content ≠ s.closer) (hstop : stop.index = l.stop.index)
    (htaken : rest.length ≤ ls.length) (h : Ordered L s (l :: ls) es rest) :
    Ordered L .node (ps ++ l :: ls)
      (⟨step, (front (ps ++ l :: ls)).start, stop⟩ :: es) rest := by
  have hfront := hleft.front_le hL hl
  refine of_front hL hleft (.cons (Nat.le_refl _) ?_ ?_)
  · rw [hstop]
    exact Nat.le_trans hfront (hl.start_le_stop hL)
  · rw [hstop]
    exact h.contents hs (Nat.lt_succ_of_le htaken) hopens

end Ordered

/-- A sequence does not begin with the unit that ends it. -/
lemma ne_closer_of_opensSequence {flow : Bool} (h : opensSequence l.content = true) :
    l.content ≠ (Section.items flow).closer := by
  intro heq
  rw [heq] at h
  cases flow <;> cases h

/-- A mapping does not begin with the unit that ends it. -/
lemma ne_closer_of_opensMapping {flow : Bool} (h : opensMapping l.content = true) :
    l.content ≠ (Section.entries flow).closer := by
  intro heq
  rw [heq] at h
  cases flow <;> cases h

/-- **What a section of the grammar takes is in order.** -/
theorem ordered_of_derives (hL : IsStream L) (h : Derives L s ls es rest) (hls : ls <:+ L)
    (hrest : Left L rest) : Ordered L s ls es rest := by
  induction h with
  | reference _ =>
      have hl := hrest.of_suffix hls (List.suffix_cons _ _)
      exact .of_front hL hl
        (.single (Nat.le_refl _) (hl.start_le_stop hL) (hl.stop_le_front hL hrest))
  | scalar _ _ | bare _ _ =>
      have hl := hrest.of_suffix ((List.suffix_append _ _).trans hls) (List.suffix_cons _ _)
      have hleft := hl.of_suffix hls (List.suffix_append _ _)
      exact .of_front hL hleft (.single (Nat.le_refl _)
        (Nat.le_trans (hleft.front_le hL hl) (hl.start_le_stop hL)) (hl.stop_le_front hL hrest))
  | empty hcut =>
      refine ⟨fun _ pre u hpre => ?_, fun hs => absurd rfl hs, fun hs => absurd rfl hs⟩
      obtain ⟨l, ls, rfl⟩ := hrest.exists_cons
      exact .single (hcut.before (pre ++ [u]) (by simp [hpre]) u (by simp)) (Nat.le_refl _)
        (hcut.after l List.mem_cons_self)
  | sequence _ opens stop_eq taken r ih =>
      have hl := hrest.of_suffix ((List.suffix_append _ _).trans hls) r.suffix
      have hleft := hl.of_suffix hls (List.suffix_append _ _)
      exact .collection hL hleft hl (by simp [Section.part]) (ne_closer_of_opensSequence opens)
        stop_eq taken (ih hl.suffix hrest)
  | mapping _ opens stop_eq taken r ih =>
      have hl := hrest.of_suffix ((List.suffix_append _ _).trans hls) r.suffix
      have hleft := hl.of_suffix hls (List.suffix_append _ _)
      exact .collection hL hleft hl (by simp [Section.part]) (ne_closer_of_opensMapping opens)
        stop_eq taken (ih hl.suffix hrest)
  | valued _ node ih =>
      obtain ⟨pre, hpre⟩ := hls
      have hl : Left L (_ :: _) := ⟨⟨pre, hpre⟩, List.cons_ne_nil _ _⟩
      have hnode := ih ((List.suffix_cons _ _).trans hl.suffix) hrest
      exact .of_value ((hnode.node rfl pre _ hpre.symm).mono (hl.start_le_stop hL))
  | missing _ =>
      exact .of_value (.single (Nat.le_refl _) (Nat.le_refl _) (Nat.le_refl _))
  | @frame s l ls rest es hframes r ih =>
      have hmid := hrest.of_suffix ((List.suffix_cons _ _).trans hls) r.suffix
      have hl := hmid.of_suffix hls (List.suffix_cons _ _)
      have hs := Section.part_ne_of_frames hframes
      have hmore := (ih hmid.suffix hrest).other fun heq => hs (congrArg Section.part heq)
      exact .of_behind hs (hl.start_le_stop hL) (hmore.mono (hl.stop_le_front hL hmid))
  | itemsEnd closes _ | entriesEnd closes _ =>
      have hl := hrest.of_suffix hls (List.suffix_cons _ _)
      exact .of_end (by simp [Section.part])
        (.single (Nat.le_refl _) (hl.start_le_stop hL) (hl.stop_le_front hL hrest))
        fun _ => closes
  | itemsStop _ _ | entriesStop _ _ =>
      exact .of_end (by simp [Section.part])
        (.single (Nat.le_refl _) (Nat.le_refl _) (Nat.le_refl _))
        fun hlt => absurd hlt (Nat.lt_irrefl _)
  | item _ node more ih ih' =>
      have hls' := (List.suffix_cons _ _).trans hls
      have hmid := hrest.of_suffix (node.suffix.trans hls') more.suffix
      have hl := hmid.of_suffix hls (node.suffix.trans (List.suffix_cons _ _))
      obtain ⟨pre, hpre⟩ := hls
      have hnode := (ih hls' hmid).node rfl pre _ hpre.symm
      have hmore := (ih' hmid.suffix hrest).other (by simp)
      exact .of_behind (by simp [Section.part]) (hl.start_le_stop hL) (hnode.append hmore)
  | pair _ hkey taken r more ih ih' =>
      have hkeys := (List.suffix_cons _ _).trans hls
      have hmid := hrest.of_suffix (r.suffix.trans hkeys) more.suffix
      have hk := hmid.of_suffix hkeys r.suffix
      have hl := hk.of_suffix hls (List.suffix_cons _ _)
      have hentries := (ih hk.suffix hmid).contents (by simp [Section.part])
        (Nat.lt_succ_of_le taken) (by simp [hkey, Section.closer])
      have hmore := (ih' hmid.suffix hrest).other (by simp)
      exact .of_behind (by simp [Section.part]) (hl.start_le_stop hL)
        (.cons (hl.stop_le_front hL hk) (hk.start_le_stop hL) (hentries.append hmore))
  | entry _ key value more ih ih' ih'' =>
      have hls' := (List.suffix_cons _ _).trans hls
      have hmid' := hrest.of_suffix (value.suffix.trans (key.suffix.trans hls')) more.suffix
      have hmid := hmid'.of_suffix (key.suffix.trans hls') value.suffix
      have hl := hmid.of_suffix hls (key.suffix.trans (List.suffix_cons _ _))
      obtain ⟨pre, hpre⟩ := hls
      have hkey := (ih hls' hmid).node rfl pre _ hpre.symm
      have hvalue := (ih' hmid.suffix hmid').other (by simp)
      have hmore := (ih'' hmid'.suffix hrest).other (by simp)
      exact .of_behind (by simp [Section.part]) (hl.start_le_stop hL)
        (hkey.append (hvalue.append hmore))

/-! ### Documents -/

variable {first : Bool}

/-- The first event of a document starts with the first unit, and stops in front of the body. -/
lemma Opens.le_front (hL : IsStream L) (h : Opens L first heads ks e) (hls : heads ++ ks <:+ L)
    (hks : Left L ks) : (front (heads ++ ks)).start.index ≤ e.start.index ∧
      e.start.index ≤ e.stop.index ∧ e.stop.index ≤ (front ks).start.index := by
  cases h with
  | bare _ => exact ⟨Nat.le_refl _, Nat.le_refl _, Nat.le_refl _⟩
  | @marked _ directives _ marker _ _ =>
      rw [List.append_assoc, List.singleton_append] at hls ⊢
      have hmarker : Left L (marker :: ks) :=
        hks.of_suffix ((List.suffix_append _ _).trans hls) (List.suffix_cons _ _)
      have hleft := hmarker.of_suffix hls (List.suffix_append _ _)
      exact ⟨Nat.le_refl _,
        Nat.le_trans (hleft.front_le hL hmarker) (hmarker.start_le_stop hL),
        hmarker.stop_le_front hL hks⟩

/-- In front of the body of a document stands a unit. -/
lemma Opens.exists_lead (h : Opens L first heads ks e) (hls : heads ++ ks <:+ L) :
    ∃ pre u, L = pre ++ u :: ks := by
  cases h with
  | bare hL => exact ⟨[], _, hL⟩
  | @marked _ directives _ marker _ _ =>
      obtain ⟨pre, rfl⟩ := hls
      exact ⟨pre ++ directives, marker, by simp⟩

/-- The last event of a document lies between the body and the units behind. -/
lemma Closes.between (hL : IsStream L) (h : Closes closers rest last) (hls : closers ++ rest <:+ L)
    (hrest : Left L rest) :
    Between (front (closers ++ rest)).start.index [last] (front rest).start.index := by
  cases h with
  | unmarked => exact .single (Nat.le_refl _) (Nat.le_refl _) (Nat.le_refl _)
  | marked _ =>
      have hl := hrest.of_suffix hls (List.suffix_cons _ _)
      exact .single (Nat.le_refl _) (hl.start_le_stop hL) (hl.stop_le_front hL hrest)

/-- **The events of documents are in order**, in front of every offset behind all units. -/
theorem between_of_documents {hi : Nat} (hL : IsStream L) (hhi : ∀ l ∈ L, l.stop.index ≤ hi)
    (h : DerivesDocuments L first ls es) (hls : ls <:+ L) :
    Between (front ls).start.index es hi := by
  induction h with
  | @done _ ls _ =>
      cases ls with
      | nil => exact .single (Nat.le_refl _) (Nat.le_refl _) (Nat.zero_le _)
      | cons l ls =>
          have hl : Left L (l :: ls) := ⟨hls, List.cons_ne_nil l ls⟩
          exact .single (Nat.le_refl _) (hl.start_le_stop hL) (hhi l (hls.subset (by simp)))
  | @closed _ l ls _ hclosed _ ih =>
      have hl : Left L (l :: ls) := ⟨hls, List.cons_ne_nil l ls⟩
      have hls := hl.tail hL (by rw [hclosed]; simp)
      exact (ih hls.suffix).mono (Nat.le_trans (hl.start_le_stop hL) (hl.stop_le_front hL hls))
  | @document _ heads ks closers rest e last body es opens _ node begins closes _ hrest _ ih =>
      have hks : ks <:+ L := (List.suffix_append _ _).trans hls
      have hclosers := hrest.of_suffix (node.suffix.trans hks) (List.suffix_append _ _)
      have hleft := hclosers.of_suffix hks node.suffix
      obtain ⟨hstart, hle, hstop⟩ := opens.le_front hL hls hleft
      have hbody : Between (front ks).start.index body (front (closers ++ rest)).start.index := by
        obtain ⟨pre, u, hu⟩ := opens.exists_lead hls
        obtain ⟨b, bs, rfl, hb⟩ := begins
        cases (ordered_of_derives hL node hks hclosers).node rfl pre u hu with
        | cons _ le more => exact .cons (Nat.le_of_eq (congrArg Mark.index hb.symm)) le more
      refine .cons hstart hle ((hbody.mono hstop).append ?_)
      exact (closes.between hL hclosers.suffix hrest).append (ih hrest.suffix)

end Grammar

open Grammar in
/-- **The events of a stream are in order**, in front of every offset behind all units. -/
theorem between_of_ofLexemes {L : List Lexeme} {es : List Event} {hi : Nat} (hL : IsStream L)
    (hhi : ∀ l ∈ L, l.stop.index ≤ hi) (h : Event.ofLexemes L = .ok es) : Between 0 es.tail hi := by
  obtain ⟨e, es, rfl, hderives⟩ := derivesDocuments_of_ofLexemes hL h
  exact (between_of_documents hL hhi hderives (List.tail_suffix L)).mono (Nat.zero_le _)

end YamlNavigator.Yaml
