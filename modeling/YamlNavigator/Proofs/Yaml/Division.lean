import YamlNavigator.Proofs.Yaml.Derivation

/-!
How markers divide the units of a stream into documents.

* `Content.isDirective`, `Content.isPreface`: directives, and with them the markers behind them;
* `Opens`, `Closes`: what stands around the body of a document, and the first and the last event of
  the document;
* `DerivesDocuments`: the documents of a stream take events from the front of units, up to the end
  of the stream; each has a derivation of its body;
* `derivesDocuments_of_ofLexemes`: the events of a stream have such a derivation.
-/

namespace YamlNavigator.Yaml

/-- Directives. -/
def Content.isDirective : Content → Bool
  | .directive _ => true
  | _ => false

/-- The units in front of the body of a document: directives and the marker. -/
def Content.isPreface : Content → Bool
  | .directive _ | .documentStart => true
  | _ => false

namespace Grammar

variable {L ls ks mid rest : List Lexeme} {l : Lexeme} {e last : Event} {es es' : List Event}
variable {first : Bool} {heads closers : List Lexeme}

/-- Directives and markers are structure. -/
lemma isOwned_of_isPreface {c : Content} (h : c.isPreface = true) : c.isOwned = false := by
  revert h
  cases c <;> simp [Content.isPreface, Content.isOwned]

/-! ### Derivations of documents -/

/-- The units `heads` stand in front of the body `ks` of a document, whose first event is `e`: its
directives and its marker. Only the first document of a stream may do without them; it stands behind
the unit that starts the stream. -/
inductive Opens (L : List Lexeme) : Bool → List Lexeme → List Lexeme → Event → Prop
  | bare {lead : Lexeme} {ks : List Lexeme} (h : L = lead :: ks) :
      Opens L true [] ks ⟨.documentStart false, (front ks).start, (front ks).start⟩
  | marked {first : Bool} {directives ks : List Lexeme} {marker : Lexeme}
      (isDirective : ∀ l ∈ directives, l.content.isDirective = true)
      (h : marker.content = .documentStart) :
      Opens L first (directives ++ [marker]) ks
        ⟨.documentStart true, (front (directives ++ marker :: ks)).start, marker.stop⟩

/-- The units `closers` stand behind the body of a document and in front of the units `rest`; the
last event of the document is `last`. The mark of a document's end belongs to the document if it
stands directly behind the body. -/
inductive Closes : List Lexeme → List Lexeme → Event → Prop
  | unmarked {rest : List Lexeme} :
      Closes [] rest ⟨.documentEnd false, (front rest).start, (front rest).start⟩
  | marked {l : Lexeme} {rest : List Lexeme} (h : l.content = .documentEnd) :
      Closes [l] rest ⟨.documentEnd true, l.start, l.stop⟩

/-- Documents take events from the front of units, up to the end of the stream; `first` tells
whether the first one may do without a marker. -/
inductive DerivesDocuments (L : List Lexeme) : Bool → List Lexeme → List Event → Prop
  | done {first : Bool} {ls : List Lexeme} (h : ∀ l ∈ ls, l.content = .streamEnd) :
      DerivesDocuments L first ls [⟨.streamEnd, (front ls).start, (front ls).stop⟩]
  | closed {first : Bool} {l : Lexeme} {ls : List Lexeme} {es : List Event}
      (h : l.content = .documentEnd) (more : DerivesDocuments L false ls es) :
      DerivesDocuments L first (l :: ls) es
  | document {first : Bool} {heads ks closers rest : List Lexeme} {e last : Event}
      {body es : List Event} (opens : Opens L first heads ks e)
      (start : CutAt L e.start.index (heads ++ ks))
      (node : Derives L .node ks body (closers ++ rest))
      (begins : ∃ b bs, body = b :: bs ∧ b.start = (front ks).start)
      (closes : Closes closers rest last) (stop : CutAt L last.stop.index rest) (left : Left L rest)
      (more : DerivesDocuments L false rest es) :
      DerivesDocuments L first (heads ++ ks) (e :: (body ++ last :: es))

/-- A document does not begin with the end of the stream. -/
lemma Opens.step_ne (h : Opens L first heads ks e) : e.step ≠ .streamEnd := by
  cases h <;> simp

/-- Directives and a marker stand in front of the body of a document. -/
lemma Opens.isPreface (h : Opens L first heads ks e) : ∀ l ∈ heads, l.content.isPreface = true := by
  cases h with
  | bare _ => simp
  | marked isDirective h =>
      refine List.forall_mem_append.mpr ⟨fun l hl => ?_, by simp [h, Content.isPreface]⟩
      have hl := isDirective l hl
      revert hl
      cases l.content <;> simp [Content.isDirective, Content.isPreface]

/-- What stands in front of the body of a document is structure. -/
lemma Opens.isOwned (h : Opens L first heads ks e) : ∀ l ∈ heads, l.content.isOwned = false :=
  fun l hl => isOwned_of_isPreface (h.isPreface l hl)

/-- Behind the body of a document stand marks of its end only. -/
lemma Closes.content_eq (h : Closes closers rest last) :
    ∀ l ∈ closers, l.content = .documentEnd := by
  cases h with
  | unmarked => simp
  | marked h => simpa using h

/-! ### What the functions of the grammar read -/

/-- The first event of a node starts with the unit in front. -/
lemma exists_first_of_node {t : Tagging} {place : Place} {n : Nat}
    (h : node t place n ls = .ok (es, rest)) :
    ∃ e es', es = e :: es' ∧ e.start = (front ls).start := by
  cases n with
  | zero => cases h
  | succ n =>
      unfold node at h
      split at h
      · cases h
        exact ⟨_, [], rfl, rfl⟩
      · obtain ⟨⟨p, ks⟩, hprops, hok⟩ := Except.bind_eq_ok_iff.mp h
        obtain ⟨-, -, -, hstart, -⟩ := properties_eq_ok hprops
        rw [← hstart]
        -- an event that starts with the properties, in front of others
        have hemit : ∀ {step : Step} {stop : Mark} {r : Reading},
            emit [⟨step, p.start, stop⟩] r = .ok (es, rest) →
            ∃ e es', es = e :: es' ∧ e.start = p.start := by
          intro step stop r hr
          obtain ⟨es', -, rfl⟩ := emit_eq_ok_iff.mp hr
          exact ⟨_, es', rfl, rfl⟩
        dsimp only at hok
        split at hok
        case h_2 =>
            cases hok
            exact ⟨_, [], rfl, rfl⟩
        case h_9 =>
            split at hok
            · cases hok
              exact ⟨_, [], rfl, rfl⟩
            · cases hok
        all_goals exact hemit hok

/-- A node as the body of a document. -/
lemma body_eq_ok_of_node {t : Tagging} {place : Place} {n : Nat} (hL : IsStream L)
    (hleft : Left L ls) (h : node t place n ls = .ok (es, rest)) :
    Left L rest ∧ (Clear rest → Derives L .node ls es rest) ∧
      ∃ b bs, es = b :: bs ∧ b.start = (front ls).start := by
  obtain ⟨hrest, hnode⟩ := (described hL n).node hleft h
  exact ⟨hrest, hnode, exists_first_of_node h⟩

/-- The end of a document behind its body, which may be left unmarked. -/
lemma exists_closers (hL : IsStream L) (hmid : Left L mid) :
    ∃ closers, mid = closers ++ (documentEnd mid).2 ∧
      Closes closers (documentEnd mid).2 (documentEnd mid).1 ∧ Left L (documentEnd mid).2 ∧
      (Clear (documentEnd mid).2 → Clear mid) ∧
      CutAt L (documentEnd mid).1.stop.index (documentEnd mid).2 := by
  obtain ⟨l, mid, rfl⟩ := hmid.exists_cons
  rw [documentEnd, front_cons]
  split
  · next hl =>
      exact ⟨[l], rfl, .marked hl, hmid.tail hL (by simp [hl]),
        fun _ => clear_of_isOwned (by rw [front_cons, hl]; rfl), hmid.cutAt_stop hL⟩
  · exact ⟨[], rfl, .unmarked, hmid, id, hmid.cutAt_start hL⟩

/-- The body of a document and the document's end, in front of other documents. -/
lemma documentRest_eq_ok (hL : IsStream L) {r : Reading} (hopens : Opens L first heads ks e)
    (hstart : CutAt L e.start.index (heads ++ ks))
    (hr : ∀ {es rest}, r = .ok (es, rest) → Left L rest ∧
      (Clear rest → Derives L .node ks es rest) ∧ ∃ b bs, es = b :: bs ∧ b.start = (front ks).start)
    (h : emit [e] (documentRest r) = .ok (es, rest)) :
    Left L rest ∧ (Clear rest → ∀ {es'}, DerivesDocuments L false rest es' →
      DerivesDocuments L first (heads ++ ks) (es ++ es')) := by
  obtain ⟨es₂, hrest, rfl⟩ := emit_eq_ok_iff.mp h
  rw [documentRest] at hrest
  obtain ⟨⟨body, mid⟩, hbody, hok⟩ := Except.bind_eq_ok_iff.mp hrest
  have hend : (body ++ [(documentEnd mid).1], (documentEnd mid).2) = (es₂, rest) :=
    Except.ok.inj hok
  obtain ⟨rfl, rfl⟩ := Prod.mk.inj hend
  obtain ⟨hmid, hderives, hbegins⟩ := hr hbody
  obtain ⟨closers, hsplit, hclosers, hleft, hclear, hcut⟩ := exists_closers hL hmid
  refine ⟨hleft, fun hf es' hmore => ?_⟩
  have hnode := hderives (hclear hf)
  rw [hsplit] at hnode
  simpa using DerivesDocuments.document hopens hstart hnode hbegins hclosers hcut hleft hmore

/-- The first document, if it begins without a marker. -/
lemma implicitDocument_eq_ok (hL : IsStream L) (hleft : Left L ls) (hlead : ∃ l, L = l :: ls)
    (h : implicitDocument ls = .ok (es, rest)) :
    Left L rest ∧ ((es = [] ∧ rest = ls) ∨ (Clear rest → ∀ {es'},
      DerivesDocuments L false rest es' → DerivesDocuments L true ls (es ++ es'))) := by
  rw [implicitDocument] at h
  split at h
  case h_4 =>
      obtain ⟨l, hl⟩ := hlead
      obtain ⟨hrest, hdocument⟩ := documentRest_eq_ok hL (.bare hl) (hleft.cutAt_start hL)
        (body_eq_ok_of_node hL hleft) h
      exact ⟨hrest, .inr hdocument⟩
  all_goals
      cases h
      exact ⟨hleft, .inl ⟨rfl, rfl⟩⟩

/-- The directives that are read. -/
lemma directives_eq_ok (hL : IsStream L) : ∀ {ls : List Lexeme} {d d' : Directives},
    Left L ls → directives d ls = .ok (d', rest) →
      Left L rest ∧ ∃ ds, ls = ds ++ rest ∧ ∀ l ∈ ds, l.content.isDirective = true := by
  intro ls
  induction ls with
  | nil => exact fun hleft => absurd rfl hleft.ne_nil
  | cons l ls ih =>
      intro d d' hleft h
      -- a directive that is passed over
      have hskip : ∀ {d'' : Directives} {x : Directive}, l.content = .directive x →
          directives d'' ls = .ok (d', rest) →
          Left L rest ∧ ∃ ds, l :: ls = ds ++ rest ∧ ∀ l ∈ ds, l.content.isDirective = true := by
        intro d'' x hl hmore
        obtain ⟨hrest, ds, rfl, hds⟩ := ih (hleft.tail hL (by rw [hl]; simp)) hmore
        exact ⟨hrest, l :: ds, rfl, List.forall_mem_cons.mpr ⟨by rw [hl]; rfl, hds⟩⟩
      unfold directives at h
      split at h
      · split at h
        · cases h
        · split at h
          · cases h
          · next heq _ _ =>
              cases heq
              exact hskip rfl h
      · split at h
        · cases h
        · next heq _ =>
            cases heq
            exact hskip rfl h
      · next heq =>
          cases heq
          exact hskip rfl h
      · cases h
        exact ⟨hleft, [], rfl, by simp⟩

/-- The body of a document that begins with a marker; it is empty in front of what can be no node.
-/
lemma documentBody_eq_ok (hL : IsStream L) (hleft : Left L ks) {handles : Tagging}
    (h : documentBody handles ks = .ok (es, rest)) :
    Left L rest ∧ (Clear rest → Derives L .node ks es rest) ∧
      ∃ b bs, es = b :: bs ∧ b.start = (front ks).start := by
  rw [documentBody] at h
  split at h
  case h_5 => exact body_eq_ok_of_node hL hleft h
  all_goals
      cases h
      exact ⟨hleft, fun _ => .empty (hleft.cutAt_start hL), _, [], rfl, rfl⟩

/-- A document that begins with a marker. In front of it stands no property. -/
lemma explicitDocument_eq_ok (hL : IsStream L) (hleft : Left L ls)
    (h : explicitDocument ls = .ok (es, rest)) :
    Left L rest ∧ Clear ls ∧ (Clear rest → ∀ {first es'},
      DerivesDocuments L false rest es' → DerivesDocuments L first ls (es ++ es')) := by
  rw [explicitDocument] at h
  obtain ⟨⟨d, ks⟩, hdirectives, hok⟩ := Except.bind_eq_ok_iff.mp h
  obtain ⟨hks, ds, rfl, hds⟩ := directives_eq_ok hL hleft hdirectives
  obtain ⟨marker, ks, rfl⟩ := hks.exists_cons
  dsimp only at hok
  rw [front_cons, List.tail_cons] at hok
  split at hok
  · obtain ⟨_, hrefuse, -⟩ := Except.bind_eq_ok_iff.mp hok
    cases hrefuse
  · next hmarker =>
      have hmarker : marker.content = .documentStart := by simpa using hmarker
      have hbody := hks.tail hL (by rw [hmarker]; simp)
      have hopens (first : Bool) : Opens L first (ds ++ [marker]) ks _ := .marked hds hmarker
      have hstart : CutAt L (front (ds ++ marker :: ks)).start.index (ds ++ [marker] ++ ks) := by
        simpa using hleft.cutAt_start hL
      have hdocument (first : Bool) := documentRest_eq_ok hL (hopens first) hstart
        (documentBody_eq_ok hL hbody) hok
      refine ⟨(hdocument true).1, ?_, fun hf {first} {es'} hmore => ?_⟩
      · refine clear_of_isOwned ((hopens true).isOwned _ ?_)
        cases ds with
        | nil => exact List.mem_cons_self
        | cons c cs => exact List.mem_cons_self
      · simpa using (hdocument first).2 hf hmore

/-- Marks of document ends in front of a document are passed over. -/
lemma left_dropWhile_documentEnd (hL : IsStream L) : ∀ {ls : List Lexeme}, Left L ls →
    Left L (ls.dropWhile (·.content = .documentEnd)) ∧
      (Clear (ls.dropWhile (·.content = .documentEnd)) → Clear ls) ∧
      ∀ {es}, (∀ first, DerivesDocuments L first (ls.dropWhile (·.content = .documentEnd)) es) →
        ∀ first, DerivesDocuments L first ls es := by
  intro ls
  induction ls with
  | nil => exact fun hleft => absurd rfl hleft.ne_nil
  | cons l ls ih =>
      intro hleft
      by_cases hl : l.content = .documentEnd
      · rw [List.dropWhile_cons_of_pos (by simpa using hl)]
        obtain ⟨hrest, -, hskip⟩ := ih (hleft.tail hL (by rw [hl]; simp))
        exact ⟨hrest, fun _ => clear_of_isOwned (by rw [front_cons, hl]; rfl),
          fun r _ => .closed hl (hskip r false)⟩
      · rw [List.dropWhile_cons_of_neg (by simpa using hl)]
        exact ⟨hleft, id, id⟩

/-- The documents up to the end of the stream. -/
lemma documents_eq_ok (hL : IsStream L) : ∀ {n : Nat} {ls : List Lexeme} {es : List Event},
    Left L ls → documents n ls = .ok es →
      Clear ls ∧ ∀ first, DerivesDocuments L first ls es := by
  intro n
  induction n with
  | zero =>
      intro ls es _ h
      cases h
  | succ n ih =>
      intro ls es hleft h
      rw [documents] at h
      obtain ⟨hleft', hclear, hskip⟩ := left_dropWhile_documentEnd hL hleft
      suffices hbehind : Clear (ls.dropWhile (·.content = .documentEnd)) ∧
          ∀ first, DerivesDocuments L first (ls.dropWhile (·.content = .documentEnd)) es from
        ⟨hclear hbehind.1, hskip hbehind.2⟩
      dsimp only at h
      split at h
      · next hend =>
          cases h
          -- nothing is left behind the end of the stream
          obtain ⟨l, ks, hks⟩ := hleft'.exists_cons
          obtain ⟨pre, hpre⟩ := hleft'.suffix
          rw [hks] at hend hpre ⊢
          rw [front_cons] at hend
          rw [hL.ends pre l ks hpre.symm hend]
          exact ⟨clear_of_isOwned (by rw [front_cons, hend]; rfl),
            fun _ => .done (by simpa using hend)⟩
      · obtain ⟨⟨es₁, rest⟩, hdocument, hok⟩ := Except.bind_eq_ok_iff.mp h
        obtain ⟨es₂, hmore, hok⟩ := Except.bind_eq_ok_iff.mp hok
        cases hok
        obtain ⟨hrest, hfront, hdocument⟩ := explicitDocument_eq_ok hL hleft' hdocument
        obtain ⟨hf, hmore⟩ := ih hrest hmore
        exact ⟨hfront, fun _ => hdocument hf (hmore false)⟩

/-- **The events of a stream have a derivation** from the units behind its start. -/
theorem derivesDocuments_of_ofLexemes (hL : IsStream L) (h : Event.ofLexemes L = .ok es) :
    ∃ e es', es = e :: es' ∧ DerivesDocuments L true L.tail es' := by
  rw [Event.ofLexemes] at h
  obtain ⟨⟨es₁, rest⟩, hfirst, hok⟩ := Except.bind_eq_ok_iff.mp h
  obtain ⟨es₂, hmore, hok⟩ := Except.bind_eq_ok_iff.mp hok
  cases hok
  refine ⟨_, es₁ ++ es₂, rfl, ?_⟩
  by_cases hnil : L.tail = []
  · -- a stream of one unit has no documents
    rw [hnil] at hfirst ⊢
    cases hfirst
    cases hmore
    exact .done (by simp)
  · obtain ⟨l, ls, rfl⟩ := List.exists_cons_of_ne_nil (l := L) (by rintro rfl; exact hnil rfl)
    obtain ⟨hrest, ⟨rfl, rfl⟩ | hdocument⟩ :=
      implicitDocument_eq_ok hL ⟨List.suffix_cons l ls, hnil⟩ ⟨l, rfl⟩ hfirst
    · exact (documents_eq_ok hL hrest hmore).2 true
    · obtain ⟨hf, hmore⟩ := documents_eq_ok hL hrest hmore
      exact hdocument hf (hmore false)

end Grammar

end YamlNavigator.Yaml
