import Mathlib.Data.List.Find
import YamlNavigator.Proofs.Document.Openers

/-!
The markers of documents, and the tokens that define documents.

* `Source.definingToken?_of_front`, `Source.definingToken?_of_barred`: what defines a node in front
  of which a unit of its kind stands, and one that begins with a unit of another kind;
* `Composes.isPreface`: no directive and no marker stands among the units of a body;
* `MarkedBy`: a document that is opened by a marker, with its directives;
* `markedBy_of_documents`: each marker of a stream opens one document, in their order;
* `documents_marked`: the same for the texts that are accepted. The marker defines its document if
  no directive stands in front of it; otherwise the last unit with text in front of the directives
  does;
* `documents_marked_separated`, `document_unmarked`: documents with and without directives.
-/

namespace YamlNavigator

open Yaml Grammar

/-! ### Defining tokens -/

namespace Source

variable {src : Source} {pre us : List (Lexeme × Token)} {u : Lexeme × Token}
variable {accepts : Content → Bool} {stop : Nat}

/-- No unit is accepted behind one that is no property, takes text and is not accepted itself. -/
lemma firstAccepted?_eq_none {r : List (Lexeme × Token)} (hu : accepts u.1.content = false)
    (hproperty : u.1.isProperty = false) (hempty : u.1.isEmpty = false) :
    ∀ {xs : List (Lexeme × Token)}, (∀ x ∈ xs, accepts x.1.content = false) →
      firstAccepted? accepts stop (xs ++ u :: r) = none
  | [], _ => by
      obtain ⟨l, t⟩ := u
      rw [List.nil_append, firstAccepted?, if_neg (by simp [hu]),
        if_neg (by simp [hproperty, hempty])]
  | (l, t) :: xs, hxs => by
      rw [List.cons_append, firstAccepted?, if_neg (by simp [hxs (l, t) List.mem_cons_self])]
      split
      · exact firstAccepted?_eq_none hu hproperty hempty
          fun x hx => hxs x (List.mem_cons_of_mem _ hx)
      · rfl

section Cut

variable (hL : IsStream (src.units.map Prod.fst)) (h : src.units = pre ++ u :: us)
variable (hfull : ∀ l : Lexeme, l.IsSound → accepts l.content = true → l.isEmpty = false)

include hL h hfull

/-- The units from the start of a unit on: in front of it stand some without text, which are not
accepted. -/
lemma exists_dropWhile_start : ∃ front zs, pre = front ++ zs ∧
    src.units.takeWhile (·.1.start.index < u.1.start.index) = front ∧
    src.units.dropWhile (·.1.start.index < u.1.start.index) = zs ++ u :: us ∧
    ∀ z ∈ zs, z.1.isEmpty = true ∧ accepts z.1.content = false := by
  obtain ⟨hpre, hus⟩ := Compose.cut_front hL h (List.cons_ne_nil u us)
  obtain ⟨zs, hdrop, hzs⟩ := exists_dropWhile hL h hpre hus
  have hsplit := List.takeWhile_append_dropWhile
    (p := fun v : Lexeme × Token => decide (v.1.start.index < u.1.start.index)) (l := src.units)
  rw [List.map_cons, front_cons] at hdrop
  rw [hdrop, ← List.append_assoc, h] at hsplit
  refine ⟨_, zs, (List.append_cancel_right hsplit).symm, by rw [h], hdrop, fun z hz => ?_⟩
  refine ⟨(hzs z hz).1, Bool.eq_false_iff.mpr fun haccepts => ?_⟩
  have hmem : z ∈ src.units :=
    (List.dropWhile_suffix _).subset (hdrop ▸ List.mem_append_left (u :: us) hz)
  have hempty := hfull z.1 (hL.isSound z.1 (List.mem_map_of_mem hmem)) haccepts
  rw [(hzs z hz).1] at hempty
  cases hempty

/-- What defines a node that starts with a unit of its kind. -/
lemma definingToken?_of_front (hu : accepts u.1.content = true) (hstop : u.1.stop.index ≤ stop) :
    src.definingToken? accepts u.1.start.index stop = some u.2 := by
  obtain ⟨front, zs, -, -, hdrop, hzs⟩ := exists_dropWhile_start hL h hfull
  rw [definingToken?, hdrop, firstAccepted?_eq_some hu hstop]
  exact fun z hz => ⟨(hzs z hz).2, .inr (hzs z hz).1⟩

/-- What defines a node that starts with a unit with text which is neither of its kind nor a
property: the last unit with text in front of it. -/
lemma definingToken?_of_barred (hu : accepts u.1.content = false)
    (hproperty : u.1.isProperty = false) (hempty : u.1.isEmpty = false)
    (hstop : ∀ v ∈ pre, v.1.stop.index ≤ stop) :
    src.definingToken? accepts u.1.start.index stop =
      (pre.reverse.find? fun v => !v.1.isEmpty).map Prod.snd := by
  obtain ⟨front, zs, rfl, htake, hdrop, hzs⟩ := exists_dropWhile_start hL h hfull
  rw [definingToken?, hdrop,
    firstAccepted?_eq_none hu hproperty hempty fun z hz => (hzs z hz).2, htake]
  have hnone : zs.reverse.find? (fun v => !v.1.isEmpty) = none := by
    rw [List.find?_eq_none]
    intro z hz
    simp [(hzs z (List.mem_reverse.mp hz)).1]
  rw [List.reverse_append, List.find?_append, hnone, Option.none_or]
  refine congrArg (Option.map Prod.snd) (List.find?_congr fun v hv => ?_)
  have hle := hstop v (List.mem_append_left zs (List.mem_reverse.mp hv))
  simp [hle]

end Cut

end Source

/-- Markers take text. -/
lemma isEmpty_of_isDocumentUnit {l : Lexeme} (hsound : l.IsSound)
    (h : isDocumentUnit l.content = true) : l.isEmpty = false := by
  refine Bool.eq_false_iff.mpr fun hempty => ?_
  have hpoint := isPoint_of_isEmpty hsound hempty
  revert h hpoint
  cases l.content <;> simp [isDocumentUnit, Content.isPoint]

/-- Directives take text, and are neither markers nor properties. -/
lemma barred_of_isDirective {l : Lexeme} (hsound : l.IsSound) (h : l.content.isDirective = true) :
    isDocumentUnit l.content = false ∧ l.isProperty = false ∧ l.isEmpty = false := by
  have hempty : l.isEmpty = false := by
    refine Bool.eq_false_iff.mpr fun hempty => ?_
    have hpoint := isPoint_of_isEmpty hsound hempty
    revert h hpoint
    cases l.content <;> simp [Content.isDirective, Content.isPoint]
  refine ⟨?_, ?_, hempty⟩
  · revert h
    cases l.content <;> simp [isDocumentUnit, Content.isDirective]
  · rw [Lexeme.isProperty]
    revert h
    cases l.content <;> simp [Content.isDirective]

/-! ### The units of bodies -/

/-- Properties stand in the body of a document. -/
lemma isPreface_of_isProperty {l : Lexeme} (h : l.isProperty = true) : l.content.isPreface = false := by
  rw [Lexeme.isProperty] at h
  cases hl : l.content <;> rw [hl] at h <;> first | rfl | cases h

/-- The units around the contents of a collection stand in the body of a document. -/
lemma isPreface_of_frames {s : Section} {c : Content} (h : s.frames c = true) :
    c.isPreface = false := by
  revert h
  cases s <;> cases c <;> simp [Section.frames, Content.isPreface]

/-- The units that lead to an item or to a key stand in the body of a document. -/
lemma isPreface_of_leads {flow : Bool} {c : Content}
    (h : leadsItem flow c = true ∨ leadsKey flow c = true) : c.isPreface = false := by
  revert h
  cases c <;> simp [leadsItem, leadsKey, Content.isPreface]

/-- Properties stand in the body of a document. -/
lemma isPreface_of_announces {ps : List (Lexeme × Token)} {anchor tag : Option String}
    (h : Announces (ps.map Prod.fst) anchor tag) : ∀ u ∈ ps, u.1.content.isPreface = false :=
  fun u hu => isPreface_of_isProperty (h.isProperty u.1 (List.mem_map_of_mem hu))

/-- **No section of the grammar takes a directive or a marker.** -/
theorem Compose.Composes.isPreface {src : Source} {s : Section} {mid back : List (Lexeme × Token)}
    {c : Contents} (h : Composes src s mid back c) : ∀ u ∈ mid, u.1.content.isPreface = false := by
  induction h with
  | reference hu => simp [hu, Content.isPreface]
  | scalar props hu =>
      exact List.forall_mem_append.mpr
        ⟨isPreface_of_announces props, by simp [hu, Content.isPreface]⟩
  | bare props _ => exact isPreface_of_announces props
  | empty _ | missing _ | itemsEnd _ | entriesEnd _ => simp
  | sequence props _ _ _ ih | mapping props _ _ _ ih =>
      exact List.forall_mem_append.mpr ⟨isPreface_of_announces props, ih⟩
  | valued hu _ ih => exact List.forall_mem_cons.mpr ⟨by rw [hu]; rfl, ih⟩
  | frame hframes _ ih => exact List.forall_mem_cons.mpr ⟨isPreface_of_frames hframes, ih⟩
  | item leads _ _ ih ih' | pair leads _ _ _ ih ih' =>
      exact List.forall_mem_cons.mpr
        ⟨isPreface_of_leads (.inl leads), List.forall_mem_append.mpr ⟨ih, ih'⟩⟩
  | entry leads _ _ _ ih ih' ih'' =>
      exact List.forall_mem_cons.mpr ⟨isPreface_of_leads (.inr leads),
        List.forall_mem_append.mpr ⟨List.forall_mem_append.mpr ⟨ih, ih'⟩, ih''⟩⟩

/-- Units that stand in the body of a document are no markers, and no directives. -/
lemma ne_of_isPreface {c : Content} (h : c.isPreface = false) :
    c ≠ .documentStart ∧ c.isDirective = false := by
  revert h
  cases c <;> simp [Content.isPreface, Content.isDirective]

/-! ### Documents and their markers -/

/-- The document `d` of a stream is opened by the marker `u`, with all the directives in front of
it. It starts with the first of these, and its body stands behind the marker. Without directives the
marker defines the document, with any of them the last unit with text in front of them does. -/
structure MarkedBy (us before directives : List (Lexeme × Token)) (u : Lexeme × Token)
    (d : Node) : Prop where
  isPrefix : before ++ (directives ++ [u]) <+: us
  isMarker : u.1.content = .documentStart
  isDirective : ∀ v ∈ directives, v.1.content.isDirective = true
  not_isDirective : ∀ v ∈ before.getLast?, v.1.content.isDirective = false
  start_eq : d.start = (directives.headD u).1.start.index
  exists_body : ∃ b, d.children = [b] ∧ u.1.stop.index ≤ b.start
  token_eq : d.token = if directives = [] then some u.2
    else (before.reverse.find? fun v => !v.1.isEmpty).map Prod.snd

namespace Compose

variable {src : Source} {pre us : List (Lexeme × Token)}

/-- The token that defines a document with a marker. -/
lemma documentToken_of_marker {directives : List (Lexeme × Token)} {u : Lexeme × Token}
    {stop : Mark} {last : Event} {body : Node} (hL : IsStream (src.units.map Prod.fst))
    (hunits : src.units = pre ++ (directives ++ u :: us))
    (hdirectives : ∀ v ∈ directives, v.1.content.isDirective = true)
    (hu : u.1.content = .documentStart) (hpre : ∀ v ∈ pre, v.1.stop.index ≤ last.stop.index)
    (hstop : u.1.stop.index ≤ last.stop.index) :
    documentToken src ⟨.documentStart true, (directives.headD u).1.start, stop⟩ last body =
      if directives = [] then some u.2
      else (pre.reverse.find? fun v => !v.1.isEmpty).map Prod.snd := by
  rw [documentToken, if_pos rfl]
  have hfull : ∀ l : Lexeme, l.IsSound → isDocumentUnit l.content = true → l.isEmpty = false :=
    fun l => isEmpty_of_isDocumentUnit
  cases directives with
  | nil =>
      rw [if_pos rfl]
      have haccepts : isDocumentUnit u.1.content = true := by
        rw [hu]
        rfl
      exact Source.definingToken?_of_front hL hunits hfull haccepts hstop
  | cons v directives =>
      rw [if_neg (List.cons_ne_nil v directives)]
      have hsound : v.1.IsSound := hL.isSound v.1 (List.mem_map_of_mem (by simp [hunits]))
      obtain ⟨haccepts, hproperty, hempty⟩ :=
        barred_of_isDirective hsound (hdirectives v List.mem_cons_self)
      exact Source.definingToken?_of_barred hL hunits hfull haccepts hproperty hempty hpre

/-- A document that is composed behind directives and a marker is opened by that marker. -/
lemma markedBy_document {directives mid closers back : List (Lexeme × Token)} {u : Lexeme × Token}
    {stop : Mark} {last : Event} {body : Node} (hL : IsStream (src.units.map Prod.fst))
    (hunits : src.units = pre ++ (directives ++ [u]) ++ (mid ++ (closers ++ back)))
    (hdirectives : ∀ v ∈ directives, v.1.content.isDirective = true)
    (hu : u.1.content = .documentStart)
    (hpre : ∀ v ∈ pre.getLast?, v.1.content.isDirective = false)
    (hbody : Composes src .node mid (closers ++ back) (.one body))
    (hstop : CutAt (src.units.map Prod.fst) last.stop.index (back.map Prod.fst)) :
    MarkedBy src.units pre directives u (.documentOf (some body)
      (documentToken src ⟨.documentStart true, (directives.headD u).1.start, stop⟩ last body)
      (directives.headD u).1.start.index last.stop.index) := by
  obtain ⟨hheld, -⟩ := held_of_composes hL hbody (pre ++ (directives ++ [u])) hunits
  have hle : ∀ v ∈ pre ++ (directives ++ [u]), v.1.stop.index ≤ last.stop.index := by
    intro v hv
    refine hstop.before ((pre ++ (directives ++ [u]) ++ (mid ++ closers)).map Prod.fst) ?_ v.1
      (List.mem_map_of_mem (List.mem_append_left _ hv))
    simp [hunits]
  have htoken : documentToken src ⟨.documentStart true, (directives.headD u).1.start, stop⟩ last
      body = if directives = [] then some u.2
        else (pre.reverse.find? fun v => !v.1.isEmpty).map Prod.snd :=
    documentToken_of_marker hL (by simpa using hunits) hdirectives hu
      (fun v hv => hle v (List.mem_append_left _ hv)) (hle u (by simp))
  exact {
    isPrefix := ⟨_, hunits.symm⟩
    isMarker := hu
    isDirective := hdirectives
    not_isDirective := hpre
    start_eq := rfl
    exists_body := ⟨body, rfl, hheld.before body (List.mem_singleton_self body) u (by simp)⟩
    token_eq := htoken }

/-- Units of which none is a marker may stand in front. -/
lemma filter_documentStart {xs : List (Lexeme × Token)}
    (h : ∀ v ∈ xs, v.1.content ≠ .documentStart) :
    (xs ++ us).filter (·.1.content = .documentStart) =
      us.filter (·.1.content = .documentStart) := by
  have hnone : xs.filter (·.1.content = .documentStart) = [] :=
    List.filter_eq_nil_iff.mpr fun v hv => by simp [h v hv]
  rw [List.filter_append, hnone, List.nil_append]

/-- No directive stands directly behind other units. -/
lemma not_isDirective_append {xs ys : List (Lexeme × Token)}
    (hxs : ∀ v ∈ xs.getLast?, v.1.content.isDirective = false)
    (hys : ∀ v ∈ ys, v.1.content.isDirective = false) :
    ∀ v ∈ (xs ++ ys).getLast?, v.1.content.isDirective = false := by
  intro v hv
  rw [List.getLast?_append, Option.mem_def, Option.or_eq_some_iff] at hv
  rcases hv with hv | ⟨-, hv⟩
  · exact hys v (List.mem_of_getLast? hv)
  · exact hxs v hv

/-- **Each marker opens one document.** At most the first document of a stream has no marker; then
its body defines it. The others are opened by the markers of the stream, in their order. -/
theorem markedBy_of_documents (hL : IsStream (src.units.map Prod.fst)) {first : Bool}
    {ds : List Node} (h : ComposesDocuments src first us ds) :
    ∀ pre, src.units = pre ++ us → (∀ v ∈ pre.getLast?, v.1.content.isDirective = false) →
      ∃ bare marked, ds = bare ++ marked ∧ bare.length ≤ 1 ∧ (first = false → bare = []) ∧
        (∀ n ∈ bare, ∃ b, n.children = [b] ∧ n.token = b.token) ∧
        List.Forall₂ (fun d u => ∃ before directives, MarkedBy src.units before directives u d) marked
          (us.filter (·.1.content = .documentStart)) := by
  induction h with
  | @done _ us hus =>
      intro pre _ _
      have hnone : us.filter (·.1.content = .documentStart) = [] :=
        List.filter_eq_nil_iff.mpr fun u hu => by simp [hus u hu]
      rw [hnone]
      exact ⟨[], [], rfl, Nat.zero_le 1, fun _ => rfl, by simp, .nil⟩
  | @closed _ u us _ hu _ ih =>
      intro pre hunits _
      obtain ⟨bare, marked, rfl, hlen, hbare, htoken, hmarked⟩ :=
        ih (pre ++ [u]) (by simpa using hunits) (by simp [hu, Content.isDirective])
      obtain rfl := hbare rfl
      rw [List.filter_cons_of_neg (by simp [hu])]
      exact ⟨[], marked, rfl, hlen, fun _ => rfl, htoken, hmarked⟩
  | @document first heads mid closers back e last body ds opens _ node _ closes stop _ ih =>
      intro pre hunits hpre
      have hmid := fun v hv => ne_of_isPreface (node.isPreface v hv)
      have hbehind : ∀ v ∈ mid ++ closers, v.1.content ≠ .documentStart ∧
          v.1.content.isDirective = false :=
        List.forall_mem_append.mpr ⟨hmid, fun v hv => by simp [closes v hv, Content.isDirective]⟩
      -- behind the body and its end stand the other markers
      have hmore : (∀ v ∈ (pre ++ heads).getLast?, v.1.content.isDirective = false) →
          List.Forall₂ (fun d u => ∃ before directives, MarkedBy src.units before directives u d) ds
            ((mid ++ (closers ++ back)).filter (·.1.content = .documentStart)) := by
        intro hheads
        obtain ⟨bare, marked, rfl, -, hbare, -, hmarked⟩ :=
          ih (pre ++ heads ++ (mid ++ closers)) (by simpa using hunits)
            (not_isDirective_append hheads fun v hv => (hbehind v hv).2)
        obtain rfl := hbare rfl
        rwa [← List.append_assoc, filter_documentStart fun v hv => (hbehind v hv).1]
      rcases heads_of_opens opens with
        ⟨rfl, rfl, hstep, -⟩ | ⟨directives, u, rfl, hdirectives, hu, rfl⟩
      · -- without a marker the body defines the document
        refine ⟨[_], ds, rfl, Nat.le_refl 1, by simp, List.forall_mem_singleton.mpr ⟨body, rfl, ?_⟩,
          hmore (by simpa using hpre)⟩
        show documentToken src e last body = body.token
        rw [documentToken, if_neg (by simp [hstep])]
      · refine ⟨[], _, rfl, Nat.zero_le 1, fun _ => rfl, by simp, ?_⟩
        rw [List.append_assoc, filter_documentStart fun v hv heq => ?_, List.singleton_append,
          List.filter_cons_of_pos (by simp [hu])]
        · refine .cons ⟨pre, directives, ?_⟩ (hmore ?_)
          · exact markedBy_document hL (by simpa using hunits) hdirectives hu hpre node stop
          · rw [← List.append_assoc, List.getLast?_concat]
            simp [hu, Content.isDirective]
        · have := hdirectives v hv
          rw [heq] at this
          cases this

end Compose

/-! ### Texts that are accepted -/

namespace MarkedBy

variable {us before directives : List (Lexeme × Token)} {u : Lexeme × Token} {d : Node}

/-- A document starts in front of its marker or with it. -/
lemma start_le (h : MarkedBy us before directives u d) (hL : IsStream (us.map Prod.fst)) :
    d.start ≤ u.1.start.index := by
  rw [h.start_eq]
  obtain ⟨after, hus⟩ := h.isPrefix
  cases directives with
  | nil => exact Nat.le_refl _
  | cons v directives =>
      have hsplit : us = before ++ v :: (directives ++ u :: after) := by simp [← hus]
      have hsound := hL.isSound v.1 (List.mem_map_of_mem (by simp [hsplit]))
      have hord := hL.inOrder
      rw [hsplit, List.map_append, List.map_cons, InOrder, List.pairwise_append,
        List.pairwise_cons] at hord
      calc v.1.start.index ≤ v.1.stop.index := hsound.start_le
        _ ≤ u.1.start.index := hord.2.1.1 u.1 (List.mem_map_of_mem (by simp))

/-- The marker defines its document if and only if no directive stands in front of it. -/
lemma token_iff (h : MarkedBy us before directives u d) (hnum : Numbered us) :
    d.token = some u.2 ↔ directives = [] := by
  rw [h.token_eq]
  split
  · next hnil => simp [hnil]
  · next hne =>
      refine iff_of_false (fun heq => ?_) hne
      -- the token of a unit in front of the marker has a smaller number
      obtain ⟨v, hv, hvu⟩ := Option.map_eq_some_iff.mp heq
      obtain ⟨after, hus⟩ := h.isPrefix
      rw [← hus, List.append_assoc, Numbered, List.pairwise_append] at hnum
      have hlt := hnum.2.2 v (List.mem_reverse.mp (List.mem_of_find?_eq_some hv)) u (by simp)
      rw [hvu] at hlt
      exact absurd hlt (lt_irrefl _)

end MarkedBy

/-- **The markers of documents.** In a text that is accepted at most the first document has no
marker; its body defines it. Each of the others is opened by a marker, which stands between the
start of the document and its body, and each marker opens one of them. The marker defines the
document if no directive stands in front of it. Otherwise the last unit with text in front of the
directives defines it, if there is one. -/
theorem documents_marked {source : String} {d : Parsed} (h : parse source = .ok d) :
    ∃ ls bare marked, Lexeme.scan source.toList = .ok ls ∧
      d.documents.children = bare ++ marked ∧ bare.length ≤ 1 ∧
      (∀ n ∈ bare, ∃ b, n.children = [b] ∧ n.token = b.token) ∧
      List.Forall₂ (fun n u => u.2 ∈ d.tokens.tokens ∧ u.2.kind = .documentIndicator ∧
          ∃ before directives, MarkedBy (unitsOf source.toList ls) before directives u n ∧
            n.start ≤ u.1.start.index ∧ (n.token = some u.2 ↔ directives = []))
        marked ((unitsOf source.toList ls).filter (·.1.content = .documentStart)) := by
  obtain ⟨ls, ds, w, us, hls, htokens, htree, hL, hunits, hw, hdocuments⟩ :=
    exists_composes_of_parse h
  have hcover := cover_of_scan hls
  obtain ⟨bare, marked, rfl, hbare, -, htoken, hmarked⟩ :=
    Compose.markedBy_of_documents hL hdocuments [w] hunits (by simp [hw, Content.isDirective])
  have hfilter : (unitsOf source.toList ls).filter (·.1.content = .documentStart) =
      us.filter (·.1.content = .documentStart) := by
    rw [hunits, List.filter_cons_of_neg (by simp [hw])]
  rw [← hfilter] at hmarked
  refine ⟨ls, bare, marked, hls, by rw [htree]; rfl, hbare, htoken, hmarked.imp ?_⟩
  rintro n u ⟨before, directives, hmarked⟩
  -- the tokens of markers stand in the stream
  have hu : u ∈ unitsOf source.toList ls := hmarked.isPrefix.subset (by simp)
  obtain ⟨i, hi⟩ := exists_place_of_mem_unitsOf hu
  have hmem := Array.mem_of_getElem? hi
  obtain ⟨-, hkind⟩ := eq_of_mem_unitsOf hcover hmem hu rfl
  rw [TokenKind.ofLexeme, hmarked.isMarker] at hkind
  rw [htokens]
  exact ⟨hmem, hkind, before, directives, hmarked, hmarked.start_le hL,
    hmarked.token_iff (numbered_unitsOf source.toList ls)⟩

/-- A document without a marker, one with a directive, which the end of the first document defines,
and one that its marker defines. -/
theorem documents_marked_separated :
    ∃ d ls bare marked, parse "a\n...\n%YAML 1.1\n--- b\n---\n- c\n" = .ok d ∧
      d.documents.children = bare ++ marked ∧ bare.length ≤ 1 ∧
      List.Forall₂ (fun n u => u.2.kind = .documentIndicator ∧ ∃ before directives,
          MarkedBy (unitsOf "a\n...\n%YAML 1.1\n--- b\n---\n- c\n".toList ls) before directives u n ∧
            (n.token = some u.2 ↔ directives = [])) marked
        ((unitsOf "a\n...\n%YAML 1.1\n--- b\n---\n- c\n".toList ls).filter
          (·.1.content = .documentStart)) ∧
      (d.documents.children.map fun n => n.token.map Token.origin) =
        [some "a", some "\n...", some "\n---"] := by
  obtain ⟨d, hd, htokens⟩ := Except.exists_ok_of_any
    (x := parse "a\n...\n%YAML 1.1\n--- b\n---\n- c\n") (p := fun d =>
      (d.documents.children.map fun n => n.token.map Token.origin) ==
        [some "a", some "\n...", some "\n---"]) (by decide +kernel)
  obtain ⟨ls, bare, marked, -, hchildren, hbare, -, hmarked⟩ := documents_marked hd
  refine ⟨d, ls, bare, marked, hd, hchildren, hbare, hmarked.imp ?_, by simpa using htokens⟩
  rintro n u ⟨-, hkind, before, directives, h, -, htoken⟩
  exact ⟨hkind, before, directives, h, htoken⟩

/-- Behind a directive the marker is not found, and with nothing in front of the directive nothing
defines the document. -/
theorem document_unmarked :
    ∃ d n marker, parse "%YAML 1.1\n--- a\n" = .ok d ∧ d.documents.children = [n] ∧
      (d.tokens.tokens.toList.filter fun t => t.kind = .documentIndicator) = [marker] ∧
      marker.origin = "\n---" ∧ n.token ≠ some marker ∧ n.token = none := by
  obtain ⟨d, hd, hcheck⟩ := Except.exists_ok_of_any (x := parse "%YAML 1.1\n--- a\n")
    (p := fun d => (d.documents.children.map Node.token == [none]) &&
      ((d.tokens.tokens.toList.filter fun t => t.kind = .documentIndicator).map Token.origin ==
        ["\n---"])) (by decide +kernel)
  rw [Bool.and_eq_true, beq_iff_eq, beq_iff_eq] at hcheck
  obtain ⟨hdocuments, hmarkers⟩ := hcheck
  obtain ⟨n, ns, hn, htoken, hns⟩ := List.map_eq_cons_iff.mp hdocuments
  obtain ⟨marker, ms, hm, horigin, hms⟩ := List.map_eq_cons_iff.mp hmarkers
  rw [List.map_eq_nil_iff.mp hns] at hn
  rw [List.map_eq_nil_iff.mp hms] at hm
  exact ⟨d, n, marker, hd, hn, hm, horigin, by simp [htoken], htoken⟩

end YamlNavigator
