import YamlNavigator.Proofs.Document.Matches
import YamlNavigator.Proofs.Document.Ownership
import YamlNavigator.Proofs.Document.Reading

/-!
No token that is written inside the span of a node is left out of its tokens.

* `Compose.held_of_info`: a composed node and the units that it was read from;
* `Compose.held_of_composes`: what a section of the grammar is composed to is held by the units that
  the section takes, by induction;
* `Compose.complete_of_documents`: no node of a composed document misses a token;
* `tokens_complete`: the same for the texts that are accepted, and for the matches of queries.
-/

namespace YamlNavigator

open Yaml Grammar

namespace Compose

variable {src : Source} {pre ps mid us back : List (Lexeme × Token)} {path : String}
variable {accepts : Content → Bool} {anchor tag : Option String} {e : Event} {stop : Nat}

/-! ### Nodes and their units -/

/-- What a composed node owns are tokens of units. -/
lemma exists_of_mem_nodeInfo {t : Token}
    (h : t ∈ (nodeInfo src accepts path anchor tag e stop).properties ++
      (nodeInfo src accepts path anchor tag e stop).token.toList) : ∃ l, (l, t) ∈ src.units := by
  rcases List.mem_append.mp h with h | h
  · exact Source.exists_of_mem_propertyTokens h
  · exact Source.exists_of_definingToken? (Option.mem_toList.mp h)

/-- A composed node is held by the units that it was read from: those in front of its children,
whose tokens it owns itself, and those of its children. -/
lemma held_of_info {v : Node} (hL : IsStream (src.units.map Prod.fst))
    (hunits : src.units = pre ++ (ps ++ mid ++ back))
    (hinfo : v.info = nodeInfo src accepts path anchor tag e stop)
    (hchildren : Held src (pre ++ ps) mid back v.children)
    (hbefore : ∀ u ∈ pre, u.1.stop.index ≤ e.start.index)
    (hbehind : ∀ u ∈ back, stop ≤ u.1.start.index)
    (howned : ∀ u ∈ ps, u.1.content.isOwned = true →
      u.2 ∈ src.propertyTokens anchor tag e.start.index ∨
        src.definingToken? accepts e.start.index e.stop.index = some u.2) :
    Held src pre (ps ++ mid) back [v] := by
  have hown : v.ownTokens = (nodeInfo src accepts path anchor tag e stop).properties ++
      (nodeInfo src accepts path anchor tag e stop).token.toList := by
    rw [Node.ownTokens, Node.token, hinfo]
  refine hchildren.parent hL hunits ?_ ?_ (fun u hu hcontent => ?_) fun t ht => ?_
  · rw [Node.start, hinfo]
    exact hbefore
  · rw [Node.stop, hinfo]
    exact hbehind
  · rw [hown, List.mem_append]
    exact (howned u hu hcontent).imp_right Option.mem_toList.mpr
  · rw [hown] at ht
    exact exists_of_mem_nodeInfo ht

/-- A composed node without children is held by the units that it was read from. -/
lemma held_leaf {v : Node} (hL : IsStream (src.units.map Prod.fst))
    (hunits : src.units = pre ++ (ps ++ back))
    (hinfo : v.info = nodeInfo src accepts path anchor tag e stop) (hchildren : v.children = [])
    (hbefore : ∀ u ∈ pre, u.1.stop.index ≤ e.start.index)
    (hbehind : ∀ u ∈ back, stop ≤ u.1.start.index)
    (howned : ∀ u ∈ ps, u.2 ∈ src.propertyTokens anchor tag e.start.index ∨
      src.definingToken? accepts e.start.index e.stop.index = some u.2) :
    Held src pre ps back [v] := by
  have hheld := held_of_info hL (by rw [hunits, List.append_nil]) hinfo
    (by rw [hchildren]; exact Held.nil src _ back) hbefore hbehind fun u hu _ => howned u hu
  rwa [List.append_nil] at hheld

/-- The offset where the first unit that is left starts lies between the units. -/
lemma cut_front (hL : IsStream (src.units.map Prod.fst)) (hunits : src.units = pre ++ us)
    (hne : us ≠ []) : (∀ u ∈ pre, u.1.stop.index ≤ (front (us.map Prod.fst)).start.index) ∧
      ∀ u ∈ us, (front (us.map Prod.fst)).start.index ≤ u.1.start.index := by
  have hsplit : src.units.map Prod.fst = pre.map Prod.fst ++ us.map Prod.fst := by
    rw [hunits, List.map_append]
  have hcut := Left.cutAt_start ⟨⟨_, hsplit.symm⟩, by simpa using hne⟩ hL
  exact ⟨fun u hu => hcut.before _ hsplit u.1 (List.mem_map_of_mem hu),
    fun u hu => hcut.after u.1 (List.mem_map_of_mem hu)⟩

/-- The units behind a unit start where it stops or later. -/
lemma stop_le_of_mem (hL : IsStream (src.units.map Prod.fst)) {u v : Lexeme × Token}
    (hunits : src.units = pre ++ u :: us) (hv : v ∈ us) : u.1.stop.index ≤ v.1.start.index := by
  have hord := hL.inOrder
  rw [hunits, List.map_append, List.map_cons, InOrder, List.pairwise_append,
    List.pairwise_cons] at hord
  exact hord.2.1.1 v.1 (List.mem_map_of_mem hv)

/-- A node owns the tokens of the properties in front of it. -/
lemma mem_propertyTokens (hL : IsStream (src.units.map Prod.fst))
    (hunits : src.units = pre ++ (ps ++ us)) (hne : ps ++ us ≠ [])
    (hprops : Announces (ps.map Prod.fst) anchor tag) {u : Lexeme × Token} (hu : u ∈ ps) :
    u.2 ∈ src.propertyTokens anchor tag (front ((ps ++ us).map Prod.fst)).start.index := by
  obtain ⟨hpre, hus⟩ := cut_front hL hunits hne
  obtain ⟨zs, hdrop, hzs⟩ := Source.exists_dropWhile hL hunits hpre hus
  have hsome := hprops.isSome (by simpa using List.ne_nil_of_mem hu)
  have hisProperty : ∀ p ∈ ps, p.1.isProperty = true := fun p hp =>
    hprops.isProperty p.1 (List.mem_map_of_mem hp)
  rw [Source.propertyTokens, if_neg, hdrop, ← List.append_assoc]
  · refine Source.mem_leadingProperties (hisProperty u hu) (fun x hx => ?_)
      (List.mem_append_right zs hu)
    rcases List.mem_append.mp hx with hx | hx
    · exact .inr (hzs x hx).1
    · exact .inl (hisProperty x hx)
  · rcases hsome with h | h
    · simp [Option.isSome_iff_ne_none.mp h]
    · simp [Option.isSome_iff_ne_none.mp h]

/-- A node is defined by the first unit of its kind behind its properties. -/
lemma definingToken?_eq_some (hL : IsStream (src.units.map Prod.fst)) {u : Lexeme × Token}
    (hunits : src.units = pre ++ (ps ++ u :: us)) (hprops : Announces (ps.map Prod.fst) anchor tag)
    (haccepts : ∀ l : Lexeme, accepts l.content = true →
      l.content.isOwned = true ∧ l.isProperty = false) (hu : accepts u.1.content = true) :
    src.definingToken? accepts (front ((ps ++ u :: us).map Prod.fst)).start.index u.1.stop.index =
      some u.2 := by
  obtain ⟨hpre, hus⟩ := cut_front hL hunits (by simp)
  obtain ⟨zs, hdrop, hzs⟩ := Source.exists_dropWhile hL hunits hpre hus
  rw [Source.definingToken?, hdrop, ← List.append_assoc,
    Source.firstAccepted?_eq_some hu (Nat.le_refl _)]
  intro x hx
  rw [← Bool.not_eq_true]
  rcases List.mem_append.mp hx with hx | hx
  · refine ⟨fun hacc => ?_, .inr (hzs x hx).1⟩
    have := (hzs x hx).2
    rw [(haccepts x.1 hacc).1] at this
    cases this
  · have hprop := hprops.isProperty x.1 (List.mem_map_of_mem hx)
    refine ⟨fun hacc => ?_, .inl hprop⟩
    rw [(haccepts x.1 hacc).2] at hprop
    cases hprop

/-- Scalars belong to nodes and are no properties. -/
lemma isOwned_of_isScalarUnit (l : Lexeme) (h : isScalarUnit l.content = true) :
    l.content.isOwned = true ∧ l.isProperty = false := by
  rw [Lexeme.isProperty]
  cases hl : l.content <;> rw [hl] at h <;> simp_all [isScalarUnit, Content.isOwned]

/-- Aliases belong to nodes and are no properties. -/
lemma isOwned_of_isReferenceUnit (l : Lexeme) (h : isReferenceUnit l.content = true) :
    l.content.isOwned = true ∧ l.isProperty = false := by
  rw [Lexeme.isProperty]
  cases hl : l.content <;> rw [hl] at h <;> simp_all [isReferenceUnit, Content.isOwned]

/-! ### Trees from their units -/

/-- A scalar or an alias is held by its properties and its unit. -/
lemma held_unit {v : Node} {u : Lexeme × Token} (hL : IsStream (src.units.map Prod.fst))
    (hunits : src.units = pre ++ (ps ++ u :: back)) (hprops : Announces (ps.map Prod.fst) anchor tag)
    (haccepts : ∀ l : Lexeme, accepts l.content = true →
      l.content.isOwned = true ∧ l.isProperty = false) (hu : accepts u.1.content = true)
    (hstart : e.start = (front ((ps ++ u :: back).map Prod.fst)).start) (hstop : e.stop = u.1.stop)
    (hinfo : v.info = nodeInfo src accepts path anchor tag e u.1.stop.index)
    (hchildren : v.children = []) : Held src pre (ps ++ [u]) back [v] := by
  have hsplit : src.units = (pre ++ ps) ++ u :: back := by simp [hunits]
  refine held_leaf hL (by simp [hunits]) hinfo hchildren ?_
    (fun w hw => stop_le_of_mem hL hsplit hw) fun w hw => ?_
  · rw [hstart]
    exact (cut_front hL hunits (by simp)).1
  · rw [hstart, hstop]
    rcases List.mem_append.mp hw with hw | hw
    · exact .inl (mem_propertyTokens hL hunits (by simp) hprops hw)
    · rw [List.mem_singleton.mp hw]
      exact .inr (definingToken?_eq_some hL hunits hprops haccepts hu)

/-- A scalar without text is held by its properties. -/
lemma held_bare {v : Node} {u : Lexeme × Token} (hL : IsStream (src.units.map Prod.fst))
    (hunits : src.units = pre ++ (ps ++ u :: back))
    (hprops : Announces ((ps ++ [u]).map Prod.fst) anchor tag)
    (hstart : e.start = (front ((ps ++ u :: back).map Prod.fst)).start)
    (hinfo : v.info = nodeInfo src accepts path anchor tag e u.1.stop.index)
    (hchildren : v.children = []) : Held src pre (ps ++ [u]) back [v] := by
  have hsplit : src.units = (pre ++ ps) ++ u :: back := by simp [hunits]
  rw [List.append_cons] at hunits hstart
  refine held_leaf hL hunits hinfo hchildren ?_ (fun w hw => stop_le_of_mem hL hsplit hw)
    fun w hw => .inl ?_
  · rw [hstart]
    exact (cut_front hL hunits (by simp)).1
  · rw [hstart]
    exact mem_propertyTokens hL hunits (by simp) hprops hw

/-- A scalar that is not written is held by no units. -/
lemma held_empty {v : Node} {m : Mark} (hL : IsStream (src.units.map Prod.fst))
    (hunits : src.units = pre ++ back)
    (hcut : CutAt (src.units.map Prod.fst) m.index (back.map Prod.fst))
    (hinfo : v.info = nodeInfo src isScalarUnit path none none (emptyScalar m) m.index)
    (hchildren : v.children = []) : Held src pre [] back [v] := by
  have hsplit : src.units.map Prod.fst = pre.map Prod.fst ++ back.map Prod.fst := by
    rw [hunits, List.map_append]
  exact held_leaf hL hunits hinfo hchildren
    (fun u hu => hcut.before _ hsplit u.1 (List.mem_map_of_mem hu))
    (fun u hu => hcut.after u.1 (List.mem_map_of_mem hu)) (by simp)

/-- A collection stops where all units behind its contents start, or before. -/
lemma collectionStop_le {flow : Bool} {c : Contents} {offset : Nat}
    (hnodes : ∀ v ∈ c.nodes, v.stop ≤ offset) (hstop : c.stop ≤ offset) :
    collectionStop flow c ≤ offset := by
  have hfold : ∀ (vs : List Node) (m : Nat), (∀ v ∈ vs, v.stop ≤ offset) → m ≤ offset →
      vs.foldl (fun m n => max m n.stop) m ≤ offset := by
    intro vs
    induction vs with
    | nil => exact fun _ _ hm => hm
    | cons v vs ih =>
        intro m hvs hm
        exact ih _ (fun w hw => hvs w (List.mem_cons_of_mem v hw))
          (Nat.max_le.mpr ⟨hm, hvs v List.mem_cons_self⟩)
  rw [collectionStop]
  split
  · exact hstop
  · exact hfold c.nodes 0 hnodes (Nat.zero_le _)

/-- What a section is composed to is held by the units that it takes, and stops in front of those
behind them. -/
def HeldBy (src : Source) (pre mid back : List (Lexeme × Token)) (c : Contents) : Prop :=
  Held src pre mid back c.nodes ∧ ∀ u ∈ back, c.stop ≤ u.1.start.index

/-- A node stops in front of the units behind it. -/
lemma heldBy_one {v : Node} (h : Held src pre mid back [v]) :
    HeldBy src pre mid back (.one v) :=
  ⟨h, fun u hu => h.behind v (List.mem_singleton_self v) u hu⟩

/-- A composed collection is held by its properties and the units of its contents. -/
lemma held_collection {v : Node} {flow : Bool} {c : Contents} {u : Lexeme × Token}
    (hL : IsStream (src.units.map Prod.fst)) (hunits : src.units = pre ++ (ps ++ u :: (mid ++ back)))
    (hprops : Announces (ps.map Prod.fst) anchor tag)
    (hstart : e.start = (front ((ps ++ u :: (mid ++ back)).map Prod.fst)).start)
    (hinfo : v.info = nodeInfo src accepts path anchor tag e (collectionStop flow c))
    (hchildren : v.children = c.nodes) (h : HeldBy src (pre ++ ps) (u :: mid) back c) :
    Held src pre (ps ++ u :: mid) back [v] := by
  obtain ⟨hheld, hstop⟩ := h
  have hbehind : ∀ w ∈ back, collectionStop flow c ≤ w.1.start.index := fun w hw =>
    collectionStop_le (fun x hx => hheld.behind x hx w hw) (hstop w hw)
  rw [← hchildren] at hheld
  refine held_of_info hL (by simp [hunits]) hinfo hheld ?_ hbehind fun w hw _ => .inl ?_
  · rw [hstart]
    exact (cut_front hL hunits (by simp)).1
  · rw [hstart]
    exact mem_propertyTokens hL hunits (by simp) hprops hw

/-- A pair is held by the units of its entry. -/
lemma held_pair {v : Node} {flow : Bool} {c : Contents} {key : Lexeme × Token}
    (hL : IsStream (src.units.map Prod.fst)) (hunits : src.units = pre ++ key :: (mid ++ back))
    (hstart : e.start = key.1.start)
    (hinfo : v.info = nodeInfo src accepts path none none e (collectionStop flow c))
    (hchildren : v.children = c.nodes) (h : HeldBy src pre (key :: mid) back c) :
    Held src pre (key :: mid) back [v] := by
  rw [← List.append_nil pre] at h
  show Held src pre ([] ++ key :: mid) back [v]
  exact held_collection hL hunits announces_nil hstart hinfo hchildren h

/-- An entry is held by the units of its key and its value. -/
lemma held_entryOf {mid' : List (Lexeme × Token)} {target : String} {key value : Node}
    (hL : IsStream (src.units.map Prod.fst)) (hunits : src.units = pre ++ (mid ++ (mid' ++ back)))
    (hkey : Held src pre mid (mid' ++ back) [key])
    (hvalue : Held src (pre ++ mid) mid' back [value]) :
    Held src pre (mid ++ mid') back [Node.entryOf target key value] := by
  have hboth := hkey.append hvalue
  have hchildren : (Node.entryOf target key value).children = [key] ++ [value] := rfl
  have hsourced : ∀ t ∈ (Node.entryOf target key value).ownTokens, ∃ l, (l, t) ∈ src.units := by
    intro t ht
    refine hkey.sourced key (List.mem_singleton_self key) t ?_
    rw [Node.owned_eq, Node.ownTokens]
    exact List.mem_append_left _ (List.mem_append_right _ ht)
  rw [← List.append_nil pre, ← hchildren] at hboth
  show Held src pre ([] ++ (mid ++ mid')) back _
  refine hboth.parent hL ?_ ?_ ?_ (fun u hu => by cases hu) hsourced
  · rw [hunits, List.nil_append, List.append_assoc]
  · exact hkey.before key (List.mem_singleton_self key)
  · intro u hu
    have hkeystop := hkey.behind key (List.mem_singleton_self key) u (List.mem_append_right mid' hu)
    have hvaluestop := hvalue.behind value (List.mem_singleton_self value) u hu
    exact Nat.max_le.mpr ⟨hkeystop, hvaluestop⟩

/-- **Composed trees are held by their units.** -/
theorem held_of_composes (hL : IsStream (src.units.map Prod.fst)) {s : Section} {c : Contents}
    (h : Composes src s mid back c) :
    ∀ pre, src.units = pre ++ (mid ++ back) → HeldBy src pre mid back c := by
  induction h with
  | reference hu =>
      intro pre hunits
      refine heldBy_one ?_
      show Held src pre ([] ++ [_]) _ _
      exact held_unit hL hunits announces_nil isOwned_of_isReferenceUnit (by rw [hu]; rfl) rfl rfl rfl
        rfl
  | scalar props hu =>
      intro pre hunits
      exact heldBy_one (held_unit hL (by simp [hunits]) props isOwned_of_isScalarUnit
        (by rw [hu]; rfl) rfl rfl rfl rfl)
  | bare props _ =>
      intro pre hunits
      exact heldBy_one (held_bare hL (by simp [hunits]) props rfl rfl rfl)
  | empty hcut | missing hcut =>
      intro pre hunits
      exact heldBy_one (held_empty hL hunits hcut rfl rfl)
  | sequence props _ _ _ ih | mapping props _ _ _ ih =>
      intro pre hunits
      exact heldBy_one (held_collection hL (by simp [hunits]) props rfl rfl rfl
        (ih _ (by simp [hunits])))
  | @valued u _ _ _ hu _ ih =>
      intro pre hunits
      obtain ⟨hheld, hstop⟩ := ih (pre ++ [u]) (by simp [hunits])
      exact ⟨hheld.skip (by rw [hu]; rfl), hstop⟩
  | @frame _ u _ _ _ hframes _ ih =>
      intro pre hunits
      obtain ⟨hheld, hstop⟩ := ih (pre ++ [u]) (by simp [hunits])
      exact ⟨hheld.skip (Section.isOwned_of_frames hframes), hstop⟩
  | itemsEnd hcut | entriesEnd hcut =>
      exact fun pre _ => ⟨.nil src pre _, fun u hu => hcut.after u.1 (List.mem_map_of_mem hu)⟩
  | @item _ lead mid mid' _ _ _ leads _ _ ih ih' =>
      intro pre hunits
      obtain ⟨hnode, -⟩ := ih (pre ++ [lead]) (by simp [hunits])
      obtain ⟨hmore, hstop⟩ := ih' (pre ++ [lead] ++ mid) (by simp [hunits])
      exact ⟨(hnode.cons hmore).skip (isOwned_of_leadsItem leads), hstop⟩
  | @pair lead key mid mid' _ _ _ _ leads _ _ _ ih ih' =>
      intro pre hunits
      have hentries := ih (pre ++ [lead]) (by simp [hunits])
      obtain ⟨hmore, hstop⟩ := ih' (pre ++ [lead] ++ key :: mid) (by simp [hunits])
      refine ⟨Held.skip (isOwned_of_leadsItem leads) (Held.cons ?_ hmore), hstop⟩
      exact held_pair hL (by simp [hunits]) rfl rfl rfl hentries
  | @entry _ lead mid mid' mid'' _ _ _ _ _ _ leads _ _ _ ih ih' ih'' =>
      intro pre hunits
      obtain ⟨hkey, -⟩ := ih (pre ++ [lead]) (by simp [hunits])
      obtain ⟨hvalue, -⟩ := ih' (pre ++ [lead] ++ mid) (by simp [hunits])
      obtain ⟨hmore, hstop⟩ := ih'' (pre ++ [lead] ++ (mid ++ mid')) (by simp [hunits])
      refine ⟨Held.skip (isOwned_of_leadsKey leads) (Held.cons ?_ hmore), hstop⟩
      exact held_entryOf hL (by simp [hunits]) (hkey.mapPaths _) hvalue

/-! ### Documents -/

/-- The token that defines a document is the token of a unit. -/
lemma exists_of_documentToken {first last : Event} {body : Node} {t : Token}
    (hbody : ∀ t ∈ body.owned, ∃ l, (l, t) ∈ src.units)
    (h : documentToken src first last body = some t) : ∃ l, (l, t) ∈ src.units := by
  rw [documentToken] at h
  split at h
  · exact Source.exists_of_definingToken? h
  · refine hbody t ?_
    rw [Node.owned_eq, Node.ownTokens, h]
    exact List.mem_append_left _ (List.mem_append_right _ (List.mem_singleton_self t))

/-- A composed document is held by the units that it was read from. -/
lemma held_document {heads closers : List (Lexeme × Token)} {first last : Event} {body : Node}
    (hL : IsStream (src.units.map Prod.fst))
    (hunits : src.units = pre ++ (heads ++ (mid ++ (closers ++ back))))
    (hheads : ∀ u ∈ heads, u.1.content.isOwned = false)
    (hstart : CutAt (src.units.map Prod.fst) first.start.index
      ((heads ++ (mid ++ (closers ++ back))).map Prod.fst))
    (hbody : Composes src .node mid (closers ++ back) (.one body))
    (hcloses : ∀ u ∈ closers, u.1.content.isOwned = false)
    (hstop : CutAt (src.units.map Prod.fst) last.stop.index (back.map Prod.fst)) :
    Held src pre (heads ++ (mid ++ closers)) back [.documentOf (some body)
      (documentToken src first last body) first.start.index last.stop.index] := by
  obtain ⟨hnode, -⟩ := held_of_composes hL hbody (pre ++ heads) (by simp [hunits])
  have hall : Held src (pre ++ []) (heads ++ (mid ++ closers)) back ([] ++ ([body] ++ [])) := by
    rw [List.append_nil]
    exact (Held.of_structure hheads).append (hnode.append (.of_structure hcloses))
  have hsplit : src.units.map Prod.fst =
      pre.map Prod.fst ++ (heads ++ (mid ++ (closers ++ back))).map Prod.fst := by
    rw [hunits, List.map_append]
  show Held src pre ([] ++ (heads ++ (mid ++ closers))) back [_]
  refine hall.parent hL (by simp [hunits]) ?_ ?_ (by simp) fun t ht => ?_
  · exact fun u hu => hstart.before _ hsplit u.1 (List.mem_map_of_mem hu)
  · exact fun u hu => hstop.after u.1 (List.mem_map_of_mem hu)
  · have htoken : documentToken src first last body = some t := by
      simpa [Node.ownTokens, Node.token, Node.documentOf, Node.info] using ht
    exact exists_of_documentToken (hnode.sourced _ (List.mem_singleton_self _)) htoken

/-- Composed documents miss no token, and own only tokens of units. -/
theorem complete_of_documents (hL : IsStream (src.units.map Prod.fst)) {first : Bool}
    {ds : List Node} (h : ComposesDocuments src first us ds) : ∀ pre, src.units = pre ++ us →
      ∀ d ∈ ds, d.Complete src.units ∧ ∀ t ∈ d.owned, ∃ l, (l, t) ∈ src.units := by
  induction h with
  | done _ => simp
  | @closed _ u _ _ _ _ ih => exact fun pre hunits => ih (pre ++ [u]) (by simp [hunits])
  | @document _ heads mid closers back _ _ _ _ opens start node _ closes stop _ ih =>
      intro pre hunits c hc
      rcases List.mem_cons.mp hc with rfl | hc
      · have hheld := held_document hL hunits
          (fun u hu => opens.isOwned u.1 (List.mem_map_of_mem hu)) start node
          (fun u hu => by rw [closes u hu]; rfl) stop
        exact ⟨hheld.complete _ (List.mem_singleton_self _),
          hheld.sourced _ (List.mem_singleton_self _)⟩
      · exact ih (pre ++ (heads ++ (mid ++ closers))) (by simp [hunits]) c hc

end Compose

/-! ### Texts that are accepted -/

/-- A token of content was made from a unit. -/
lemma exists_unit_of_isContent {s : List Char} {ls : List Lexeme} {t : Token}
    (ht : t ∈ (Stream.ofTiles (LineTable.ofText s) (tiles s ls)).tokens)
    (hcontent : t.kind.isContent = true) (h : Lexeme.Cover s ls) :
    ∃ l, (l, t) ∈ unitsOf s ls := by
  rcases exists_unit_of_mem_tokens h ht with (hkind | hkind) | ⟨l, hl, -⟩
  · rw [hkind] at hcontent
    cases hcontent
  · rw [hkind] at hcontent
    cases hcontent
  · exact ⟨l, hl⟩

/-- The token of a unit has the kind of the unit, and ends with its text. -/
lemma token_of_mem_unitsOf {s : List Char} {ls : List Lexeme} {u : Lexeme × Token}
    (hu : u ∈ unitsOf s ls) (h : Lexeme.Cover s ls) :
    u.2.kind.isContent = u.1.content.isOwned ∧
      (s.drop u.1.start.index).take (u.1.stop.index - u.1.start.index) <:+ u.2.origin.toList := by
  obtain ⟨i, tile, htile, hlexeme, htoken⟩ := exists_tile_of_mem_unitsOf hu
  have hshows := shows_of_mem_tiles h (List.mem_of_getElem? htile)
  rw [Tile.Shows, hlexeme] at hshows
  obtain ⟨hkind, hsuffix⟩ := hshows
  rw [htoken]
  constructor
  · rw [Tile.token, hkind, isContent_ofLexeme]
  · rw [Tile.token, String.toList_ofList]
    exact hsuffix

/-- No document of a text that is accepted misses a token, and documents own tokens of units only.
-/
lemma exists_complete_of_parse {source : String} {d : Parsed} (h : parse source = .ok d) :
    ∃ ls ds, Lexeme.scan source.toList = .ok ls ∧
      d.tokens = Stream.ofTiles (LineTable.ofText source.toList) (tiles source.toList ls) ∧
      d.documents = .documentSetOf ds ∧ ∀ c ∈ ds, c.Complete (unitsOf source.toList ls) ∧
        ∀ t ∈ c.owned, ∃ l, (l, t) ∈ unitsOf source.toList ls := by
  obtain ⟨ls, ds, w, us, hls, htokens, htree, hL, hunits, -, hdocuments⟩ :=
    exists_composes_of_parse h
  exact ⟨ls, ds, hls, htokens, htree, Compose.complete_of_documents hL hdocuments [w] hunits⟩

/-- No node of the documents of a text that is accepted misses a token. -/
lemma exists_documents_of_parse {source : String} {d : Parsed} (h : parse source = .ok d) :
    ∃ ls ds, Lexeme.scan source.toList = .ok ls ∧
      d.tokens = Stream.ofTiles (LineTable.ofText source.toList) (tiles source.toList ls) ∧
      d.documents = .documentSetOf ds ∧
      ∀ c ∈ ds, ∀ n ∈ c.depthFirst, ∀ u ∈ unitsOf source.toList ls, u.1.content.isOwned = true →
        n.start ≤ u.1.start.index → u.1.stop.index ≤ n.stop → u.2 ∈ n.tokens := by
  obtain ⟨ls, ds, hls, htokens, htree, hcomplete⟩ := exists_complete_of_parse h
  refine ⟨ls, ds, hls, htokens, htree, fun c hc n hn u hu howned hstart hstop => ?_⟩
  obtain ⟨hmisses, hsourced⟩ := hcomplete c hc
  refine Node.mem_tokens (hmisses n hn u hu howned hstart hstop) fun t ht hindex => ?_
  -- tokens are told apart by their index
  obtain ⟨m, hm, ht⟩ := List.mem_flatMap.mp ht
  obtain ⟨l, hl⟩ := hsourced t
    (List.mem_flatMap.mpr ⟨m, Node.mem_depthFirst_trans hm c hn, ht⟩)
  exact token_eq_of_index_eq hl hu hindex

/-- The token of a match of a query stands at a place of the text. -/
lemma exists_position_of_mem_nodes {source : String} {d : Parsed} (h : parse source = .ok d)
    {q : String} {f : Found} (hf : f ∈ (d.documents.query q).nodes) {t : Token}
    (ht : f.node.token = some t) :
    ∃ k, t.position = (LineTable.ofText source.toList).position k := by
  obtain ⟨ls, ds, -, -, htree, hcomplete⟩ := exists_complete_of_parse h
  -- a match is a node of one of the documents, and its token is owned by that document
  rw [Node.nodes_query, htree] at hf
  obtain ⟨scope, hscope, hfind⟩ := List.mem_filterMap.mp hf
  have howned : t ∈ scope.node.owned := by
    refine List.mem_flatMap.mpr ⟨f.node, (Node.findFrom?_range hfind).1, ?_⟩
    rw [Node.ownTokens, ht]
    exact List.mem_append_right _ (List.mem_singleton_self t)
  obtain ⟨l, hl⟩ := (hcomplete _ (Node.mem_of_mem_inRow hscope)).2 t howned
  obtain ⟨i, tile, -, -, htoken⟩ := exists_tile_of_mem_unitsOf hl
  exact ⟨tile.offset, congrArg Token.position htoken⟩

/-- **No content is missed.** In a text that is accepted every token of a scalar, an alias, an
anchor or a tag was made from a unit, with whose text it ends. If that text lies inside the span of
a node other than the set of the documents, then the token is among the tokens of the node; and if
the node is a match of a query, then the token is highlighted. -/
theorem tokens_complete {source : String} {d : Parsed} (h : parse source = .ok d) :
    ∃ ls, Lexeme.scan source.toList = .ok ls ∧ (unitsOf source.toList ls).map Prod.fst = ls ∧
      ∀ t ∈ d.tokens.tokens, t.kind.isContent = true →
        ∃ l, (l, t) ∈ unitsOf source.toList ls ∧ l.content.isOwned = true ∧
          (source.toList.drop l.start.index).take (l.stop.index - l.start.index) <:+
            t.origin.toList ∧
          (∀ n ∈ d.documents.depthFirst, n.kind ≠ .documentSet → n.start ≤ l.start.index →
            l.stop.index ≤ n.stop → t ∈ n.tokens) ∧
          ∀ q, ∀ f ∈ (d.documents.query q).nodes, f.node.start ≤ l.start.index →
            l.stop.index ≤ f.node.stop → (d.documents.query q).highlights t = true := by
  obtain ⟨ls, ds, hls, htokens, htree, hcomplete⟩ := exists_documents_of_parse h
  have hcover := cover_of_scan hls
  refine ⟨ls, hls, map_fst_unitsOf _ _, fun t ht hcontent => ?_⟩
  rw [htokens] at ht
  obtain ⟨l, hl⟩ := exists_unit_of_isContent ht hcontent hcover
  obtain ⟨hkind, hsuffix⟩ := token_of_mem_unitsOf hl hcover
  have howned : l.content.isOwned = true := hkind.symm.trans hcontent
  refine ⟨l, hl, howned, hsuffix, fun n hn hset hstart hstop => ?_, fun q f hf hstart hstop => ?_⟩
  · rw [htree, Node.depthFirst_eq] at hn
    rcases List.mem_cons.mp hn with rfl | hn
    · exact absurd rfl hset
    · obtain ⟨c, hc, hn⟩ := List.mem_flatMap.mp hn
      exact hcomplete c hc n hn (l, t) hl howned hstart hstop
  · -- a match is a node of one of the documents
    have hnode := hf
    rw [Node.nodes_query, htree] at hnode
    obtain ⟨scope, hscope, hfind⟩ := List.mem_filterMap.mp hnode
    have hmem := (Node.findFrom?_range hfind).1
    have hdoc : scope.node ∈ ds := Node.mem_of_mem_inRow hscope
    have htokens := hcomplete _ hdoc _ hmem (l, t) hl howned hstart hstop
    exact (Node.highlights_query _ q t).mpr ⟨f, hf, t, htokens, rfl⟩

/-- A mapping with an anchor and a tag, an explicit key, a sequence without indentation, a pair
without braces, an anchored empty item and an alias: all content of the text is among its tokens. -/
theorem tokens_complete_nestedKeys :
    ∃ d, parse "&m !t\n? [a: b, 'c']\n: {d: }\ne:\n- &x\n- *x\n" = .ok d ∧
      (d.tokens.tokens.filter (·.kind.isContent)).size = 9 ∧
      ∃ n ∈ d.documents.depthFirst, n.kind = .mapping ∧
        ∀ t ∈ d.tokens.tokens, t.kind.isContent = true → t ∈ n.tokens := by
  let s := "&m !t\n? [a: b, 'c']\n: {d: }\ne:\n- &x\n- *x\n"
  obtain ⟨d, hd, hcheck⟩ := Except.exists_ok_of_any (x := parse s) (p := fun d =>
    (d.tokens.tokens.filter (·.kind.isContent)).size == 9 && d.documents.depthFirst.any fun n =>
      decide (n.kind = .mapping) &&
        (unitsOf s.toList ((Lexeme.scan s.toList).toOption.getD [])).all fun u =>
          !u.1.content.isOwned ||
            decide (n.start ≤ u.1.start.index) && decide (u.1.stop.index ≤ n.stop))
    (by decide +kernel)
  simp only [Bool.and_eq_true, beq_iff_eq, List.any_eq_true, decide_eq_true_eq] at hcheck
  obtain ⟨hsize, n, hn, hkind, hunits⟩ := hcheck
  obtain ⟨ls, hls, -, htokens⟩ := tokens_complete hd
  refine ⟨d, hd, hsize, n, hn, hkind, fun t ht hcontent => ?_⟩
  obtain ⟨l, hl, howned, -, hspan, -⟩ := htokens t ht hcontent
  rw [hls] at hunits
  have hinside := List.all_eq_true.mp hunits (l, t) hl
  rw [howned, Bool.not_true, Bool.false_or, Bool.and_eq_true, decide_eq_true_eq,
    decide_eq_true_eq] at hinside
  exact hspan n hn (by rw [hkind]; simp) hinside.1 hinside.2

end YamlNavigator
