import YamlNavigator.Proofs.Document.Introducing

/-!
Composed nodes and the units that they were read from.

* `Node.allProperties`, `namedBy`: the tokens of all properties of a tree, and those that are
  written among some units;
* `WrittenFor`, `Names`: properties are written for nodes, and those among some units for the nodes
  of some trees;
* `Settles`, `Settled`: what holds for every node of a composed tree;
* `Spread`: a tree that was read from units lies between those before and those behind;
* `Filled`: the same for the children of a collection, to each of which leads a unit;
* `Filled.cons`: a further child in front of the others;
* `Filled.spread`, `spread_entryOf`: the nodes above such children.
-/

namespace YamlNavigator

open Yaml Grammar

/-! ### Properties of a tree -/

namespace Node

/-- The tokens of the properties of all nodes of a tree. -/
def allProperties (n : Node) : List Token := n.depthFirst.flatMap (·.info.properties)

/-- The properties of a tree are those of its root and of the trees below. -/
lemma allProperties_eq (n : Node) :
    n.allProperties = n.info.properties ++ n.children.flatMap allProperties := by
  rw [allProperties, depthFirst_eq, List.flatMap_cons, List.flatMap_assoc]
  rfl

/-- A tree has the same properties at other paths. -/
lemma allProperties_mapPaths (f : String → String) (n : Node) :
    (n.mapPaths f).allProperties = n.allProperties := by
  rw [allProperties, depthFirst_mapPaths, List.flatMap_map]
  refine List.flatMap_congr fun m _ => ?_
  rw [properties_mapPaths]

end Node

/-- The tokens of the properties that are written among some units. -/
def namedBy (us : List (Lexeme × Token)) : List Token :=
  (us.filter (·.1.isProperty)).map Prod.snd

lemma namedBy_append (us vs : List (Lexeme × Token)) :
    namedBy (us ++ vs) = namedBy us ++ namedBy vs := by
  rw [namedBy, List.filter_append, List.map_append, namedBy, namedBy]

/-- Properties name all their tokens. -/
lemma namedBy_of_isProperty {us : List (Lexeme × Token)}
    (h : ∀ u ∈ us, u.1.isProperty = true) : namedBy us = us.map Prod.snd := by
  rw [namedBy, List.filter_eq_self.mpr h]

/-- The unit is one of the properties that are written for the node, and it is written in its
span. -/
def WrittenFor (src : Source) (u : Lexeme × Token) (v : Node) : Prop :=
  ∃ pre ps us, u ∈ ps ∧ Bears src pre ps us v ∧ u.1.stop.index ≤ v.stop

/-- The properties among the units `us` are written for nodes of the trees `vs`, and if no
properties are chained, they are those of the trees in their order. -/
structure Names (src : Source) (us : List (Lexeme × Token)) (vs : List Node) : Prop where
  each : ∀ u ∈ us, u.1.isProperty = true → ∃ v ∈ vs, ∃ p ∈ v.depthFirst, WrittenFor src u p
  all : Unchained (src.units.map Prod.fst) → vs.flatMap Node.allProperties = namedBy us

namespace Names

variable {src : Source} {us us' : List (Lexeme × Token)} {u : Lexeme × Token} {v : Node}
variable {vs vs' : List Node}

/-- Without properties no tree is needed. -/
lemma nil (h : ∀ u ∈ us, u.1.isProperty = false) : Names src us [] where
  each u hu hprop := by
    rw [h u hu] at hprop
    cases hprop
  all _ := by
    rw [namedBy, List.filter_eq_nil_iff.mpr fun u hu => by simp [h u hu]]
    rfl

lemma append (h : Names src us vs) (h' : Names src us' vs') : Names src (us ++ us') (vs ++ vs') where
  each u hu hprop := by
    rcases List.mem_append.mp hu with hu | hu
    · obtain ⟨v, hv, hfor⟩ := h.each u hu hprop
      exact ⟨v, List.mem_append_left vs' hv, hfor⟩
    · obtain ⟨v, hv, hfor⟩ := h'.each u hu hprop
      exact ⟨v, List.mem_append_right vs hv, hfor⟩
  all hchain := by rw [List.flatMap_append, h.all hchain, h'.all hchain, namedBy_append]

/-- A unit that is no property may stand in front. -/
lemma skip (hprop : u.1.isProperty = false) (h : Names src us vs) : Names src (u :: us) vs := by
  have hskipped : Names src [u] [] := nil (by simpa using hprop)
  exact hskipped.append h

/-- A tree may be moved to other paths. -/
lemma mapPaths (h : Names src us [v]) (f : String → String) : Names src us [v.mapPaths f] where
  each u hu hprop := by
    obtain ⟨w, hw, p, hp, pre, ps, us', hmem, hbears, hstop⟩ := h.each u hu hprop
    obtain rfl := List.mem_singleton.mp hw
    refine ⟨_, List.mem_singleton_self _, p.mapPaths f, ?_, pre, ps, us', hmem, hbears.mapPaths f,
      by simpa using hstop⟩
    rw [Node.depthFirst_mapPaths]
    exact List.mem_map_of_mem hp
  all hchain := by
    rw [← h.all hchain, List.flatMap_singleton, List.flatMap_singleton, Node.allProperties_mapPaths]

/-- A node has its own properties and those of the trees below it. -/
lemma parent {pre ps back : List (Lexeme × Token)} (hown : Bears src pre ps (us ++ back) v)
    (hstop : ∀ u ∈ ps, u.1.stop.index ≤ v.stop) (h : Names src us v.children) :
    Names src (ps ++ us) [v] where
  each u hu hprop := by
    refine ⟨v, List.mem_singleton_self v, ?_⟩
    rw [Node.depthFirst_eq]
    rcases List.mem_append.mp hu with hu | hu
    · exact ⟨v, List.mem_cons_self, pre, ps, us ++ back, hu, hown, hstop u hu⟩
    · obtain ⟨c, hc, p, hp, hfor⟩ := h.each u hu hprop
      exact ⟨p, List.mem_cons_of_mem v (List.mem_flatMap.mpr ⟨c, hc, hp⟩), hfor⟩
  all hchain := by
    rw [List.flatMap_singleton, Node.allProperties_eq, hown.eq_of_unchained hchain, h.all hchain,
      namedBy_append, namedBy_of_isProperty hown.isProperty]

end Names

/-! ### Facts on every node -/

/-- What holds for every node of a composed tree: units lead to its children, it has the shape of
its kind, and its properties are written from its start on; if no properties are chained, in its
span. -/
structure Settles (src : Source) (p : Node) : Prop where
  led : Led src p
  shaped : Shaped p
  within : ∀ t ∈ p.info.properties, ∃ l, (l, t) ∈ src.units ∧ l.isProperty = true ∧
    p.start ≤ l.start.index ∧ (Unchained (src.units.map Prod.fst) → l.stop.index ≤ p.stop)

/-- All nodes of a tree settle. -/
def Settled (src : Source) (v : Node) : Prop := ∀ p ∈ v.depthFirst, Settles src p

/-- A tree is settled if its root settles and the trees below are settled. -/
lemma Settled.of_children {src : Source} {v : Node} (h : Settles src v)
    (hchildren : ∀ c ∈ v.children, Settled src c) : Settled src v := by
  intro p hp
  rw [Node.depthFirst_eq] at hp
  rcases List.mem_cons.mp hp with rfl | hp
  · exact h
  · obtain ⟨c, hc, hp⟩ := List.mem_flatMap.mp hp
    exact hchildren c hc p hp

/-- A settled tree may be moved to other paths. -/
lemma Settled.mapPaths {src : Source} {v : Node} (h : Settled src v) (f : String → String) :
    Settled src (v.mapPaths f) := by
  intro p hp
  rw [Node.depthFirst_mapPaths] at hp
  obtain ⟨k, hk, rfl⟩ := List.mem_map.mp hp
  obtain ⟨hled, hshaped, hwithin⟩ := h k hk
  exact ⟨hled.mapPaths f, hshaped.mapPaths f, by simpa using hwithin⟩

/-! ### Trees and their units -/

/-- A tree that was read from the units `mid`: it lies behind the units `pre` and before the units
`back`, its span holds the text of the units between, and its properties are those among them. -/
structure Spread (src : Source) (pre mid back : List (Lexeme × Token)) (v : Node) : Prop where
  units : src.units = pre ++ (mid ++ back)
  before : ∀ u ∈ pre, u.1.stop.index ≤ v.start
  start_le : v.start ≤ v.stop
  stop_le : ∀ u ∈ back, v.stop ≤ u.1.start.index
  le_stop : ∀ u ∈ mid, u.1.isEmpty = false → u.1.stop.index ≤ v.stop
  settled : Settled src v
  names : Names src mid [v]

/-- The children `vs` of a collection that were read from the units `mid`, up to the offset `stop`.
To the part of each child that `heads` names leads a unit, of the given content or a bracket, a
brace or a comma. -/
structure Filled (src : Source) (flow : Bool) (content : Content) (heads : Node → Node → Prop)
    (pre mid back : List (Lexeme × Token)) (vs : List Node) (stop : Nat) : Prop where
  units : src.units = pre ++ (mid ++ back)
  le_end : ∀ u ∈ pre ++ mid, u.1.stop.index ≤ stop
  end_le : ∀ u ∈ back, stop ≤ u.1.start.index
  before : ∀ v ∈ vs, ∀ u ∈ pre, u.1.stop.index ≤ v.start
  behind : ∀ v ∈ vs, ∃ u ∈ mid, u.1.stop.index ≤ v.start
  start_le : ∀ v ∈ vs, v.start ≤ v.stop
  stop_le : ∀ v ∈ vs, ∀ u ∈ back, v.stop ≤ u.1.start.index
  covered : flow = false → ∀ u ∈ mid, u.1.isEmpty = false → ∃ v ∈ vs, u.1.stop.index ≤ v.stop
  settled : ∀ v ∈ vs, Settled src v
  names : Names src mid vs
  slots : ∀ before v after c, vs = before ++ v :: after → heads v c → ∃ front lead us,
    mid ++ back = front ++ lead :: us ∧ Stands src (pre ++ front ++ [lead]) us c ∧
      (∀ b ∈ before, b.stop ≤ lead.1.start.index) ∧
      (lead.1.content = content ∨ lead.1.isIndicator = false ∧ lead.1.isEmpty = false) ∧
      ∀ u ∈ front, u.1.isIndicator = true → ∃ b ∈ before, u.1.stop.index ≤ b.stop

namespace Filled

variable {src : Source} {flow : Bool} {content : Content} {heads : Node → Node → Prop}
variable {pre mid mid' back : List (Lexeme × Token)} {v : Node} {vs : List Node} {stop : Nat}
variable {lead : Lexeme × Token}

/-- The end of a collection. -/
lemma nil (hunits : src.units = pre ++ back) (hpre : ∀ u ∈ pre, u.1.stop.index ≤ stop)
    (hback : ∀ u ∈ back, stop ≤ u.1.start.index) :
    Filled src flow content heads pre [] back [] stop where
  units := hunits
  le_end u hu := hpre u (by simpa using hu)
  end_le := hback
  before := by simp
  behind := by simp
  start_le := by simp
  stop_le := by simp
  covered := by simp
  settled := by simp
  names := .nil (by simp)
  slots before v after c h := by simp at h

/-- A unit around the children, which leads to none of them, may stand in front. Around those of a
block collection it takes no text. -/
lemma frame (hind : lead.1.isIndicator = false) (hprop : lead.1.isProperty = false)
    (hempty : flow = false → lead.1.isEmpty = true)
    (h : Filled src flow content heads (pre ++ [lead]) mid back vs stop) :
    Filled src flow content heads pre (lead :: mid) back vs stop where
  units := by rw [h.units]; simp
  le_end u hu := h.le_end u (by simpa using hu)
  end_le := h.end_le
  before v hv u hu := h.before v hv u (List.mem_append_left _ hu)
  behind v hv := by
    obtain ⟨u, hu, hle⟩ := h.behind v hv
    exact ⟨u, List.mem_cons_of_mem lead hu, hle⟩
  start_le := h.start_le
  stop_le := h.stop_le
  covered hflow u hu htext := by
    rcases List.mem_cons.mp hu with rfl | hu
    · rw [hempty hflow] at htext
      cases htext
    · exact h.covered hflow u hu htext
  settled := h.settled
  names := h.names.skip hprop
  slots before v after c hvs hc := by
    obtain ⟨front, next, us, heq, hstands, hbefore, hcontent, hfront⟩ :=
      h.slots before v after c hvs hc
    refine ⟨lead :: front, next, us, by rw [List.cons_append, heq, List.cons_append],
      by simpa using hstands, hbefore, hcontent, fun u hu huind => ?_⟩
    rcases List.mem_cons.mp hu with rfl | hu
    · rw [hind] at huind
      cases huind
    · exact hfront u hu huind

/-- A child stands behind the unit that leads to it, and in front of the other children. -/
lemma cons (hprop : lead.1.isProperty = false)
    (hcontent : lead.1.content = content ∨ lead.1.isIndicator = false ∧ lead.1.isEmpty = false)
    (hv : Spread src (pre ++ [lead]) mid (mid' ++ back) v)
    (hheads : ∀ c, heads v c → Stands src (pre ++ [lead]) (mid ++ (mid' ++ back)) c)
    (h : Filled src flow content heads (pre ++ [lead] ++ mid) mid' back vs stop) :
    Filled src flow content heads pre (lead :: mid ++ mid') back (v :: vs) stop := by
  have hlead : lead.1.stop.index ≤ v.start := hv.before lead (by simp)
  -- indicators up to the end of the child lie in front of its end
  have hspan : ∀ u ∈ lead :: mid, u.1.isEmpty = false → u.1.stop.index ≤ v.stop := by
    intro u hu htext
    rcases List.mem_cons.mp hu with rfl | hu
    · exact Nat.le_trans hlead hv.start_le
    · exact hv.le_stop u hu htext
  exact {
    units := by rw [hv.units]; simp
    le_end := fun u hu => h.le_end u (by simpa using hu)
    end_le := h.end_le
    before := List.forall_mem_cons.mpr
      ⟨fun u hu => hv.before u (List.mem_append_left _ hu), fun w hw u hu =>
        h.before w hw u (by simp [hu])⟩
    behind := by
      refine List.forall_mem_cons.mpr ⟨⟨lead, by simp, hlead⟩, fun w hw => ?_⟩
      obtain ⟨u, hu, hle⟩ := h.behind w hw
      exact ⟨u, List.mem_append_right _ hu, hle⟩
    start_le := List.forall_mem_cons.mpr ⟨hv.start_le, h.start_le⟩
    stop_le := List.forall_mem_cons.mpr
      ⟨fun u hu => hv.stop_le u (List.mem_append_right mid' hu), h.stop_le⟩
    covered := by
      intro hflow u hu htext
      rcases List.mem_append.mp hu with hu | hu
      · exact ⟨v, List.mem_cons_self, hspan u hu htext⟩
      · obtain ⟨w, hw, hle⟩ := h.covered hflow u hu htext
        exact ⟨w, List.mem_cons_of_mem v hw, hle⟩
    settled := List.forall_mem_cons.mpr ⟨hv.settled, h.settled⟩
    names := .skip hprop (.append hv.names h.names)
    slots := by
      intro before w after c hvs hc
      cases before with
      | nil =>
          obtain ⟨rfl, -⟩ := List.cons.inj hvs
          exact ⟨[], lead, mid ++ (mid' ++ back), by simp, by simpa using hheads c hc, by simp,
            hcontent, by simp⟩
      | cons b before =>
          obtain ⟨rfl, hrest⟩ := List.cons.inj hvs
          obtain ⟨front, next, us, heq, hstands, hbefore, hnext, hfront⟩ :=
            h.slots before w after c hrest hc
          have hbehind : next ∈ mid' ++ back := by rw [heq]; simp
          refine ⟨lead :: mid ++ front, next, us, by simp [heq], by simpa using hstands,
            List.forall_mem_cons.mpr ⟨hv.stop_le next hbehind, hbefore⟩, hnext,
            fun u hu huind => ?_⟩
          rcases List.mem_append.mp hu with hu | hu
          · have htext := Lexeme.isEmpty_of_isIndicator huind
            exact ⟨v, List.mem_cons_self, hspan u hu htext⟩
          · obtain ⟨x, hx, hle⟩ := hfront u hu huind
            exact ⟨x, List.mem_cons_of_mem v hx, hle⟩ }

end Filled

/-! ### Nodes above their children -/

section Parents

variable {src : Source} {pre ps mid mid' back : List (Lexeme × Token)} {v : Node}

/-- Units that belong to nodes take text. -/
lemma isEmpty_of_isProperty (hL : IsStream (src.units.map Prod.fst)) {u : Lexeme × Token}
    (hu : u ∈ src.units) (hprop : u.1.isProperty = true) : u.1.isEmpty = false := by
  have howned : u.1.content.isOwned = true := by
    rw [Lexeme.isProperty] at hprop
    revert hprop
    cases u.1.content <;> simp [Content.isOwned]
  have := (hL.isSound u.1 (List.mem_map_of_mem hu)).start_lt howned
  simpa [Lexeme.isEmpty] using this

/-- A node above trees that were read: it begins with its properties and spans the trees. -/
lemma Spread.of_children (hL : IsStream (src.units.map Prod.fst))
    (hunits : src.units = pre ++ (ps ++ mid ++ back))
    (hbefore : ∀ u ∈ pre, u.1.stop.index ≤ v.start) (hstart : v.start ≤ v.stop)
    (hback : ∀ u ∈ back, v.stop ≤ u.1.start.index)
    (hspan : ∀ u ∈ ps ++ mid, u.1.isEmpty = false → u.1.stop.index ≤ v.stop)
    (hbears : Bears src pre ps (mid ++ back) v) (hled : Led src v) (hshaped : Shaped v)
    (hchildren : ∀ c ∈ v.children, Settled src c) (hnames : Names src mid v.children) :
    Spread src pre (ps ++ mid) back v := by
  have hps : ∀ u ∈ ps, u.1.stop.index ≤ v.stop := by
    intro u hu
    have hmem : u ∈ src.units := by simp [hunits, hu]
    exact hspan u (List.mem_append_left mid hu) (isEmpty_of_isProperty hL hmem
      (hbears.isProperty u hu))
  have hsettles : Settles src v := by
    refine ⟨hled, hshaped, fun t ht => ?_⟩
    obtain ⟨l, hl, hprop, hle, hown⟩ := hbears.exists_of_mem ht
    exact ⟨l, hl, hprop, hle, fun hchain => hps _ (hown hchain)⟩
  exact ⟨hunits, hbefore, hstart, hback, hspan, .of_children hsettles hchildren,
    .parent hbears hps hnames⟩

/-- A block collection stops with its last child or behind it. -/
lemma le_collectionStop {c : Compose.Contents} {x : Node} (hx : x ∈ c.nodes) :
    x.stop ≤ Compose.collectionStop false c := by
  have hfold : ∀ (vs : List Node) (m : Nat), m ≤ vs.foldl (fun m n => max m n.stop) m ∧
      ∀ w ∈ vs, w.stop ≤ vs.foldl (fun m n => max m n.stop) m := by
    intro vs
    induction vs with
    | nil => simp
    | cons w vs ih =>
        intro m
        obtain ⟨hm, hvs⟩ := ih (max m w.stop)
        rw [List.foldl_cons]
        refine ⟨Nat.le_trans (Nat.le_max_left _ _) hm, fun y hy => ?_⟩
        rcases List.mem_cons.mp hy with rfl | hy
        · exact Nat.le_trans (Nat.le_max_right _ _) hm
        · exact hvs y hy
  have hne : c.nodes.isEmpty = false := by
    cases hnodes : c.nodes with
    | nil =>
        rw [hnodes] at hx
        cases hx
    | cons y ys => rfl
  rw [Compose.collectionStop, if_neg (by simp [hne])]
  exact (hfold c.nodes 0).2 x hx

variable {flow : Bool} {content : Content} {heads : Node → Node → Prop} {c : Compose.Contents}

/-- Units lead to the children of a collection. -/
lemma Filled.led (hstands : Stands src pre (ps ++ mid ++ back) v)
    (hbears : Bears src pre ps (mid ++ back) v)
    (h : Filled src flow content heads (pre ++ ps) mid back c.nodes c.stop)
    (hroles : ∀ before x k, Role v before x k → k = content ∧
      ∃ w after, c.nodes = before ++ w :: after ∧ heads w x) : Led src v := by
  intro before x k hrole
  obtain ⟨rfl, w, after, hnodes, hx⟩ := hroles before x k hrole
  obtain ⟨front, lead, us, heq, hx, hbefore, hcontent, hfront⟩ :=
    h.slots before w after x hnodes hx
  have hmem : lead ∈ ps ++ mid ++ back := by
    rw [List.append_assoc, heq]
    simp
  refine .inl ⟨pre ++ ps ++ front, lead, us, hx, hstands.behind lead hmem, hbefore, hcontent,
    fun u hu hind => ?_⟩
  rcases List.mem_append.mp hu with hu | hu
  · rcases List.mem_append.mp hu with hu | hu
    · exact .inl (hstands.before u hu)
    · have hprop := hbears.isProperty u hu
      rw [Lexeme.isProperty_of_isIndicator hind] at hprop
      cases hprop
  · exact .inr (hfront u hu hind)

/-- A collection spans its properties and the units of its children. -/
lemma Filled.spread (hL : IsStream (src.units.map Prod.fst))
    (hstands : Stands src pre (ps ++ mid ++ back) v)
    (hbears : Bears src pre ps (mid ++ back) v) (hmid : mid ≠ [])
    (h : Filled src flow content heads (pre ++ ps) mid back c.nodes c.stop)
    (hstop : v.stop = Compose.collectionStop flow c) (hchildren : v.children = c.nodes)
    (hroles : ∀ before x k, Role v before x k → k = content ∧
      ∃ w after, c.nodes = before ++ w :: after ∧ heads w x) (hshaped : Shaped v) :
    Spread src pre (ps ++ mid) back v := by
  have hback : ∀ u ∈ back, v.stop ≤ u.1.start.index := by
    intro u hu
    rw [hstop]
    exact Compose.collectionStop_le (fun w hw => h.stop_le w hw u hu) (h.end_le u hu)
  -- a collection stops at its end, or a block collection with its children
  have hcases : v.stop = c.stop ∨ flow = false ∧ ∃ w ∈ c.nodes, w.stop ≤ v.stop := by
    cases flow with
    | true => exact .inl (by rw [hstop]; simp [Compose.collectionStop])
    | false =>
        cases hnodes : c.nodes with
        | nil => exact .inl (by rw [hstop, Compose.collectionStop, if_pos (by simp [hnodes])])
        | cons w ws =>
            refine .inr ⟨rfl, w, List.mem_cons_self, ?_⟩
            rw [hstop]
            exact le_collectionStop (by rw [hnodes]; exact List.mem_cons_self)
  refine Spread.of_children hL hstands.units hstands.before ?_ hback ?_ hbears
    (h.led hstands hbears hroles) hshaped (by rw [hchildren]; exact h.settled)
    (by rw [hchildren]; exact h.names)
  · rcases hcases with hend | ⟨-, w, hw, hle⟩
    · obtain ⟨u, us, rfl⟩ := List.exists_cons_of_ne_nil hmid
      have hu := hstands.behind u (by simp)
      have hsound := (hL.isSound u.1 (List.mem_map_of_mem (by rw [h.units]; simp))).start_le
      have := h.le_end u (by simp)
      omega
    · obtain ⟨u, hu, huw⟩ := h.behind w hw
      have hvu := hstands.behind u (by simp [hu])
      have hsound := (hL.isSound u.1 (List.mem_map_of_mem (by rw [h.units]; simp [hu]))).start_le
      have := h.start_le w hw
      omega
  · intro u hu htext
    rcases hcases with hend | ⟨hflow, w, hw, hle⟩
    · rw [hend]
      refine h.le_end u ?_
      rw [List.append_assoc]
      exact List.mem_append_right pre hu
    · rcases List.mem_append.mp hu with hu | hu
      · have hstart := h.before w hw u (by simp [hu])
        have := h.start_le w hw
        omega
      · obtain ⟨x, hx, hux⟩ := h.covered hflow u hu htext
        rw [hstop, hflow]
        exact Nat.le_trans hux (le_collectionStop hx)

/-- An entry spans its key and its value. Its value stands behind a colon, or is not written. -/
lemma spread_entryOf {target : String} {key value : Node} (hL : IsStream (src.units.map Prod.fst))
    (hkey : Spread src pre mid (mid' ++ back) key) (hkind : key.kind ≠ .mappingEntry)
    (hvalue : Spread src (pre ++ mid) mid' back value) (hkind' : value.kind ≠ .mappingEntry)
    (hstands : (∃ lead us, mid' = lead :: us ∧ lead.1.content = .value ∧
      Stands src (pre ++ mid ++ [lead]) (us ++ back) value) ∨
        mid' = [] ∧ Stands src (pre ++ mid) back value ∧ IsBlank src value) :
    Spread src pre (mid ++ mid') back (.entryOf target key value) := by
  have hstart : (Node.entryOf target key value).start = key.start := rfl
  have hstop : (Node.entryOf target key value).stop = max key.stop value.stop := rfl
  have hpassed : Passed (.entryOf target key value) [key] (pre ++ mid) := by
    intro u hu hind
    have htext := Lexeme.isEmpty_of_isIndicator hind
    rcases List.mem_append.mp hu with hu | hu
    · exact .inl (hkey.before u hu)
    · exact .inr ⟨key, List.mem_singleton_self key, hkey.le_stop u hu htext⟩
  have hled : Led src (.entryOf target key value) := by
    intro before c k hrole
    rw [Node.entryOf] at hrole
    cases hrole with
    | value =>
        rcases hstands with ⟨lead, us, rfl, hlead, hvalue⟩ | ⟨rfl, hvalue, hblank⟩
        · have hle := hkey.stop_le lead (by simp)
          refine .inl ⟨pre ++ mid, lead, us ++ back, hvalue, ?_, ?_, .inl hlead, hpassed⟩
          · exact Nat.le_trans hkey.start_le hle
          · intro b hb
            rw [List.mem_singleton.mp hb]
            exact hle
        · exact .inr ⟨pre ++ mid, back, hvalue, hblank, hpassed⟩
  have hspread : Spread src pre ([] ++ (mid ++ mid')) back (.entryOf target key value) := by
    refine Spread.of_children hL ?_ hkey.before ?_ ?_ ?_ (.none rfl rfl) hled
      ⟨key, value, rfl, rfl, hkind, hkind', rfl, rfl⟩ ?_ (.append hkey.names hvalue.names)
    · rw [hkey.units]
      simp
    · rw [hstart, hstop]
      exact Nat.le_trans hkey.start_le (Nat.le_max_left _ _)
    · intro u hu
      rw [hstop]
      exact Nat.max_le.mpr ⟨hkey.stop_le u (List.mem_append_right mid' hu), hvalue.stop_le u hu⟩
    · intro u hu htext
      rw [List.nil_append] at hu
      rw [hstop]
      rcases List.mem_append.mp hu with hu | hu
      · exact Nat.le_trans (hkey.le_stop u hu htext) (Nat.le_max_left _ _)
      · exact Nat.le_trans (hvalue.le_stop u hu htext) (Nat.le_max_right _ _)
    · intro c hc
      have hc : c ∈ [key, value] := hc
      simp only [List.mem_cons, List.not_mem_nil, or_false] at hc
      rcases hc with rfl | rfl
      · exact hkey.settled
      · exact hvalue.settled
  exact hspread

end Parents

/-- A unit that is no property may stand in front of a tree that was read. -/
lemma Spread.behind {src : Source} {pre mid back : List (Lexeme × Token)} {lead : Lexeme × Token}
    {v : Node} (h : Spread src (pre ++ [lead]) mid back v) (hprop : lead.1.isProperty = false) :
    Spread src pre (lead :: mid) back v where
  units := by rw [h.units]; simp
  before u hu := h.before u (List.mem_append_left _ hu)
  start_le := h.start_le
  stop_le := h.stop_le
  le_stop u hu htext := by
    rcases List.mem_cons.mp hu with rfl | hu
    · exact Nat.le_trans (h.before u (by simp)) h.start_le
    · exact h.le_stop u hu htext
  settled := h.settled
  names := h.names.skip hprop

/-- A tree that was read may be moved to other paths. -/
lemma Spread.mapPaths {src : Source} {pre mid back : List (Lexeme × Token)} {v : Node}
    (h : Spread src pre mid back v) (f : String → String) :
    Spread src pre mid back (v.mapPaths f) where
  units := h.units
  before := by simpa using h.before
  start_le := by simpa using h.start_le
  stop_le := by simpa using h.stop_le
  le_stop := by simpa using h.le_stop
  settled := h.settled.mapPaths f
  names := h.names.mapPaths f

end YamlNavigator
