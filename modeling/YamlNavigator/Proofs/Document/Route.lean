import YamlNavigator.Proofs.Document.Composition

/-!
The way from a body to each node below it.

* `Crossing`, `Crossing.text`, `pathOf`: an entry or an item that is crossed, its step, and what a
  route adds to a path;
* `Node.anchorsAfter`: the anchors behind a tree, as the composer knows them;
* `Node.routed`: the nodes of a tree in depth-first order, each with the route to it;
* `Node.map_snd_routed`, `Node.exists_routed_child`: the routes reach all nodes, and go on from each
  to the nodes below it;
* `Compose.AtRoutes`, `Compose.atRoutes_composed`: every node of a composed tree is at the path of
  its route.
-/

namespace YamlNavigator

open Yaml

/-! ### Routes -/

/-- A step down a tree: into the entry of a key, or into an item of a sequence. -/
inductive Crossing where
  | key (segment : String)
  | item (index : Nat)
  deriving DecidableEq, Repr

namespace Crossing

/-- The step as a query writes it: the segment of the key, or the index in decimal digits. -/
def text : Crossing → String
  | key segment => segment
  | item index => toString index

/-- What the crossing adds to a structural path. -/
def path : Crossing → List Char
  | key segment => '.' :: segment.toList
  | item index => '[' :: (toString index).toList ++ [']']

end Crossing

/-- What a route adds to a structural path. -/
def pathOf (r : List Crossing) : List Char := r.flatMap Crossing.path

namespace Node

/-- A node is larger than the list of the nodes directly below it. -/
lemma sizeOf_children_lt (n : Node) : sizeOf n.children < sizeOf n := by
  have hinfo : ∀ i : NodeInfo, 0 < sizeOf i := fun i => by
    cases i
    rw [NodeInfo.mk.sizeOf_spec]
    omega
  cases n with
  | documentSet i ds =>
      have := hinfo i
      rw [children, documentSet.sizeOf_spec]
      omega
  | document i b =>
      have := hinfo i
      cases b with
      | none =>
          show sizeOf ([] : List Node) < _
          rw [document.sizeOf_spec, List.nil.sizeOf_spec]
          omega
      | some b =>
          show sizeOf [b] < _
          rw [document.sizeOf_spec, Option.some.sizeOf_spec, List.cons.sizeOf_spec,
            List.nil.sizeOf_spec]
          omega
  | mapping i es =>
      have := hinfo i
      rw [children, mapping.sizeOf_spec]
      omega
  | mappingEntry i k v =>
      have := hinfo i
      cases k <;> cases v <;> simp [children] <;> omega
  | sequence i xs =>
      have := hinfo i
      rw [children, sequence.sizeOf_spec]
      omega
  | scalar i v =>
      have := hinfo i
      simp [children]
      omega
  | reference i v =>
      have := hinfo i
      simp [children]
      omega

/-- The text that an alias of a node stands for in a path: that of a scalar. -/
def anchoredText? : Node → Option String
  | scalar _ v => v
  | _ => none

mutual

/-- The anchors behind a tree: a node is known by its anchor when all below it has been read. -/
def anchorsAfter (a : Anchors) (n : Node) : Anchors :=
  (anchorsAfterAll a n.children).define n.info.anchor n.anchoredText?
  termination_by sizeOf n
  decreasing_by exact sizeOf_children_lt n

/-- The anchors behind trees that follow one another. -/
def anchorsAfterAll (a : Anchors) : List Node → Anchors
  | [] => a
  | n :: ns => anchorsAfterAll (n.anchorsAfter a) ns
  termination_by ns => sizeOf ns

end

/-- The segment of an entry: that of its key, with the anchors up to and in the key. -/
def segment (text : List Char) (a : Anchors) : Node → String
  | mappingEntry _ (some k) _ => keySegment ⟨text, []⟩ (k.anchorsAfter a) k
  | _ => ""

/-- What is crossed from a node to the node `c` directly below it, the one with number `index`; `a`
are the anchors in front of `c`. An entry shares its route with its key and its value. -/
def crossing (n : Node) (text : List Char) (a : Anchors) (index : Nat) (c : Node) : List Crossing :=
  match n with
  | mapping _ _ => [.key (c.segment text a)]
  | sequence _ _ => [.item index]
  | _ => []

mutual

/-- The nodes of a tree in depth-first order, each with the route to it; `a` are the anchors in
front of the tree. -/
def routed (text : List Char) (a : Anchors) (n : Node) : List (List Crossing × Node) :=
  ([], n) :: routedBelow text n a 0 n.children
  termination_by sizeOf n
  decreasing_by exact sizeOf_children_lt n

/-- The nodes of trees that are directly below a node, from the one with number `index` on. -/
def routedBelow (text : List Char) (parent : Node) (a : Anchors) (index : Nat) :
    List Node → List (List Crossing × Node)
  | [] => []
  | c :: cs =>
      ((c.routed text a).map fun p => (parent.crossing text a index c ++ p.1, p.2)) ++
        routedBelow text parent (c.anchorsAfter a) (index + 1) cs
  termination_by cs => sizeOf cs

end

/-- No trees leave the anchors as they are. -/
@[simp]
lemma anchorsAfterAll_nil (a : Anchors) : anchorsAfterAll a [] = a := by
  rw [anchorsAfterAll]

/-- Nothing is below a node without children. -/
@[simp]
lemma routedBelow_nil (text : List Char) (parent : Node) (a : Anchors) (index : Nat) :
    routedBelow text parent a index [] = [] := by
  rw [routedBelow]

/-- An entry leaves the anchors that its value leaves behind its key. -/
lemma anchorsAfter_entryOf (a : Anchors) (path : String) (k v : Node) :
    (entryOf path k v).anchorsAfter a = v.anchorsAfter (k.anchorsAfter a) := by
  rw [anchorsAfter]
  show (anchorsAfterAll a [k, v]).define none none = _
  rw [anchorsAfterAll, anchorsAfterAll, anchorsAfterAll_nil]
  rfl

/-- An entry, its key and its value share their routes. -/
lemma routed_entryOf (text : List Char) (a : Anchors) (path : String) (k v : Node) :
    (entryOf path k v).routed text a =
      ([], entryOf path k v) :: (k.routed text a ++ v.routed text (k.anchorsAfter a)) := by
  rw [routed]
  show _ :: routedBelow text _ a 0 [k, v] = _
  rw [routedBelow, routedBelow, routedBelow_nil]
  simp [crossing, entryOf]

/-- The routes of a tree reach all its nodes, in depth-first order. -/
lemma map_snd_routed (text : List Char) (n : Node) : ∀ a,
    (n.routed text a).map Prod.snd = n.depthFirst := by
  induction n using children_induction with
  | step n ih =>
      have key : ∀ cs : List Node, (∀ c ∈ cs, ∀ a, (c.routed text a).map Prod.snd = c.depthFirst) →
          ∀ a i, (routedBelow text n a i cs).map Prod.snd = cs.flatMap depthFirst := by
        intro cs
        induction cs with
        | nil =>
            intro _ a i
            rw [routedBelow_nil]
            rfl
        | cons c cs ihcs =>
            intro hcs a i
            have hc := hcs c List.mem_cons_self a
            rw [routedBelow, List.map_append, List.map_map,
              ihcs fun d hd => hcs d (List.mem_cons_of_mem c hd), List.flatMap_cons, ← hc]
            rfl
      intro a
      rw [routed, List.map_cons, key n.children ih, depthFirst_eq]

/-- A tree begins with its root, which is reached without crossing anything. -/
lemma nil_mem_routed (text : List Char) (a : Anchors) (n : Node) : ([], n) ∈ n.routed text a := by
  rw [routed]
  exact List.mem_cons_self

/-- What is below one of several nodes is reached through the crossing to that node. -/
lemma mem_routedBelow {text : List Char} {parent m : Node} {r : List Crossing} :
    ∀ {cs : List Node} {a : Anchors} {index : Nat}, (r, m) ∈ routedBelow text parent a index cs →
      ∃ c ∈ cs, ∃ b i s, r = parent.crossing text b i c ++ s ∧ (s, m) ∈ c.routed text b ∧
        ∀ t k, (t, k) ∈ c.routed text b →
          (parent.crossing text b i c ++ t, k) ∈ routedBelow text parent a index cs
  | [], a, index, h => by simp at h
  | c :: cs, a, index, h => by
      rw [routedBelow] at h ⊢
      rcases List.mem_append.mp h with h | h
      · obtain ⟨⟨s, k⟩, hs, heq⟩ := List.mem_map.mp h
        cases heq
        exact ⟨c, List.mem_cons_self, a, index, s, rfl, hs, fun t k hk =>
          List.mem_append_left _ (List.mem_map.mpr ⟨(t, k), hk, rfl⟩)⟩
      · obtain ⟨d, hd, b, i, s, hr, hs, hall⟩ := mem_routedBelow h
        exact ⟨d, List.mem_cons_of_mem c hd, b, i, s, hr, hs, fun t k hk =>
          List.mem_append_right _ (hall t k hk)⟩

/-- Every node of a list is reached. -/
lemma exists_mem_routedBelow {text : List Char} {parent c : Node} :
    ∀ {cs : List Node} {a : Anchors} {index : Nat}, c ∈ cs →
      ∃ b i, (parent.crossing text b i c, c) ∈ routedBelow text parent a index cs
  | d :: cs, a, index, h => by
      rw [routedBelow]
      rcases List.mem_cons.mp h with rfl | h
      · refine ⟨a, index, List.mem_append_left _ (List.mem_map.mpr ⟨([], c), ?_, ?_⟩)⟩
        · exact nil_mem_routed text a c
        · rw [List.append_nil]
      · obtain ⟨b, i, hc⟩ : ∃ b i, (parent.crossing text b i c, c) ∈
            routedBelow text parent (d.anchorsAfter a) (index + 1) cs := exists_mem_routedBelow h
        exact ⟨b, i, List.mem_append_right _ hc⟩

/-- The routes go on from each node to the nodes directly below it. -/
lemma exists_routed_child {text : List Char} {n : Node} : ∀ {a : Anchors} {r : List Crossing}
    {m c : Node}, (r, m) ∈ n.routed text a → c ∈ m.children →
      ∃ b i, (r ++ m.crossing text b i c, c) ∈ n.routed text a := by
  induction n using children_induction with
  | step n ih =>
      intro a r m c h hc
      rw [routed] at h ⊢
      rcases List.mem_cons.mp h with heq | h
      · cases heq
        obtain ⟨b, i, hmem⟩ := exists_mem_routedBelow hc
        exact ⟨b, i, List.mem_cons_of_mem _ hmem⟩
      · obtain ⟨d, hd, b, i, s, rfl, hs, hall⟩ := mem_routedBelow h
        obtain ⟨b', i', hmem⟩ := ih d hd hs hc
        refine ⟨b', i', List.mem_cons_of_mem _ ?_⟩
        rw [List.append_assoc]
        exact hall _ _ hmem

/-! ### Changing paths -/

/-- A node stands for the same text at another path. -/
lemma anchoredText?_mapPaths (f : String → String) (n : Node) :
    (n.mapPaths f).anchoredText? = n.anchoredText? := by
  cases n <;> rfl

/-- A key has the same segment at another path. -/
lemma keySegment_mapPaths (f : String → String) (src : Source) (a : Anchors) (n : Node) :
    keySegment src a (n.mapPaths f) = keySegment src a n := by
  cases n <;> rfl

/-- A tree leaves the same anchors at other paths. -/
lemma anchorsAfter_mapPaths (f : String → String) (n : Node) : ∀ a,
    (n.mapPaths f).anchorsAfter a = n.anchorsAfter a := by
  induction n using children_induction with
  | step n ih =>
      have key : ∀ cs : List Node, (∀ c ∈ cs, ∀ a, (c.mapPaths f).anchorsAfter a =
          c.anchorsAfter a) →
            ∀ a, anchorsAfterAll a (cs.map (mapPaths f)) = anchorsAfterAll a cs := by
        intro cs
        induction cs with
        | nil => exact fun _ _ => rfl
        | cons c cs ihcs =>
            intro hcs a
            rw [List.map_cons, anchorsAfterAll, anchorsAfterAll, hcs c List.mem_cons_self,
              ihcs fun d hd => hcs d (List.mem_cons_of_mem c hd)]
      intro a
      rw [anchorsAfter, anchorsAfter, children_mapPaths, key n.children ih, info_mapPaths,
        anchoredText?_mapPaths]

/-- An entry has the same segment at another path. -/
lemma segment_mapPaths (f : String → String) (text : List Char) (a : Anchors) (n : Node) :
    (n.mapPaths f).segment text a = n.segment text a := by
  cases n with
  | mappingEntry i k v =>
      cases k with
      | none => rfl
      | some k =>
          rw [mapPaths, mapPathsOption, segment, segment, keySegment_mapPaths,
            anchorsAfter_mapPaths]
  | _ => rfl

/-- The same is crossed at other paths. -/
lemma crossing_mapPaths (f : String → String) (text : List Char) (a : Anchors) (index : Nat)
    (n c : Node) :
    (n.mapPaths f).crossing text a index (c.mapPaths f) = n.crossing text a index c := by
  cases n with
  | mapping i es => rw [mapPaths, crossing, crossing, segment_mapPaths]
  | _ => rfl

/-- A tree has the same routes at other paths. -/
lemma routed_mapPaths (f : String → String) (text : List Char) (n : Node) : ∀ a,
    (n.mapPaths f).routed text a = (n.routed text a).map fun p => (p.1, p.2.mapPaths f) := by
  induction n using children_induction with
  | step n ih =>
      have key : ∀ cs : List Node, (∀ c ∈ cs, ∀ a, (c.mapPaths f).routed text a =
          (c.routed text a).map fun p => (p.1, p.2.mapPaths f)) → ∀ a i,
          routedBelow text (n.mapPaths f) a i (cs.map (mapPaths f)) =
            (routedBelow text n a i cs).map fun p => (p.1, p.2.mapPaths f) := by
        intro cs
        induction cs with
        | nil =>
            intro _ a i
            simp
        | cons c cs ihcs =>
            intro hcs a i
            rw [List.map_cons, routedBelow, routedBelow, List.map_append,
              hcs c List.mem_cons_self, anchorsAfter_mapPaths, crossing_mapPaths,
              ihcs fun d hd => hcs d (List.mem_cons_of_mem c hd), List.map_map, List.map_map]
            rfl
      intro a
      rw [routed, routed, children_mapPaths, key n.children ih, List.map_cons]

end Node

/-! ### The paths of composed trees -/

namespace Compose

/-- Every one of some nodes is at the path that its route leads to from `path`. -/
def AtRoutes (path : String) (ps : List (List Crossing × Node)) : Prop :=
  ∀ r m, (r, m) ∈ ps → m.path.toList = path.toList ++ pathOf r

/-- Segments do not depend on the units of a text. -/
lemma keySegment_text (src : Source) (a : Anchors) (n : Node) :
    keySegment ⟨src.text, []⟩ a n = keySegment src a n := by
  cases n <;> rfl

/-- The path of an item is reached by crossing to the item. -/
lemma toList_itemPath (path : String) (index : Nat) :
    (itemPath path index).toList = path.toList ++ (Crossing.item index).path := by
  rw [itemPath]
  simp [Crossing.path]
  rfl

/-- The path of an entry is reached by crossing to the entry. -/
lemma toList_entryPath (path segment : String) :
    (entryPath path segment).toList = path.toList ++ (Crossing.key segment).path := by
  simp [entryPath, Crossing.path]

/-- Nodes that are at their routes behind a crossing are at their routes. -/
lemma AtRoutes.cross {path target : String} {x : Crossing} {ps : List (List Crossing × Node)}
    (htarget : target.toList = path.toList ++ x.path) (h : AtRoutes target ps) :
    AtRoutes path (ps.map fun p => ([x] ++ p.1, p.2)) := by
  intro r m hm
  obtain ⟨⟨s, k⟩, hs, heq⟩ := List.mem_map.mp hm
  cases heq
  rw [h s k hs, htarget, pathOf, pathOf, List.flatMap_append, List.flatMap_singleton,
    List.append_assoc]

/-- Nodes in two lists are at their routes. -/
lemma AtRoutes.append {path : String} {ps qs : List (List Crossing × Node)} (hp : AtRoutes path ps)
    (hq : AtRoutes path qs) : AtRoutes path (ps ++ qs) := by
  intro r m hm
  rcases List.mem_append.mp hm with hm | hm
  · exact hp r m hm
  · exact hq r m hm

/-- A root at its path and the nodes below it are at their routes. -/
lemma AtRoutes.cons {path : String} {n : Node} {ps : List (List Crossing × Node)}
    (hn : n.path = path) (hp : AtRoutes path ps) : AtRoutes path (([], n) :: ps) := by
  intro r m hm
  rcases List.mem_cons.mp hm with heq | hm
  · cases heq
    rw [hn, pathOf, List.flatMap_nil, List.append_nil]
  · exact hp r m hm

/-- A tree that is moved to another path is at its routes there. -/
lemma AtRoutes.reroot {text : List Char} {a : Anchors} {path target : String} {n : Node}
    (h : AtRoutes path (n.routed text a)) :
    AtRoutes target ((n.mapPaths (reroot path target)).routed text a) := by
  intro r m hm
  rw [Node.routed_mapPaths] at hm
  obtain ⟨⟨s, k⟩, hs, heq⟩ := List.mem_map.mp hm
  cases heq
  have hpath : (k.mapPaths (Compose.reroot path target)).path = Compose.reroot path target k.path :=
    congrArg NodeInfo.path (Node.info_mapPaths _ k)
  rw [hpath, Compose.reroot, String.toList_append, String.toList_ofList, h s k hs,
    ← String.length_toList, List.drop_left]

/-- What is composed within a bound: nodes, items and entries leave the anchors behind them that
they define, and their nodes are at their routes. -/
structure Routed (src : Source) (n : Nat) : Prop where
  node : ∀ {a path es c}, node src n a path es = .ok c →
    c.anchors = c.value.anchorsAfter a ∧ AtRoutes path (c.value.routed src.text a)
  items : ∀ {a path index es c}, items src n a path index es = .ok c →
    c.anchors = Node.anchorsAfterAll a c.value.nodes ∧ ∀ i xs,
      AtRoutes path (Node.routedBelow src.text (.sequence i xs) a index c.value.nodes)
  entries : ∀ {a path es c}, entries src n a path es = .ok c →
    c.anchors = Node.anchorsAfterAll a c.value.nodes ∧ ∀ i xs index,
      AtRoutes path (Node.routedBelow src.text (.mapping i xs) a index c.value.nodes)

namespace Routed

variable {src : Source} {n : Nat} {a : Anchors} {path : String} {es : List Event}

/-- Nothing is composed in no steps. -/
lemma zero (src : Source) : Routed src 0 := by
  constructor <;> intros <;> rename_i h <;> cases h

/-- A node. -/
lemma node_succ {c : Composed Node} (ih : Routed src n)
    (h : Compose.node src (n + 1) a path es = .ok c) :
    c.anchors = c.value.anchorsAfter a ∧ AtRoutes path (c.value.routed src.text a) := by
  obtain ⟨k, e, rest, hk, -, hrun⟩ := run_of_node h
  cases hk
  cases hrun with
  | reference step =>
      rw [Node.anchorsAfter, Node.routed, Node.children, Node.anchorsAfterAll_nil,
        Node.routedBelow_nil]
      exact ⟨rfl, AtRoutes.cons rfl fun _ _ hm => by cases hm⟩
  | scalar step =>
      rw [Node.anchorsAfter, Node.routed, Node.children, Node.anchorsAfterAll_nil,
        Node.routedBelow_nil]
      exact ⟨rfl, AtRoutes.cons rfl fun _ _ hm => by cases hm⟩
  | sequence step hitems =>
      obtain ⟨hanchors, hroutes⟩ := ih.items hitems
      rw [Node.anchorsAfter, Node.routed, hanchors]
      exact ⟨rfl, AtRoutes.cons rfl (hroutes _ _)⟩
  | mapping step hentries =>
      obtain ⟨hanchors, hroutes⟩ := ih.entries hentries
      rw [Node.anchorsAfter, Node.routed, hanchors]
      exact ⟨rfl, AtRoutes.cons rfl (hroutes _ _ 0)⟩

/-- The items of a sequence. -/
lemma items_succ {index : Nat} {c : Composed Contents} (ih : Routed src n)
    (h : Compose.items src (n + 1) a path index es = .ok c) :
    c.anchors = Node.anchorsAfterAll a c.value.nodes ∧ ∀ i xs,
      AtRoutes path (Node.routedBelow src.text (.sequence i xs) a index c.value.nodes) := by
  obtain ⟨k, e, rest, hk, -, hrun⟩ := run_of_items h
  cases hk
  cases hrun with
  | done step =>
      refine ⟨(Node.anchorsAfterAll_nil a).symm, fun i xs => ?_⟩
      rw [Node.routedBelow_nil]
      exact fun _ _ hm => by cases hm
  | item step hnode hitems =>
      obtain ⟨hanchors, hroutes⟩ := ih.node hnode
      obtain ⟨hanchors', hroutes'⟩ := ih.items hitems
      rw [Node.anchorsAfterAll, ← hanchors]
      refine ⟨hanchors', fun i xs => ?_⟩
      rw [Node.routedBelow, ← hanchors]
      exact (hroutes.cross (toList_itemPath path index)).append (hroutes' i xs)

/-- The entries of a mapping: the tree of a key is moved below the path of its entry. -/
lemma entries_succ {c : Composed Contents} (ih : Routed src n)
    (h : Compose.entries src (n + 1) a path es = .ok c) :
    c.anchors = Node.anchorsAfterAll a c.value.nodes ∧ ∀ i xs index,
      AtRoutes path (Node.routedBelow src.text (.mapping i xs) a index c.value.nodes) := by
  obtain ⟨k, e, rest, hk, -, hrun⟩ := run_of_entries h
  cases hk
  cases hrun with
  | done step =>
      refine ⟨(Node.anchorsAfterAll_nil a).symm, fun i xs index => ?_⟩
      rw [Node.routedBelow_nil]
      exact fun _ _ hm => by cases hm
  | @entry key value more target step hkey htarget hvalue hentries =>
      obtain ⟨hanchors, hroutes⟩ := ih.node hkey
      obtain ⟨hanchors', hroutes'⟩ := ih.node hvalue
      obtain ⟨hanchors'', hroutes''⟩ := ih.entries hentries
      have hkeyanchors : (key.value.mapPaths (reroot path target)).anchorsAfter a =
          key.anchors := by rw [Node.anchorsAfter_mapPaths, hanchors]
      have hsegment : (Node.entryOf target (key.value.mapPaths (reroot path target))
          value.value).segment src.text a = keySegment src key.anchors key.value := by
        rw [Node.entryOf, Node.segment, hkeyanchors, Node.keySegment_mapPaths, keySegment_text]
      refine ⟨?_, fun i xs index => ?_⟩
      · rw [Node.anchorsAfterAll, Node.anchorsAfter_entryOf, hkeyanchors, ← hanchors']
        exact hanchors''
      · rw [Node.routedBelow, Node.crossing, hsegment, Node.anchorsAfter_entryOf, hkeyanchors,
          ← hanchors', Node.routed_entryOf, hkeyanchors]
        have htarget' : target.toList = path.toList ++
            (Crossing.key (keySegment src key.anchors key.value)).path := by
          rw [htarget, toList_entryPath]
        refine (AtRoutes.cross htarget' ?_).append (hroutes'' i xs _)
        exact AtRoutes.cons rfl (hroutes.reroot.append hroutes')

end Routed

/-- **Composed nodes are at their routes.** -/
theorem atRoutes_composed (src : Source) (n : Nat) : Routed src n := by
  induction n with
  | zero => exact Routed.zero src
  | succ n ih => exact ⟨ih.node_succ, ih.items_succ, ih.entries_succ⟩

end Compose

end YamlNavigator
