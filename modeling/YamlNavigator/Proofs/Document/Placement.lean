import YamlNavigator.Proofs.Document.Route
import YamlNavigator.Proofs.Document.Tiles

/-!
A path is the path of the node above with a step behind it.

* `Node.Reaches`, `Node.exists_reaches`: the nodes of a tree, each with the anchors that are known
  in front of it;
* `Node.HasPairs`, `Compose.paired`: the entries of a composed tree have a key and a value;
* `Compose.AtRoutes.child`: a step down a tree keeps nodes at their routes;
* `Node.ExtendsPath`, `paths_compositional`: the nodes of a composed tree extend their paths, those
  in keys too.

A key is composed at the path of its mapping and moved from there, once for each key that it is in.
What is moved keeps its routes, so only the steps down the finished tree are looked at here.
-/

namespace YamlNavigator

open Yaml

namespace Node

/-! ### The nodes of a tree -/

/-- The nodes of a tree `n`, each with the anchors that are known in front of it; `a` are those in
front of the tree. -/
inductive Reaches (a : Anchors) (n : Node) : Anchors → Node → Prop
  | root : Reaches a n a n
  | child {b : Anchors} {m c : Node} {i : Nat} (parent : Reaches a n b m)
      (here : m.children[i]? = some c) :
      Reaches a n (anchorsAfterAll b (m.children.take i)) c

/-- What a subtree reaches is reached by the tree. -/
lemma Reaches.trans {a b c : Anchors} {n m k : Node} (hm : Reaches a n b m) (hk : Reaches b m c k) :
    Reaches a n c k := by
  induction hk with
  | root => exact hm
  | child _ here ih => exact .child ih here

/-- Every node of a tree is reached. -/
theorem exists_reaches {m : Node} (n : Node) : ∀ {a : Anchors}, m ∈ n.depthFirst →
    ∃ b, Reaches a n b m := by
  induction n using children_induction with
  | step n ih =>
      intro a h
      rw [depthFirst_eq] at h
      rcases List.mem_cons.mp h with rfl | h
      · exact ⟨a, .root⟩
      · obtain ⟨c, hc, hm⟩ := List.mem_flatMap.mp h
        obtain ⟨i, hi⟩ := List.mem_iff_getElem?.mp hc
        obtain ⟨b, hb⟩ := ih c hc hm
        exact ⟨b, (Reaches.child .root hi).trans hb⟩

/-! ### Keys and values -/

/-- The nodes directly below a mapping are entries with a key and a value. -/
def PairsChildren : Node → Prop
  | mapping _ entries => ∀ e ∈ entries, ∃ path k v, e = entryOf path k v
  | _ => True

/-- In a tree, the nodes directly below mappings are entries with a key and a value. -/
inductive HasPairs : Node → Prop
  | node {n : Node} (here : n.PairsChildren) (below : ∀ c ∈ n.children, HasPairs c) : HasPairs n

/-- An entry that is moved is the entry of the moved key and the moved value. -/
lemma mapPaths_entryOf (f : String → String) (path : String) (k v : Node) :
    (entryOf path k v).mapPaths f = entryOf (f path) (k.mapPaths f) (v.mapPaths f) := by
  simp [entryOf, mapPaths, mapPathsOption, token, start, stop, info_mapPaths]

/-- A tree has keys and values at other paths. -/
lemma HasPairs.mapPaths {n : Node} (h : n.HasPairs) (f : String → String) :
    (n.mapPaths f).HasPairs := by
  induction h with
  | @node n here _ ih =>
      refine .node ?_ fun c hc => ?_
      · cases n with
        | mapping info entries =>
            intro e he
            rw [mapPathsAll_eq_map] at he
            obtain ⟨e', he', rfl⟩ := List.mem_map.mp he
            obtain ⟨path, k, v, rfl⟩ := here e' he'
            exact ⟨_, _, _, mapPaths_entryOf f path k v⟩
        | _ => trivial
      · rw [children_mapPaths] at hc
        obtain ⟨c', hc', rfl⟩ := List.mem_map.mp hc
        exact ih c' hc'

/-- An entry has keys and values if its key and its value do. -/
lemma hasPairs_entryOf {path : String} {k v : Node} (hk : k.HasPairs) (hv : v.HasPairs) :
    (entryOf path k v).HasPairs :=
  .node trivial (List.forall_mem_cons.mpr ⟨hk, List.forall_mem_singleton.mpr hv⟩)

end Node

namespace Compose

variable {src : Source} {n : Nat} {a : Anchors} {path : String} {es : List Event}

/-- What is composed within a bound: nodes, items and entries have keys and values. -/
structure Paired (src : Source) (n : Nat) : Prop where
  node : ∀ {a path es c}, node src n a path es = .ok c → c.value.HasPairs
  items : ∀ {a path index es c}, items src n a path index es = .ok c →
    ∀ x ∈ c.value.nodes, x.HasPairs
  entries : ∀ {a path es c}, entries src n a path es = .ok c →
    ∀ x ∈ c.value.nodes, x.HasPairs ∧ ∃ path k v, x = .entryOf path k v

namespace Paired

/-- Nothing is composed in no steps. -/
lemma zero (src : Source) : Paired src 0 where
  node h := by cases h
  items h := by cases h
  entries h := by cases h

/-- A node has keys and values if what is below it does. -/
lemma node_succ {c : Composed Node} (ih : Paired src n)
    (h : Compose.node src (n + 1) a path es = .ok c) : c.value.HasPairs := by
  obtain ⟨k, e, rest, hk, -, hrun⟩ := run_of_node h
  cases hk
  cases hrun with
  | reference step => exact .node trivial (List.forall_mem_nil _)
  | scalar step => exact .node trivial (List.forall_mem_nil _)
  | sequence step hitems => exact .node trivial (ih.items hitems)
  | mapping step hentries =>
      exact .node (fun x hx => (ih.entries hentries x hx).2) fun x hx => (ih.entries hentries x hx).1

/-- Items have keys and values. -/
lemma items_succ {index : Nat} {c : Composed Contents} (ih : Paired src n)
    (h : Compose.items src (n + 1) a path index es = .ok c) : ∀ x ∈ c.value.nodes, x.HasPairs := by
  obtain ⟨k, e, rest, hk, -, hrun⟩ := run_of_items h
  cases hk
  cases hrun with
  | done step => exact List.forall_mem_nil _
  | item step hnode hitems => exact List.forall_mem_cons.mpr ⟨ih.node hnode, ih.items hitems⟩

/-- Entries have a key, which was moved, and a value. -/
lemma entries_succ {c : Composed Contents} (ih : Paired src n)
    (h : Compose.entries src (n + 1) a path es = .ok c) :
    ∀ x ∈ c.value.nodes, x.HasPairs ∧ ∃ path k v, x = .entryOf path k v := by
  obtain ⟨k, e, rest, hk, -, hrun⟩ := run_of_entries h
  cases hk
  cases hrun with
  | done step => exact fun _ hx => absurd hx List.not_mem_nil
  | entry step hkey htarget hvalue hentries =>
      refine List.forall_mem_cons.mpr ⟨⟨?_, _, _, _, rfl⟩, ih.entries hentries⟩
      exact Node.hasPairs_entryOf ((ih.node hkey).mapPaths _) (ih.node hvalue)

end Paired

/-- **Composed entries have a key and a value.** -/
theorem paired (src : Source) (n : Nat) : Paired src n := by
  induction n with
  | zero => exact Paired.zero src
  | succ n ih => exact ⟨ih.node_succ, ih.items_succ, ih.entries_succ⟩

/-! ### Steps down a tree -/

/-- What is below one of several nodes is reached by crossing to that node, with the anchors that
the nodes before it leave behind. -/
lemma mem_routedBelow_of_getElem? {text : List Char} {parent c m : Node} {r : List Crossing}
    {cs : List Node} {i index : Nat} {a : Anchors} (hc : cs[i]? = some c)
    (hm : (r, m) ∈ c.routed text (Node.anchorsAfterAll a (cs.take i))) :
    (parent.crossing text (Node.anchorsAfterAll a (cs.take i)) (index + i) c ++ r, m) ∈
      Node.routedBelow text parent a index cs := by
  induction cs generalizing i index a with
  | nil => cases hc
  | cons d cs ih =>
      rw [Node.routedBelow]
      cases i with
      | zero =>
          obtain rfl : d = c := Option.some.inj hc
          rw [List.take_zero, Node.anchorsAfterAll_nil] at hm ⊢
          exact List.mem_append_left _ (List.mem_map.mpr ⟨(r, m), hm, rfl⟩)
      | succ i =>
          rw [List.take_succ_cons, Node.anchorsAfterAll] at hm ⊢
          rw [← Nat.add_assoc, Nat.add_right_comm]
          exact List.mem_append_right _ (ih hc hm)

/-- A step down a tree: the path of the child is that of the node with the crossing behind it, and
what is below the child is at its routes from there. -/
lemma AtRoutes.child {text : List Char} {b : Anchors} {m c : Node} {i : Nat}
    (h : AtRoutes m.path (m.routed text b)) (hc : m.children[i]? = some c) :
    let b' := Node.anchorsAfterAll b (m.children.take i)
    c.path.toList = m.path.toList ++ pathOf (m.crossing text b' i c) ∧
      AtRoutes c.path (c.routed text b') := by
  intro b'
  have hbelow : ∀ r k, (r, k) ∈ c.routed text b' →
      k.path.toList = m.path.toList ++ pathOf (m.crossing text b' i c ++ r) := by
    intro r k hk
    have hmem : (m.crossing text b' (0 + i) c ++ r, k) ∈ Node.routedBelow text m b 0 m.children :=
      mem_routedBelow_of_getElem? hc hk
    rw [Nat.zero_add] at hmem
    refine h _ _ ?_
    rw [Node.routed]
    exact List.mem_cons_of_mem _ hmem
  have hpath := hbelow [] c (Node.nil_mem_routed text b' c)
  rw [List.append_nil] at hpath
  refine ⟨hpath, fun r k hk => ?_⟩
  rw [hbelow r k hk, hpath, pathOf, pathOf, pathOf, List.flatMap_append, List.append_assoc]

end Compose

namespace Node

/-- The paths directly below a node: an item is at the path of the node with the number of the item
in brackets, and an entry is at the path of the node with a dot and the segment of the key, as its
key and its value are. -/
def ExtendsPath (src : Source) (b : Anchors) : Node → Prop
  | sequence info items => ∀ (i : Nat) (c : Node), items[i]? = some c →
      c.path = info.path ++ "[" ++ toString i ++ "]"
  | mapping info entries => ∀ (i : Nat) (e : Node), entries[i]? = some e →
      ∃ path k v, e = entryOf path k v ∧ path = info.path ++ "." ++
        keySegment src (k.anchorsAfter (anchorsAfterAll b (entries.take i))) k ∧
        k.path = path ∧ v.path = path
  | _ => True

/-- Nodes that are at their routes extend their paths. -/
lemma extendsPath {src : Source} {b : Anchors} {m : Node}
    (h : Compose.AtRoutes m.path (m.routed src.text b)) (hpairs : m.HasPairs) :
    m.ExtendsPath src b := by
  obtain @⟨m, here, -⟩ := hpairs
  cases m with
  | sequence info items =>
      intro i c hc
      have hpath : c.path.toList = info.path.toList ++ pathOf [.item i] := (h.child hc).1
      apply String.toList_inj.mp
      rw [hpath, pathOf, List.flatMap_singleton, ← Compose.toList_itemPath]
      rfl
  | mapping info entries =>
      intro i e he
      obtain ⟨path, k, v, rfl⟩ := here e (List.mem_of_getElem? he)
      obtain ⟨hpath, hroutes⟩ := h.child he
      have hpath : path.toList = info.path.toList ++ pathOf [.key ((entryOf path k v).segment
          src.text (anchorsAfterAll b (entries.take i)))] := hpath
      -- The key and the value are reached from the entry without crossing anything.
      have hk : k.path.toList = path.toList ++ pathOf [] := (hroutes.child (i := 0) rfl).1
      have hv : v.path.toList = path.toList ++ pathOf [] := (hroutes.child (i := 1) rfl).1
      refine ⟨path, k, v, rfl, ?_, ?_, ?_⟩ <;> apply String.toList_inj.mp
      · rw [hpath, pathOf, List.flatMap_singleton, ← Compose.toList_entryPath, entryOf, segment,
          Compose.keySegment_text]
        rfl
      · rw [hk, pathOf, List.flatMap_nil, List.append_nil]
      · rw [hv, pathOf, List.flatMap_nil, List.append_nil]
  | _ => trivial

/-- The nodes that are reached in a tree are at their routes and have keys and values, if its root
is and does. -/
lemma Reaches.atRoutes {text : List Char} {a b : Anchors} {n m : Node} (h : Reaches a n b m)
    (hroutes : Compose.AtRoutes n.path (n.routed text a)) (hpairs : n.HasPairs) :
    Compose.AtRoutes m.path (m.routed text b) ∧ m.HasPairs := by
  induction h with
  | root => exact ⟨hroutes, hpairs⟩
  | child _ here ih =>
      obtain ⟨hroutes, -, hbelow⟩ := ih
      exact ⟨(hroutes.child here).2, hbelow _ (List.mem_of_getElem? here)⟩

end Node

/-- **Paths are compositional.** Every document of a composed tree has its body at `$`, and every
node below the body, in keys and out of them, is at the path of the node above it with its own step
behind it. -/
theorem paths_compositional {src : Source} {es behind : List Event} {tree : Node}
    (h : Compose.stream src es = .ok (tree, behind)) :
    ∀ d ∈ tree.children, ∃ info body, d = .document info (some body) ∧ body.path = "$" ∧
      (∀ m ∈ body.depthFirst, ∃ b, body.Reaches [] b m) ∧
      ∀ b m, body.Reaches [] b m → m.ExtendsPath src b := by
  obtain ⟨ds, hds, rfl⟩ := Compose.stream_eq_ok h
  intro d hd
  obtain ⟨first, rest, more, body, last, hrun⟩ := Compose.exists_body_of_mem_documents hds d hd
  have hpath : body.value.path = "$" := Compose.path_of_node hrun.body_eq
  have hroutes := ((Compose.atRoutes_composed src _).node hrun.body_eq).2
  have hpairs := (Compose.paired src _).node hrun.body_eq
  rw [Compose.rootPath, ← hpath] at hroutes
  refine ⟨_, body.value, hrun.node_eq, hpath, fun m hm => Node.exists_reaches body.value hm,
    fun b m hm => ?_⟩
  obtain ⟨hroutes, hpairs⟩ := hm.atRoutes hroutes hpairs
  exact Node.extendsPath hroutes hpairs

/-- A sequence in a mapping that is the key of another one, and an alias of an anchor in it. -/
theorem paths_compositional_nestedKeys :
    ∃ src es behind tree, Compose.stream src es = .ok (tree, behind) ∧
      tree.depthFirst.map Node.path =
        ["", "", "$", "$.{[&x a]: b}", "$.{[&x a]: b}", "$.{[&x a]: b}.[&x a]",
          "$.{[&x a]: b}.[&x a]", "$.{[&x a]: b}.[&x a][0]", "$.{[&x a]: b}.[&x a]",
          "$.{[&x a]: b}", "$.a", "$.a", "$.a"] ∧
      ∀ d ∈ tree.children, ∃ info body, d = .document info (some body) ∧ body.path = "$" ∧
        (∀ m ∈ body.depthFirst, ∃ b, body.Reaches [] b m) ∧
        ∀ b m, body.Reaches [] b m → m.ExtendsPath src b := by
  obtain ⟨d, hd, hpaths⟩ := Except.exists_ok_of_any (x := parse "{[&x a]: b}: c\n*x : d\n")
    (p := fun d => d.documents.depthFirst.map Node.path ==
      ["", "", "$", "$.{[&x a]: b}", "$.{[&x a]: b}", "$.{[&x a]: b}.[&x a]",
        "$.{[&x a]: b}.[&x a]", "$.{[&x a]: b}.[&x a][0]", "$.{[&x a]: b}.[&x a]",
        "$.{[&x a]: b}", "$.a", "$.a", "$.a"]) (by decide +kernel)
  obtain ⟨ls, es, behind, -, -, hstream, -, -⟩ := exists_stages_of_parse hd
  exact ⟨_, es, behind, d.documents, hstream, eq_of_beq hpaths, paths_compositional hstream⟩

end YamlNavigator
