import YamlNavigator.Proofs.Document.Aggregation
import YamlNavigator.Proofs.Document.Placement

/-!
The order in which the nodes of a tree end, beside the order in which they begin.

* `Node.endings`, `Node.endedBefore`: the nodes of a tree, each behind those below it, and the ones
  that end in front of a place;
* `Node.Meets`, `Node.exists_meets`: the nodes of a tree, each with what has begun and what has
  ended in front of it;
* `Node.Meets.encloses`: a node that has begun has ended, or the node that is met is inside it;
* `Node.Meets.reaches`: the anchors that are known at a node are those of the nodes that have ended.
-/

namespace YamlNavigator

namespace Node

/-! ### The order in which nodes end -/

/-- All nodes of a tree, each behind those below it. -/
def endings (n : Node) : List Node :=
  (n.children.attach.flatMap fun c =>
    have := sizeOf_lt_of_mem_children c.2
    endings c.1) ++ [n]
  termination_by sizeOf n

/-- The nodes of trees that follow one another, as far as they end in front of a place, in the order
in which they end. Places are counted in depth-first order. -/
def endedBefore (place : Nat) : List Node → List Node
  | [] => []
  | n :: ns =>
      if n.count ≤ place then n.endings ++ endedBefore (place - n.count) ns
      else endedBefore (place - 1) n.children
  termination_by ns => sizeOf ns
  decreasing_by
    · rw [List.cons.sizeOf_spec]
      omega
    · have := sizeOf_children_lt n
      rw [List.cons.sizeOf_spec]
      omega

/-- The children of a node end in front of it. -/
lemma endings_eq (n : Node) : n.endings = n.children.flatMap endings ++ [n] := by
  rw [endings]
  conv => rhs; rw [← List.attach_map_subtype_val n.children, List.flatMap_map]

/-- The nodes that begin are those that end. -/
lemma mem_endings {n m : Node} : m ∈ n.endings ↔ m ∈ n.depthFirst := by
  induction n using children_induction with
  | step n ih =>
      rw [endings_eq, depthFirst_eq, List.mem_append, List.mem_singleton, List.mem_cons, or_comm,
        List.mem_flatMap, List.mem_flatMap]
      refine or_congr Iff.rfl ⟨?_, ?_⟩
      · rintro ⟨c, hc, hm⟩
        exact ⟨c, hc, (ih c hc).mp hm⟩
      · rintro ⟨c, hc, hm⟩
        exact ⟨c, hc, (ih c hc).mpr hm⟩

/-! ### Places -/

section Places

variable {n m c : Node} {before after : List Node} {i : Nat}

/-- A tree has its root and the trees below it. -/
lemma count_eq (n : Node) : n.count = (n.children.flatMap depthFirst).length + 1 := by
  rw [count, depthFirst_eq, List.length_cons]

/-- The trees below a node, in front of one of its children and with it, are in the tree. -/
lemma count_of_children (h : n.children = before ++ c :: after) :
    (before.flatMap depthFirst).length + c.count + 1 ≤ n.count := by
  rw [count_eq n, h, List.flatMap_append, List.flatMap_cons, List.length_append, List.length_append,
    count]
  omega

/-- A tree at a place of a tree ends within it. -/
lemma add_count_le (h : n.depthFirst[i]? = some m) : i + m.count ≤ n.count := by
  obtain ⟨front, back, hsplit, rfl⟩ := n.exists_depthFirst_split h
  rw [count, count, hsplit, List.length_append, List.length_append]
  omega

/-- A tree at a place of trees that follow one another ends within these. -/
lemma add_count_le_length {ns : List Node} (h : (ns.flatMap depthFirst)[i]? = some m) :
    i + m.count ≤ (ns.flatMap depthFirst).length := by
  obtain ⟨front, n, back, j, rfl, rfl, hm⟩ := exists_flatMap_split h
  have hle := add_count_le hm
  rw [List.flatMap_append, List.flatMap_cons, List.length_append, List.length_append, ← count]
  omega

/-- Nothing ends in front of the first place. -/
@[simp]
lemma endedBefore_zero : ∀ ns : List Node, endedBefore 0 ns = []
  | [] => by rw [endedBefore]
  | n :: ns => by
      rw [endedBefore, if_neg (by rw [count_eq]; omega)]
      exact endedBefore_zero n.children
  termination_by ns => sizeOf ns
  decreasing_by
    have := sizeOf_children_lt n
    simp
    omega

/-- Within a tree only nodes below its root have ended. -/
lemma endedBefore_singleton (h : i < n.count) :
    endedBefore i [n] = endedBefore (i - 1) n.children := by
  rw [endedBefore, if_neg (Nat.not_le.mpr h)]

/-- Within one of several trees, those in front of it have ended. -/
lemma endedBefore_append (h : i < c.count) : ∀ before : List Node,
    endedBefore ((before.flatMap depthFirst).length + i) (before ++ c :: after) =
      before.flatMap endings ++ endedBefore i [c]
  | [] => by
      rw [endedBefore_singleton h, List.nil_append, endedBefore,
        if_neg (Nat.not_le.mpr (by simpa using h))]
      simp
  | b :: before => by
      have ih := endedBefore_append h before
      have hplace : ((b :: before).flatMap depthFirst).length + i - b.count =
          (before.flatMap depthFirst).length + i := by
        rw [List.flatMap_cons, List.length_append, ← count]
        omega
      rw [List.cons_append, endedBefore, if_pos, hplace, ih, List.flatMap_cons, List.append_assoc]
      rw [List.flatMap_cons, List.length_append, ← count]
      omega

/-- Up to a child of a node, what has ended in front of the node and the children before it. -/
lemma endedBefore_child (n : Node) : ∀ {i : Nat}, n.depthFirst[i]? = some m →
    m.children = before ++ c :: after →
      endedBefore (i + ((before.flatMap depthFirst).length + 1)) [n] =
        endedBefore i [n] ++ before.flatMap endings := by
  induction n using children_induction with
  | step n ih =>
      intro i hm hc
      have hcount := count_of_children hc
      have hpos : 0 < c.count := by rw [count_eq]; omega
      have hle := add_count_le hm
      rw [endedBefore_singleton (by omega), endedBefore_singleton (i := i) (by omega)]
      rw [depthFirst_eq] at hm
      cases i with
      | zero =>
          obtain rfl : n = m := by simpa using hm
          rw [hc, Nat.zero_add, Nat.add_sub_cancel, endedBefore_zero,
            ← Nat.add_zero (before.flatMap depthFirst).length, endedBefore_append hpos]
          simp
      | succ i =>
          rw [List.getElem?_cons_succ] at hm
          obtain ⟨front, d, back, j, hsplit, rfl, hd⟩ := exists_flatMap_split hm
          have hlt := add_count_le hd
          have hplace : (front.flatMap depthFirst).length + j + 1 +
              ((before.flatMap depthFirst).length + 1) - 1 = (front.flatMap depthFirst).length +
                (j + ((before.flatMap depthFirst).length + 1)) := by omega
          rw [hplace, Nat.add_sub_cancel, hsplit, endedBefore_append (by omega),
            endedBefore_append (by omega), ih d (hsplit ▸ by simp) hd hc, List.append_assoc]

end Places

/-! ### What has begun and what has ended at a node -/

/-- The nodes of a tree `n`, each with the nodes that have begun and those that have ended in front
of it, both in order. -/
inductive Meets (n : Node) : List Node → List Node → Node → Prop
  | root : Meets n [] [] n
  | child {begun ended before after : List Node} {m c : Node} (parent : Meets n begun ended m)
      (here : m.children = before ++ c :: after) :
      Meets n (begun ++ m :: before.flatMap depthFirst) (ended ++ before.flatMap endings) c

namespace Meets

variable {n m k : Node} {begun ended : List Node}

/-- What is met in a subtree is met in the tree. -/
lemma trans {begun' ended' : List Node} (hm : n.Meets begun ended m)
    (hk : m.Meets begun' ended' k) : n.Meets (begun ++ begun') (ended ++ ended') k := by
  induction hk with
  | root => rwa [List.append_nil, List.append_nil]
  | child _ here ih =>
      rw [← List.append_assoc, ← List.append_assoc]
      exact .child ih here

/-- The first child of a node is met right behind it. -/
lemma head {c : Node} {after : List Node} (h : n.Meets begun ended m)
    (here : m.children = c :: after) : n.Meets (begun ++ [m]) ended c := by
  have hchild : n.Meets _ _ c := .child h (here.trans (List.nil_append _).symm)
  rwa [List.flatMap_nil, List.flatMap_nil, List.append_nil] at hchild

/-- The nodes that have begun stand in depth-first order in front of the node. -/
lemma depthFirst_eq (h : n.Meets begun ended m) :
    ∃ behind, n.depthFirst = begun ++ m.depthFirst ++ behind := by
  induction h with
  | root => exact ⟨[], by simp⟩
  | @child _ _ before after m c _ here ih =>
      obtain ⟨behind, ih⟩ := ih
      refine ⟨after.flatMap depthFirst ++ behind, ?_⟩
      rw [ih, Node.depthFirst_eq m, here]
      simp

/-- A node stands behind as many nodes as have begun. -/
lemma getElem?_eq (h : n.Meets begun ended m) : n.depthFirst[begun.length]? = some m := by
  obtain ⟨behind, hsplit⟩ := h.depthFirst_eq
  rw [hsplit, List.append_assoc, List.getElem?_append_right (Nat.le_refl _), Nat.sub_self,
    Node.depthFirst_eq]
  rfl

/-- The nodes that have begun are those in front of a place. -/
lemma begun_eq (h : n.Meets begun ended m) : begun = n.depthFirst.take begun.length := by
  obtain ⟨behind, hsplit⟩ := h.depthFirst_eq
  rw [hsplit, List.append_assoc, List.take_left]

/-- The nodes that have ended are those that end in front of a place. -/
lemma ended_eq (h : n.Meets begun ended m) : ended = endedBefore begun.length [n] := by
  induction h with
  | root => simp
  | child parent here ih =>
      rw [List.length_append, List.length_cons, endedBefore_child n parent.getElem?_eq here, ← ih]

/-- What has ended is in the tree. -/
lemma mem_of_mem_ended (h : n.Meets begun ended m) {c : Node} (hc : c ∈ ended) :
    c ∈ n.depthFirst := by
  induction h with
  | root => cases hc
  | child parent here ih =>
      rcases List.mem_append.mp hc with hc | hc
      · exact ih hc
      · obtain ⟨b, hb, hc⟩ := List.mem_flatMap.mp hc
        obtain ⟨behind, hsplit⟩ := parent.depthFirst_eq
        rw [hsplit, Node.depthFirst_eq, here]
        have hmem := List.mem_flatMap.mpr ⟨b, hb, mem_endings.mp hc⟩
        simp [hmem]

/-- **A node that has begun** has ended, or the node that is met is inside it. -/
theorem encloses (h : n.Meets begun ended m) {q : Nat} {c : Node} (hc : begun[q]? = some c) :
    q + c.count ≤ begun.length ∨ begun.length + m.count ≤ q + c.count := by
  induction h with
  | root => simp at hc
  | @child begun _ before after m _ parent here ih =>
      have hcount := count_of_children here
      rw [List.length_append, List.length_cons]
      rcases Nat.lt_or_ge q begun.length with hq | hq
      · rw [List.getElem?_append_left hq] at hc
        rcases ih hc with hle | hle
        · exact .inl (by omega)
        · exact .inr (by omega)
      · rw [List.getElem?_append_right hq] at hc
        obtain ⟨r, rfl⟩ := Nat.exists_eq_add_of_le hq
        rw [Nat.add_sub_cancel_left] at hc
        cases r with
        | zero =>
            obtain rfl : m = c := by simpa using hc
            exact .inr (by omega)
        | succ r =>
            have hle := add_count_le_length (List.getElem?_cons_succ ▸ hc)
            exact .inl (by omega)

end Meets

/-- Every node of a tree is met. -/
theorem exists_meets {m : Node} (n : Node) : ∀ {i : Nat}, n.depthFirst[i]? = some m →
    ∃ begun ended, n.Meets begun ended m ∧ begun.length = i := by
  induction n using children_induction with
  | step n ih =>
      intro i h
      rw [depthFirst_eq] at h
      cases i with
      | zero =>
          obtain rfl : n = m := by simpa using h
          exact ⟨[], [], .root, rfl⟩
      | succ i =>
          rw [List.getElem?_cons_succ] at h
          obtain ⟨before, c, after, j, here, rfl, hm⟩ := exists_flatMap_split h
          obtain ⟨begun, ended, hmeets, rfl⟩ := ih c (here ▸ by simp) hm
          refine ⟨_, _, (Meets.child .root here).trans hmeets, ?_⟩
          simp

/-! ### The anchors that are known -/

/-- The anchors behind nodes that end one after another. -/
def anchorsOf (a : Anchors) (ended : List Node) : Anchors :=
  ended.foldl (fun a n => a.define n.info.anchor n.anchoredText?) a

/-- The anchors behind some nodes and further ones. -/
lemma anchorsOf_append (a : Anchors) (ns ms : List Node) :
    anchorsOf a (ns ++ ms) = anchorsOf (anchorsOf a ns) ms :=
  List.foldl_append

/-- Trees leave the anchors of their nodes behind, one tree after another. -/
lemma anchorsAfterAll_eq : ∀ {ns : List Node}, (∀ n ∈ ns, ∀ a, n.anchorsAfter a =
    anchorsOf a n.endings) → ∀ a, anchorsAfterAll a ns = anchorsOf a (ns.flatMap endings)
  | [], _, a => anchorsAfterAll_nil a
  | n :: ns, h, a => by
      obtain ⟨hn, hns⟩ := List.forall_mem_cons.mp h
      rw [anchorsAfterAll, anchorsAfterAll_eq hns, hn, List.flatMap_cons, anchorsOf_append]

/-- A tree leaves the anchors of its nodes behind, in the order in which these end. -/
lemma anchorsAfter_eq (n : Node) : ∀ a, n.anchorsAfter a = anchorsOf a n.endings := by
  induction n using children_induction with
  | step n ih =>
      intro a
      rw [anchorsAfter, anchorsAfterAll_eq ih, endings_eq, anchorsOf_append]
      rfl

/-- **The anchors that are known in front of a node** are those of the nodes that have ended. -/
theorem Meets.reaches {n m : Node} {begun ended : List Node} (h : n.Meets begun ended m)
    (a : Anchors) : Reaches a n (anchorsOf a ended) m := by
  induction h with
  | root => exact .root
  | @child begun ended before after m c parent here ih =>
      have hchild : m.children[before.length]? = some c := by simp [here]
      have htake : m.children.take before.length = before := by simp [here]
      have hreach := Reaches.child ih hchild
      rwa [htake, anchorsAfterAll_eq fun n _ => anchorsAfter_eq n, ← anchorsOf_append] at hreach

end Node

end YamlNavigator
