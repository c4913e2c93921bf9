import YamlNavigator.Proofs.Document.Ending

/-!
The last node with an anchor, among those that have begun and among those that have ended.

* `Node.lastCarrier?`, `Node.Latest`: the last node of a list that carries an anchor, and its place;
* `Node.lookup_anchorsOf`: the text that is known for an anchor is that of the node that ended last;
* `Node.Wrapped`, `Node.Settled`: a node inside another one with the same anchor, and how the node
  that began last compares with the one that ended last when all nodes have ended;
* `Node.settled_flatMap`, `Node.Meets.stands`: the same in front of a node of a tree, where the node
  that began last can still be open.
-/

namespace YamlNavigator

namespace Node

/-! ### The last node with an anchor -/

/-- The last node of a list that carries an anchor. -/
def lastCarrier? (name : String) (ns : List Node) : Option Node :=
  ns.reverse.find? (·.info.anchor == some name)

/-- The last node of a list that carries an anchor, with its place in the list. -/
structure Latest (name : String) (ns : List Node) (p : Nat) (d : Node) : Prop where
  here : ns[p]? = some d
  carries : d.info.anchor = some name
  last : ∀ q c, ns[q]? = some c → c.info.anchor = some name → q ≤ p

variable {name : String} {ns as bs : List Node} {p : Nat} {d : Node}

/-- The last node of two lists is in the second one if there is one. -/
lemma lastCarrier?_append (name : String) (as bs : List Node) :
    lastCarrier? name (as ++ bs) = (lastCarrier? name bs).or (lastCarrier? name as) := by
  rw [lastCarrier?, List.reverse_append, List.find?_append]
  rfl

/-- There is no last node if and only if no node carries the anchor. -/
lemma lastCarrier?_eq_none_iff :
    lastCarrier? name ns = none ↔ ∀ c ∈ ns, c.info.anchor ≠ some name := by
  simp [lastCarrier?, List.find?_eq_none]

/-- A node with the anchor is the last one of a list of its own. -/
lemma lastCarrier?_singleton (h : d.info.anchor = some name) : lastCarrier? name [d] = some d := by
  simp [lastCarrier?, h]

/-- The last node with an anchor is in the list and carries it. -/
lemma mem_of_lastCarrier? (h : lastCarrier? name ns = some d) :
    d ∈ ns ∧ d.info.anchor = some name :=
  ⟨List.mem_reverse.mp (List.mem_of_find?_eq_some h), by simpa using List.find?_some h⟩

/-- What is known for an anchor is the text of the last node that carries it. -/
lemma lookup_anchorsOf (name : String) (a : Anchors) (ns : List Node) :
    (anchorsOf a ns).lookup name =
      ((lastCarrier? name ns).map anchoredText?).or (a.lookup name) := by
  induction ns generalizing a with
  | nil => rfl
  | cons n ns ih =>
      have hdefine : (a.define n.info.anchor n.anchoredText?).lookup name =
          ((lastCarrier? name [n]).map anchoredText?).or (a.lookup name) := by
        rw [lastCarrier?, List.reverse_singleton, List.find?_singleton]
        cases hanchor : n.info.anchor with
        | none => rfl
        | some anchor =>
            rw [Anchors.define, List.lookup_cons]
            by_cases heq : anchor = name
            · simp [heq]
            · have hne : (name == anchor) = false := beq_eq_false_iff_ne.mpr (Ne.symm heq)
              simp [heq, hne]
      have hcons : anchorsOf a (n :: ns) =
          anchorsOf (a.define n.info.anchor n.anchoredText?) ns := rfl
      have hlast : lastCarrier? name (n :: ns) =
          (lastCarrier? name ns).or (lastCarrier? name [n]) := lastCarrier?_append name [n] ns
      rw [hcons, ih, hdefine, hlast]
      cases lastCarrier? name ns <;> rfl

namespace Latest

/-- A node with the anchor is the last one of a list of its own. -/
lemma singleton (h : d.info.anchor = some name) : Latest name [d] 0 d where
  here := rfl
  carries := h
  last q c hq _ := by
    have hlt := (List.getElem?_eq_some_iff.mp hq).1
    rw [List.length_singleton] at hlt
    omega

/-- The last node with an anchor, found from the end. -/
lemma lastCarrier?_eq (h : Latest name ns p d) : lastCarrier? name ns = some d := by
  obtain ⟨hlt, hd⟩ := List.getElem?_eq_some_iff.mp h.here
  have hbehind : lastCarrier? name (ns.drop (p + 1)) = none := by
    refine lastCarrier?_eq_none_iff.mpr fun c hc hcarries => ?_
    obtain ⟨q, hq⟩ := List.mem_iff_getElem?.mp hc
    rw [List.getElem?_drop] at hq
    have := h.last _ c hq hcarries
    omega
  rw [← List.take_append_drop p ns, List.drop_eq_getElem_cons hlt, hd, ← List.singleton_append,
    lastCarrier?_append, lastCarrier?_append, hbehind, lastCarrier?_singleton h.carries]
  rfl

/-- There is one last node. -/
lemma unique {q : Nat} {c : Node} (h : Latest name ns p d) (h' : Latest name ns q c) :
    p = q ∧ d = c := by
  obtain rfl := Nat.le_antisymm (h'.last p d h.here h.carries) (h.last q c h'.here h'.carries)
  exact ⟨rfl, Option.some.inj (h.here.symm.trans h'.here)⟩

/-- The last node stays the last one behind other nodes. -/
lemma behind (h : Latest name bs p d) (as : List Node) :
    Latest name (as ++ bs) (as.length + p) d where
  here := by
    rw [List.getElem?_append_right (Nat.le_add_right _ _), Nat.add_sub_cancel_left, h.here]
  carries := h.carries
  last q c hq hc := by
    rcases Nat.lt_or_ge q as.length with hlt | hle
    · omega
    · rw [List.getElem?_append_right hle] at hq
      have := h.last _ c hq hc
      omega

/-- The last node stays the last one in front of nodes that do not carry the anchor. -/
lemma extend (h : Latest name as p d) (hbs : lastCarrier? name bs = none) :
    Latest name (as ++ bs) p d where
  here := by rw [List.getElem?_append_left (List.getElem?_eq_some_iff.mp h.here).1, h.here]
  carries := h.carries
  last q c hq hc := by
    rcases Nat.lt_or_ge q as.length with hlt | hle
    · rw [List.getElem?_append_left hlt] at hq
      exact h.last q c hq hc
    · rw [List.getElem?_append_right hle] at hq
      exact absurd hc (lastCarrier?_eq_none_iff.mp hbs c (List.mem_of_getElem? hq))

end Latest

/-! ### Nodes with the same anchor inside one another -/

/-- The node at a place is inside another one with the anchor that has ended. -/
def Wrapped (name : String) (begun : List Node) (p : Nat) : Prop :=
  ∃ q c, begun[q]? = some c ∧ c.info.anchor = some name ∧ q < p ∧ p < q + c.count ∧
    q + c.count ≤ begun.length

/-- How the last of the nodes that have begun compares with the last of those that have ended: they
are the same, or the first one has ended inside another one with the anchor, and then the second
one is a node with others below it. -/
inductive Settled (name : String) (begun ended : List Node) : Prop
  | absent (none_begun : lastCarrier? name begun = none)
      (none_ended : lastCarrier? name ended = none)
  | same {p : Nat} {d : Node} (latest : Latest name begun p d) (stops : p + d.count ≤ begun.length)
      (last : lastCarrier? name ended = some d) (apart : ¬ Wrapped name begun p)
  | wrapped {p : Nat} {d e : Node} (latest : Latest name begun p d)
      (stops : p + d.count ≤ begun.length) (last : lastCarrier? name ended = some e)
      (below : e.children ≠ []) (inside : Wrapped name begun p)

/-- Of some nodes, those that carry an anchor have ended, or stay open for `k` nodes. -/
def EndOrOutlast (name : String) (ns : List Node) (k : Nat) : Prop :=
  ∀ q c, ns[q]? = some c → c.info.anchor = some name → q + c.count ≤ ns.length ∨ k < q + c.count

/-- Further nodes do not end those that are open. -/
lemma wrapped_append_iff (hlt : p < as.length) (h : EndOrOutlast name as (as ++ bs).length) :
    Wrapped name (as ++ bs) p ↔ Wrapped name as p := by
  constructor
  · rintro ⟨q, c, hq, hc, hqp, hpq, hle⟩
    rw [List.getElem?_append_left (by omega)] at hq
    rcases h q c hq hc with h | h
    · exact ⟨q, c, hq, hc, hqp, hpq, h⟩
    · omega
  · rintro ⟨q, c, hq, hc, hqp, hpq, hle⟩
    refine ⟨q, c, ?_, hc, hqp, hpq, ?_⟩
    · rw [List.getElem?_append_left (by omega), hq]
    · rw [List.length_append]
      omega

/-- Behind other nodes a node is inside the same ones. -/
lemma wrapped_behind_iff (h : EndOrOutlast name as (as ++ bs).length) :
    Wrapped name (as ++ bs) (as.length + p) ↔ Wrapped name bs p := by
  constructor
  · rintro ⟨q, c, hq, hc, hqp, hpq, hle⟩
    rcases Nat.lt_or_ge q as.length with hlt | hge
    · rw [List.getElem?_append_left hlt] at hq
      rcases h q c hq hc with h | h <;> omega
    · obtain ⟨r, rfl⟩ := Nat.exists_eq_add_of_le hge
      rw [List.getElem?_append_right hge, Nat.add_sub_cancel_left] at hq
      rw [List.length_append] at hle
      exact ⟨r, c, hq, hc, by omega, by omega, by omega⟩
  · rintro ⟨q, c, hq, hc, hqp, hpq, hle⟩
    refine ⟨as.length + q, c, ?_, hc, by omega, by omega, ?_⟩
    · rw [List.getElem?_append_right (Nat.le_add_right _ _), Nat.add_sub_cancel_left, hq]
    · rw [List.length_append]
      omega

namespace Settled

variable {begun ended as' bs' : List Node}

/-- Nodes that have ended without the anchor change nothing. -/
lemma congr {ended' : List Node} (h : Settled name begun ended)
    (hlast : lastCarrier? name ended' = lastCarrier? name ended) : Settled name begun ended' := by
  cases h with
  | absent hbegun hended => exact .absent hbegun (hlast.trans hended)
  | same latest stops last apart => exact .same latest stops (hlast.trans last) apart
  | wrapped latest stops last below inside =>
      exact .wrapped latest stops (hlast.trans last) below inside

/-- Nodes with the anchor stand behind others as they stand alone. -/
lemma behind (h : Settled name bs bs') (hne : lastCarrier? name bs ≠ none)
    (has : EndOrOutlast name as (as ++ bs).length) : Settled name (as ++ bs) (as' ++ bs') := by
  have hlast : ∀ {e}, lastCarrier? name bs' = some e →
      lastCarrier? name (as' ++ bs') = some e := fun he => by
    rw [lastCarrier?_append, he]
    rfl
  cases h with
  | absent hbegun => exact absurd hbegun hne
  | same latest stops last apart =>
      refine .same (latest.behind as) ?_ (hlast last) (mt (wrapped_behind_iff has).mp apart)
      rw [List.length_append]
      omega
  | wrapped latest stops last below inside =>
      refine .wrapped (latest.behind as) ?_ (hlast last) below ((wrapped_behind_iff has).mpr inside)
      rw [List.length_append]
      omega

/-- Nodes stand in front of others without the anchor as they stand alone. -/
lemma extend (h : Settled name as as') (hbs : lastCarrier? name bs = none)
    (hbs' : lastCarrier? name bs' = none) (has : EndOrOutlast name as (as ++ bs).length) :
    Settled name (as ++ bs) (as' ++ bs') := by
  have hlast : lastCarrier? name (as' ++ bs') = lastCarrier? name as' := by
    rw [lastCarrier?_append, hbs']
    rfl
  refine congr ?_ hlast
  cases h with
  | absent hbegun hended =>
      refine .absent ?_ hended
      rw [lastCarrier?_append, hbs, hbegun]
      rfl
  | same latest stops last apart =>
      have hlt := (List.getElem?_eq_some_iff.mp latest.here).1
      refine .same (latest.extend hbs) ?_ last (mt (wrapped_append_iff hlt has).mp apart)
      rw [List.length_append]
      omega
  | wrapped latest stops last below inside =>
      have hlt := (List.getElem?_eq_some_iff.mp latest.here).1
      refine .wrapped (latest.extend hbs) ?_ last below ((wrapped_append_iff hlt has).mpr inside)
      rw [List.length_append]
      omega

/-- Where no node that has begun carries the anchor, none that has ended does. -/
lemma none_of_none (h : Settled name begun ended) (hbegun : lastCarrier? name begun = none) :
    lastCarrier? name ended = none := by
  cases h with
  | absent _ hended => exact hended
  | same latest => exact absurd (latest.lastCarrier?_eq.symm.trans hbegun) (by simp)
  | wrapped latest => exact absurd (latest.lastCarrier?_eq.symm.trans hbegun) (by simp)

/-- Nodes that are settled, behind others that are. -/
lemma append (h : Settled name as as') (h' : Settled name bs bs')
    (has : EndOrOutlast name as (as ++ bs).length) : Settled name (as ++ bs) (as' ++ bs') := by
  by_cases hbs : lastCarrier? name bs = none
  · exact h.extend hbs (h'.none_of_none hbs) has
  · exact h'.behind hbs has

end Settled

/-- Trees that follow one another are settled if each of them is. -/
lemma settled_flatMap : ∀ {ns : List Node}, (∀ n ∈ ns, Settled name n.depthFirst n.endings) →
    Settled name (ns.flatMap depthFirst) (ns.flatMap endings)
  | [], _ => .absent rfl rfl
  | n :: ns, h => by
      obtain ⟨hn, hns⟩ := List.forall_mem_cons.mp h
      exact hn.append (settled_flatMap hns) fun q c hq _ => .inl (add_count_le hq)

/-- **A tree is settled**: the node with an anchor that begins last is the one that ends last, or it
is inside another one with the anchor. -/
theorem settled (name : String) (n : Node) : Settled name n.depthFirst n.endings := by
  induction n using children_induction with
  | step n ih =>
      have hbelow := settled_flatMap ih
      rw [depthFirst_eq, endings_eq, ← List.singleton_append]
      by_cases hn : n.info.anchor = some name
      · have hlast : lastCarrier? name (n.children.flatMap endings ++ [n]) = some n := by
          rw [lastCarrier?_append, lastCarrier?_singleton hn]
          rfl
        have hcount : n.count = ([n] ++ n.children.flatMap depthFirst).length := by
          rw [count, depthFirst_eq, List.singleton_append]
        have hwrapped : ∀ {p d}, Latest name (n.children.flatMap depthFirst) p d →
            p + d.count ≤ (n.children.flatMap depthFirst).length →
              Settled name ([n] ++ n.children.flatMap depthFirst)
                (n.children.flatMap endings ++ [n]) := by
          intro p d hlatest hstops
          have hlt := (List.getElem?_eq_some_iff.mp hlatest.here).1
          refine .wrapped (hlatest.behind [n]) ?_ hlast ?_ ⟨0, n, rfl, hn, ?_, ?_, ?_⟩
          · rw [List.length_append]
            omega
          · rintro hnil
            rw [hnil] at hlt
            simp at hlt
          · rw [List.length_singleton]
            omega
          · rw [count_eq, List.length_singleton]
            omega
          · omega
        cases hbelow with
        | absent hbegun hended =>
            refine .same ((Latest.singleton hn).extend hbegun) (by omega) hlast ?_
            rintro ⟨q, c, -, -, hq, -⟩
            omega
        | same latest stops => exact hwrapped latest stops
        | wrapped latest stops => exact hwrapped latest stops
      · have hnone : lastCarrier? name [n] = none := by
          rw [lastCarrier?_eq_none_iff]
          simpa using hn
        have hroot : Settled name [n] [] := .absent hnone rfl
        refine (hroot.append hbelow fun q c hq hc => ?_).congr ?_
        · exact absurd hc (lastCarrier?_eq_none_iff.mp hnone c (List.mem_of_getElem? hq))
        · rw [lastCarrier?_append, hnone]
          rfl

/-! ### In front of a node -/

/-- In front of a node of a tree, what has begun is settled, or the last node with the anchor has
not ended. -/
inductive Stands (name : String) (begun ended : List Node) : Prop
  | settled (h : Settled name begun ended)
  | around {p : Nat} {d : Node} (latest : Latest name begun p d)
      (goes_on : begun.length < p + d.count)

/-- Where a node is met, the nodes that have begun have ended, or go on behind it. -/
lemma Meets.endOrOutlast {n m : Node} {begun ended : List Node} (h : n.Meets begun ended m)
    {k : Nat} (hk : k < begun.length + m.count) : EndOrOutlast name begun k := by
  intro q c hq _
  rcases h.encloses hq with hle | hle
  · exact .inl hle
  · exact .inr (by omega)

/-- Below a node that is met, the nodes that have begun have ended, or go on further. -/
lemma Meets.endOrOutlast_below {n m : Node} {begun ended : List Node} (h : n.Meets begun ended m)
    {k : Nat} (hk : k < begun.length + m.count) : EndOrOutlast name (begun ++ [m]) k := by
  intro q c hq hc
  rcases Nat.lt_or_ge q begun.length with hlt | hge
  · rw [List.getElem?_append_left hlt] at hq
    refine (h.endOrOutlast hk q c hq hc).imp_left fun hle => ?_
    rw [List.length_append]
    omega
  · obtain rfl : q = begun.length := by
      have := (List.getElem?_eq_some_iff.mp hq).1
      rw [List.length_append, List.length_singleton] at this
      omega
    obtain rfl : m = c := by simpa using hq
    exact .inr hk

/-- **The nodes with an anchor in front of a node** are settled, or the last of them is open. -/
theorem Meets.stands {n m : Node} {begun ended : List Node} (h : n.Meets begun ended m) :
    Stands name begun ended := by
  induction h with
  | root => exact .settled (.absent rfl rfl)
  | @child begun ended before after m c parent here ih =>
      have hcount := count_of_children here
      have hpos : 0 < c.count := by rw [count_eq]; omega
      have hbelow : Settled name (before.flatMap depthFirst) (before.flatMap endings) :=
        settled_flatMap fun n _ => settled name n
      have hinside : (begun ++ m :: before.flatMap depthFirst).length < begun.length + m.count := by
        rw [List.length_append, List.length_cons]
        omega
      by_cases hnone : lastCarrier? name (before.flatMap depthFirst) = none
      · by_cases hm : m.info.anchor = some name
        · -- the node above begins last, and it is open
          exact .around (((Latest.singleton hm).extend hnone).behind begun) hinside
        · -- nothing new carries the anchor
          have hnone' : lastCarrier? name (m :: before.flatMap depthFirst) = none := by
            rw [lastCarrier?_eq_none_iff] at hnone ⊢
            exact List.forall_mem_cons.mpr ⟨hm, hnone⟩
          have hopen : EndOrOutlast name begun (begun ++ m :: before.flatMap depthFirst).length :=
            parent.endOrOutlast hinside
          cases ih with
          | settled h => exact .settled (h.extend hnone' (hbelow.none_of_none hnone) hopen)
          | around latest goes_on =>
              have hle := (hopen _ _ latest.here latest.carries).resolve_left (by omega)
              exact .around (latest.extend hnone') hle
      · -- the children in front of the node stand behind what was there before
        have hsplit : begun ++ m :: before.flatMap depthFirst =
            begun ++ [m] ++ before.flatMap depthFirst := by simp
        rw [hsplit] at hinside ⊢
        exact .settled (hbelow.behind hnone (parent.endOrOutlast_below hinside))

end Node

end YamlNavigator
