import Mathlib.Data.List.Basic
import YamlNavigator.Document.Query

/-!
The two recursions of a query, over the nodes of the tree in depth-first order.

* `Node.numberedFrom_eq`: the nodes of a tree with their numbers, from those of its children;
* `Node.search_eq`, `Node.findFrom?_eq_find?`: the search finds the first node at its place;
* `Node.ownTokens`, `Node.collect_eq`, `Node.tokens_eq_foldl`: the tokens that are collected are
  those that the nodes own, added one by one.

Both recursions go from a node to its children. They are compared with the list of all nodes once,
here, and the list is what is reasoned about elsewhere.
-/

namespace YamlNavigator.Node

/-! ### The search -/

/-- The nodes of trees that follow one another have the numbers of the row. -/
lemma map_zipIdx_flatMap_depthFirst (cs : List Node) (first : Nat) :
    ((cs.flatMap depthFirst).zipIdx first).map (fun p => (⟨p.2, p.1⟩ : Found)) =
      (inRow first cs).flatMap fun c => c.node.numberedFrom c.number := by
  induction cs generalizing first with
  | nil => rfl
  | cons c cs ih =>
      rw [List.flatMap_cons, List.zipIdx_append, List.map_append, inRow, List.flatMap_cons, ← ih,
        numberedFrom, count]

/-- The nodes of a tree with their numbers: the node itself, then the trees of its children. -/
lemma numberedFrom_eq (first : Nat) (n : Node) : n.numberedFrom first = ⟨first, n⟩ ::
    (inRow (first + 1) n.children).flatMap fun c => c.node.numberedFrom c.number := by
  rw [numberedFrom, depthFirst_eq, List.zipIdx_cons, List.map_cons, map_zipIdx_flatMap_depthFirst]

/-- The search looks at a node before it looks below its children, and below these one after
another; it ends with the first node that sits at the place. -/
theorem search_eq (q : String) (first : Nat) (n : Node) :
    n.search q first =
      if n.sitsAt q then some ⟨first, n⟩
      else (inRow (first + 1) n.children).findSome? fun c => c.node.search q c.number := by
  rw [search]
  conv => rhs; rw [← List.attach_map_subtype_val (inRow (first + 1) n.children), List.findSome?_map]
  rfl

/-- The search finds what comes first among the nodes in depth-first order. -/
theorem search_eq_find? (q : String) (n : Node) : ∀ first, n.search q first =
    (n.numberedFrom first).find? fun f => f.node.sitsAt q := by
  induction n using children_induction with
  | step n ih =>
      intro first
      rw [search_eq, numberedFrom_eq, List.find?_cons]
      cases n.sitsAt q with
      | true => rfl
      | false =>
          simp only [Bool.false_eq_true, ↓reduceIte, List.find?_flatMap]
          rw [← List.head?_filterMap, ← List.head?_filterMap]
          refine congrArg List.head? (List.filterMap_congr fun c hc => ?_)
          exact ih c.node (mem_of_mem_inRow hc) c.number

/-- A query that is one finds what comes first among the nodes in depth-first order; any other text
names the place of no node. -/
theorem findFrom?_eq_find? (first : Nat) (n : Node) (q : String) :
    n.findFrom? first q = (n.numberedFrom first).find? fun f => f.node.sitsAt q := by
  rw [findFrom?]
  split
  · exact search_eq_find? q n first
  · next hq =>
      refine (List.find?_eq_none.mpr fun f _ => ?_).symm
      simp [sitsAt, hq]

/-! ### Tokens -/

/-- The tokens that a node itself owns: those of its properties, then the one that defines it. -/
def ownTokens (n : Node) : List Token := n.info.properties ++ n.token.toList

/-- The tokens of a node are added before those of its children, and these one after another. -/
theorem collect_eq (ts : List Token) (n : Node) :
    n.collect ts = n.children.foldl collect (n.ownTokens.foldl addToken ts) := by
  have hown : n.ownTokens.foldl addToken ts =
      n.token.elim (n.info.properties.foldl addToken ts)
        (addToken (n.info.properties.foldl addToken ts)) := by
    rw [ownTokens, List.foldl_append]
    cases n.token <;> rfl
  rw [collect, hown]
  conv => rhs; rw [← List.attach_map_subtype_val n.children, List.foldl_map]

/-- The tokens of a tree are added node by node. -/
theorem collect_eq_foldl (n : Node) : ∀ ts : List Token,
    n.collect ts = (n.depthFirst.flatMap ownTokens).foldl addToken ts := by
  induction n using children_induction with
  | step n ih =>
      intro ts
      rw [collect_eq, depthFirst_eq, List.flatMap_cons, List.foldl_append]
      generalize n.ownTokens.foldl addToken ts = ts
      -- over the children that are left, from any tokens that have been collected
      generalize n.children = cs at ih
      induction cs generalizing ts with
      | nil => rfl
      | cons c cs ihcs =>
          rw [List.foldl_cons, ih c List.mem_cons_self,
            ihcs _ fun c hc => ih c (List.mem_cons_of_mem _ hc), List.flatMap_cons,
            List.flatMap_append, List.foldl_append]

/-- The tokens of a tree are those that its nodes own, added one by one. -/
theorem tokens_eq_foldl (n : Node) :
    n.tokens = (n.depthFirst.flatMap ownTokens).foldl addToken [] :=
  collect_eq_foldl n []

end YamlNavigator.Node
