import YamlNavigator.Proofs.Document.Search

/-!
What a query finds, and which tokens it highlights.

* `Node.findFrom?_eq_some`, `Node.findFrom?_range`: the node that is found, and its number;
* `Node.pairwise_scopes`: the trees that a query looks through have separate numbers;
* `QueryResult.InStep`, `Matches.add`, `Node.query_eq`: what a printer is told, match by match;
* `Node.nodes_query`, `Matches.within`, `Node.within_query`: the matches of a query, and the one in
  each tree;
* `Matches.highlights_add`, `Node.highlights_query`: the highlighted tokens are those of the
  matches.
-/

namespace YamlNavigator

namespace Node

variable {n : Node} {first : Nat} {q : String} {f : Found}

/-- The node that is found is the first one at the place that a query names. -/
lemma findFrom?_eq_some {j : Nat} {m : Node} (hj : n.depthFirst[j]? = some m)
    (hm : m.sitsAt q = true)
    (hfirst : ∀ k < j, ∀ p, n.depthFirst[k]? = some p → p.sitsAt q = false) :
    n.findFrom? first q = some ⟨first + j, m⟩ := by
  obtain ⟨hlt, rfl⟩ := List.getElem?_eq_some_iff.mp hj
  rw [findFrom?_eq_find?, List.find?_eq_some_iff_getElem]
  refine ⟨hm, j, by simpa [numberedFrom] using hlt, by simp [numberedFrom], fun k hk => ?_⟩
  have hlt' : k < n.depthFirst.length := Nat.lt_trans hk hlt
  simpa [numberedFrom] using hfirst k hk n.depthFirst[k] (List.getElem?_eq_getElem hlt')

/-- The node that is found belongs to the tree, and so does its number. -/
lemma findFrom?_range (h : n.findFrom? first q = some f) :
    f.node ∈ n.depthFirst ∧ f.node.sitsAt q = true ∧ first ≤ f.number ∧
      f.number < first + n.count := by
  rw [findFrom?_eq_find?, List.find?_eq_some_iff_getElem] at h
  obtain ⟨hsits, i, hi, rfl, -⟩ := h
  have hlt : i < n.depthFirst.length := by simpa [numberedFrom] using hi
  simp only [numberedFrom, List.getElem_map, List.getElem_zipIdx]
  refine ⟨List.getElem_mem hlt, ?_, Nat.le_add_right _ _, ?_⟩
  · simpa [numberedFrom] using hsits
  · exact Nat.add_lt_add_left hlt first

/-! ### Trees that are looked through -/

/-- Documents that follow one another have separate numbers. -/
lemma pairwise_inRow : ∀ (ds : List Node) (first : Nat),
    (∀ s ∈ inRow first ds, first ≤ s.number) ∧
      (inRow first ds).Pairwise fun s t => s.number + s.node.count ≤ t.number
  | [], first => ⟨fun s hs => (by simp [inRow] at hs), List.Pairwise.nil⟩
  | d :: ds, first => by
      obtain ⟨hle, hpair⟩ := pairwise_inRow ds (first + d.count)
      rw [inRow]
      refine ⟨fun s hs => ?_, List.pairwise_cons.mpr ⟨hle, hpair⟩⟩
      rcases List.mem_cons.mp hs with rfl | hs
      · exact Nat.le_refl first
      · exact Nat.le_trans (Nat.le_add_right _ _) (hle s hs)

/-- The trees that a query looks through have separate numbers. -/
theorem pairwise_scopes (n : Node) :
    n.scopes.Pairwise fun s t => s.number + s.node.count ≤ t.number := by
  cases n with
  | documentSet i ds => exact (pairwise_inRow ds 1).2
  | _ => exact List.pairwise_singleton _ _

end Node

/-! ### What a printer is told -/

/-- Adds a match with its tokens to what a printer is told. A token that another match owns stays
with that one. -/
def Matches.add (m : Matches) (f : Found) : Matches :=
  f.node.tokens.foldl
    (fun m t =>
      if m.highlights t then m
      else { m with tokens := m.tokens ++ [t.index], owners := m.owners ++ [(t.index, f)] })
    { m with nodes := m.nodes ++ [f] }

namespace QueryResult

/-- The tokens and their owners are in step: they are kept under the same indices. -/
def InStep (r : QueryResult) : Prop := r.owners.map Prod.fst = r.tokens.map Prod.fst

/-- Before the first match there are no entries. -/
lemma inStep_start (q : String) : InStep { path := q } := rfl

/-- Entries that are in step have one, or have none, under every index. -/
lemma any_fst_eq {α β : Type} {xs : List (Int × α)} {ys : List (Int × β)}
    (h : ys.map Prod.fst = xs.map Prod.fst) (i : Int) :
    (ys.any fun y => y.1 == i) = xs.any fun x => x.1 == i := by
  have hkeys : ∀ {γ : Type} (zs : List (Int × γ)),
      (zs.any fun z => z.1 == i) = (zs.map Prod.fst).any (· == i) := by
    intro γ zs
    rw [List.any_map]
    rfl
  rw [hkeys, hkeys, h]

/-- A token is added under its index, together with its owner, unless the index is taken. -/
lemma toMatches_addToken {r : QueryResult} (h : r.InStep) (t : Token) (f : Found) :
    let r' : QueryResult :=
      { r with tokens := setDefault r.tokens t.index t, owners := setDefault r.owners t.index f }
    let m := r.toMatches
    r'.InStep ∧ r'.toMatches = if m.highlights t then m
      else { m with tokens := m.tokens ++ [t.index], owners := m.owners ++ [(t.index, f)] } := by
  have hhighlights : r.toMatches.highlights t = r.tokens.any fun e => e.1 == t.index := by
    rw [Matches.highlights, toMatches, List.contains_eq_any_beq, List.any_map]
    simp only [Function.comp_def, BEq.comm]
  dsimp only
  rw [hhighlights, InStep, setDefault, setDefault, any_fst_eq h]
  split
  · exact ⟨h, rfl⟩
  · refine ⟨?_, ?_⟩
    · rw [List.map_append, List.map_append, h]
      rfl
    · simp [toMatches]

/-- A match is added to the answer as it is to what a printer is told. -/
lemma toMatches_add {r : QueryResult} (h : r.InStep) (f : Found) :
    (r.add f).InStep ∧ (r.add f).toMatches = r.toMatches.add f := by
  have hfold : ∀ (ts : List Token) (r : QueryResult), r.InStep →
      let r' := ts.foldl (fun r t =>
        { r with
          tokens := setDefault r.tokens t.index t
          owners := setDefault r.owners t.index f }) r
      r'.InStep ∧ r'.toMatches = ts.foldl (fun m t => if m.highlights t then m
        else { m with tokens := m.tokens ++ [t.index], owners := m.owners ++ [(t.index, f)] })
          r.toMatches := by
    intro ts
    induction ts with
    | nil => exact fun r h => ⟨h, rfl⟩
    | cons t ts ih =>
        intro r h
        obtain ⟨hstep, hmatches⟩ := toMatches_addToken h t f
        rw [List.foldl_cons, List.foldl_cons, ← hmatches]
        exact ih _ hstep
  exact hfold f.node.tokens { r with nodes := r.nodes ++ [f] } h

/-- Matches are added to the answer as they are to what a printer is told. -/
lemma toMatches_foldl_add : ∀ (fs : List Found) {r : QueryResult}, r.InStep →
    (fs.foldl add r).InStep ∧ (fs.foldl add r).toMatches = fs.foldl Matches.add r.toMatches
  | [], r, h => ⟨h, rfl⟩
  | f :: fs, r, h => by
      obtain ⟨hstep, hmatches⟩ := toMatches_add h f
      rw [List.foldl_cons, List.foldl_cons, ← hmatches]
      exact toMatches_foldl_add fs hstep

end QueryResult

namespace Node

/-- The answer to a query holds what is found in the trees that it looks through. -/
theorem queryResult_eq (n : Node) (q : String) : n.queryResult q =
    (n.scopes.filterMap fun s => s.node.findFrom? s.number q).foldl QueryResult.add
      { path := q } := by
  rw [queryResult, List.foldl_filterMap]
  split
  · congr 1
    funext r s
    cases s.node.findFrom? s.number q <;> rfl
  · next hq =>
      -- no tree holds the place of a text that is no query
      have hnone : ∀ s : Found, s.node.findFrom? s.number q = none := fun s => by
        rw [findFrom?, if_neg hq]
      simp only [hnone]
      exact (List.foldl_fixed _).symm

/-- The tokens that a query answers and their owners are in step. -/
lemma inStep_queryResult (n : Node) (q : String) : (n.queryResult q).InStep := by
  rw [queryResult_eq]
  exact (QueryResult.toMatches_foldl_add _ (QueryResult.inStep_start q)).1

/-- A printer is told of one match after another. -/
theorem query_eq (n : Node) (q : String) : n.query q =
    (n.scopes.filterMap fun s => s.node.findFrom? s.number q).foldl Matches.add { path := q } := by
  rw [query, queryResult_eq,
    (QueryResult.toMatches_foldl_add _ (QueryResult.inStep_start q)).2]
  rfl

end Node

/-! ### Matches -/

namespace Matches

/-- Adding tokens of a match to the highlighted ones. -/
lemma foldl_add_tokens (f : Found) : ∀ (ts : List Token) (m : Matches),
    let m' := ts.foldl (fun m t => if m.highlights t then m
      else { m with tokens := m.tokens ++ [t.index], owners := m.owners ++ [(t.index, f)] }) m
    m'.nodes = m.nodes ∧ ∀ i, i ∈ m'.tokens ↔ i ∈ m.tokens ∨ ∃ t ∈ ts, t.index = i
  | [], m => by simp
  | t :: ts, m => by
      have ih := foldl_add_tokens f ts
      dsimp only at ih ⊢
      rw [List.foldl_cons]
      split
      · next h =>
          obtain ⟨hnodes, htokens⟩ := ih m
          refine ⟨hnodes, fun i => ?_⟩
          have ht : t.index ∈ m.tokens := by simpa [highlights] using h
          rw [htokens, List.exists_mem_cons_iff]
          constructor
          · rintro (hi | hi)
            · exact .inl hi
            · exact .inr (.inr hi)
          · rintro (hi | rfl | hi)
            · exact .inl hi
            · exact .inl ht
            · exact .inr hi
      · obtain ⟨hnodes, htokens⟩ :=
          ih { m with tokens := m.tokens ++ [t.index], owners := m.owners ++ [(t.index, f)] }
        refine ⟨hnodes, fun i => ?_⟩
        rw [htokens, List.exists_mem_cons_iff, List.mem_append, List.mem_singleton, or_assoc,
          eq_comm]

/-- A match is added behind the others. -/
lemma nodes_add (m : Matches) (f : Found) : (m.add f).nodes = m.nodes ++ [f] :=
  (foldl_add_tokens f f.node.tokens { m with nodes := m.nodes ++ [f] }).1

/-- The tokens of a match that is added are highlighted besides the others. -/
lemma highlights_add (m : Matches) (f : Found) (t : Token) :
    (m.add f).highlights t = true ↔
      m.highlights t = true ∨ ∃ u ∈ f.node.tokens, u.index = t.index := by
  have h := (foldl_add_tokens f f.node.tokens { m with nodes := m.nodes ++ [f] }).2 t.index
  simpa [highlights, add] using h

/-- Matches are added one behind another, and their tokens are highlighted. -/
lemma foldl_add : ∀ (fs : List Found) (m : Matches),
    (fs.foldl add m).nodes = m.nodes ++ fs ∧ ∀ t, (fs.foldl add m).highlights t = true ↔
      m.highlights t = true ∨ ∃ f ∈ fs, ∃ u ∈ f.node.tokens, u.index = t.index
  | [], m => by simp
  | f :: fs, m => by
      obtain ⟨hnodes, htokens⟩ := foldl_add fs (m.add f)
      rw [List.foldl_cons]
      refine ⟨?_, fun t => ?_⟩
      · rw [hnodes, nodes_add, List.append_assoc, List.singleton_append]
      · rw [htokens, highlights_add, or_assoc, List.exists_mem_cons_iff]

/-- The matches in one of the trees that a query looks through. -/
def within (m : Matches) (scope : Found) : List Found :=
  m.nodes.filter fun f => scope.number ≤ f.number && f.number < scope.number + scope.node.count

end Matches

namespace Node

/-- The matches of a query are the nodes found in the trees that it looks through. -/
theorem nodes_query (n : Node) (q : String) :
    (n.query q).nodes = n.scopes.filterMap fun s => s.node.findFrom? s.number q := by
  rw [query_eq, (Matches.foldl_add _ _).1]
  rfl

/-- The highlighted tokens are those of the matches. -/
theorem highlights_query (n : Node) (q : String) (t : Token) :
    (n.query q).highlights t = true ↔
      ∃ f ∈ (n.query q).nodes, ∃ u ∈ f.node.tokens, u.index = t.index := by
  rw [nodes_query, query_eq, (Matches.foldl_add _ _).2]
  simp [Matches.highlights]

/-- In each tree that a query looks through, its match is the node found there. -/
theorem within_query {n : Node} (q : String) {scope : Found} (hscope : scope ∈ n.scopes) :
    (n.query q).within scope = (scope.node.findFrom? scope.number q).toList := by
  obtain ⟨front, back, hsplit⟩ := List.append_of_mem hscope
  have hpair := n.pairwise_scopes
  rw [hsplit, List.pairwise_append, List.pairwise_cons] at hpair
  obtain ⟨-, ⟨hback, -⟩, hfront⟩ := hpair
  -- what is found in the trees before and behind has other numbers
  have hout : ∀ ss : List Found, (∀ s ∈ ss, s.number + s.node.count ≤ scope.number ∨
      scope.number + scope.node.count ≤ s.number) →
      (ss.filterMap fun s => s.node.findFrom? s.number q).filter (fun f =>
        scope.number ≤ f.number && f.number < scope.number + scope.node.count) = [] := by
    intro ss hss
    refine List.filter_eq_nil_iff.mpr fun f hf => ?_
    obtain ⟨s, hs, hfind⟩ := List.mem_filterMap.mp hf
    obtain ⟨-, -, hlo, hhi⟩ := findFrom?_range hfind
    have := hss s hs
    simp only [Bool.and_eq_true, decide_eq_true_eq, not_and]
    omega
  rw [Matches.within, nodes_query, hsplit, List.filterMap_append, List.filter_append,
    hout front fun s hs => .inl (hfront s hs scope List.mem_cons_self), List.nil_append,
    List.filterMap_cons]
  have hrest := hout back fun s hs => .inr (hback s hs)
  cases hfind : scope.node.findFrom? scope.number q with
  | none => exact hrest
  | some f =>
      obtain ⟨-, -, hlo, hhi⟩ := findFrom?_range hfind
      simp only [Option.toList_some]
      rw [List.filter_cons_of_pos (by simp [hlo, hhi]), hrest]

end Node

end YamlNavigator
