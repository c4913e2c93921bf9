import YamlNavigator.Proofs.Document.Matches

/-!
What the answer to a query consists of, for every tree and every text.

* `map_eraseDupsBy`, `lookup_eraseDupsBy`: lists in which the first item of each key is kept;
* `Node.exists_depthFirst_split`: a node of a tree stands in front of its own tree, so that the
  number of a match tells its place (`Node.getElem?_of_mem_scopes`);
* `Node.exists_of_findFrom?_eq_some`, `Node.findFrom?_eq_none_iff`: what the search finds;
* `Node.tokens_eq`: the tokens of a node;
* `QueryResult.claims`, `QueryResult.foldl_add`: the tokens of matches, and their owners;
* `Node.tokens_queryResult`, `Node.owners_query`, `Node.tokens_query`: the tokens of all matches,
  and their owners;
* `query_aggregates`: the matches of a query, their tokens and the owners of these.
-/

namespace YamlNavigator

/-! ### First occurrences -/

section FirstOccurrences

variable {α β κ : Type}

/-- The first item of each key may be kept before or after the items are mapped. -/
lemma map_eraseDupsBy (g : α → β) (r : β → β → Bool) : ∀ xs : List α,
    (xs.eraseDupsBy fun x y => r (g x) (g y)).map g = (xs.map g).eraseDupsBy r
  | [] => by simp
  | x :: xs => by
      have hkeys : (xs.map g).filter (fun b => decide (r b (g x) = false)) =
          (xs.filter fun y => decide (r (g y) (g x) = false)).map g := by
        rw [List.filter_map]
        rfl
      rw [List.eraseDupsBy_cons, List.map_cons, List.map_cons, List.eraseDupsBy_cons, hkeys,
        ← map_eraseDupsBy g r (xs.filter fun y => decide (r (g y) (g x) = false))]
  termination_by xs => xs.length
  decreasing_by exact Nat.lt_succ_of_le (List.length_filter_le _ _)

variable [BEq κ] [LawfulBEq κ]

/-- Items may be selected by their keys before or after the first of each key is kept. -/
lemma filter_eraseDupsBy (key : α → κ) (p : κ → Bool) : ∀ xs : List α,
    (xs.eraseDupsBy fun x y => key x == key y).filter (fun x => p (key x)) =
      (xs.filter fun x => p (key x)).eraseDupsBy fun x y => key x == key y
  | [] => by simp
  | x :: xs => by
      have ih := filter_eraseDupsBy key p (xs.filter fun y => decide ((key y == key x) = false))
      rw [List.eraseDupsBy_cons]
      cases hp : p (key x) with
      | true =>
          simp only [List.filter_cons, hp, ↓reduceIte]
          rw [List.eraseDupsBy_cons, ih, List.filter_filter, List.filter_filter]
          simp only [Bool.and_comm]
      | false =>
          -- a selected item has another key than `x`
          have hne : ∀ y ∈ xs.filter fun x => p (key x), decide ((key y == key x) = false) := by
            intro y hy
            have hy := (List.mem_filter.mp hy).2
            simp only [decide_eq_true_eq, beq_eq_false_iff_ne]
            intro h
            rw [h, hp] at hy
            cases hy
          have hself := List.filter_eq_self.mpr hne
          simp only [List.filter_cons, hp, Bool.false_eq_true, ↓reduceIte]
          rw [ih, List.filter_filter]
          rw [List.filter_filter] at hself
          simp only [Bool.and_comm] at hself ⊢
          rw [hself]
  termination_by xs => xs.length
  decreasing_by exact Nat.lt_succ_of_le (List.length_filter_le _ _)

/-- Keeping the first item of each key again changes nothing. -/
lemma eraseDupsBy_eraseDupsBy (key : α → κ) : ∀ xs : List α,
    (xs.eraseDupsBy fun x y => key x == key y).eraseDupsBy (fun x y => key x == key y) =
      xs.eraseDupsBy fun x y => key x == key y
  | [] => by simp
  | x :: xs => by
      have ih := eraseDupsBy_eraseDupsBy key (xs.filter fun y => decide ((key y == key x) = false))
      have hout := filter_eraseDupsBy key (fun k => decide ((k == key x) = false))
        (xs.filter fun y => decide ((key y == key x) = false))
      rw [List.filter_filter] at hout
      simp only [Bool.and_self] at hout
      rw [List.eraseDupsBy_cons, List.eraseDupsBy_cons, hout, ih]
  termination_by xs => xs.length
  decreasing_by exact Nat.lt_succ_of_le (List.length_filter_le _ _)

/-- The first pair of a key is kept. -/
lemma lookup_eraseDupsBy (k : κ) : ∀ ps : List (κ × β),
    (ps.eraseDupsBy fun p r => p.1 == r.1).lookup k = ps.lookup k
  | [] => by simp
  | (a, b) :: ps => by
      rw [List.eraseDupsBy_cons, List.lookup_cons, List.lookup_cons]
      cases hk : k == a with
      | true => rfl
      | false =>
          have ih := lookup_eraseDupsBy k (ps.filter fun p => decide ((p.1 == a) = false))
          simp only [ih]
          -- the pairs that are dropped have another key
          clear ih
          induction ps with
          | nil => rfl
          | cons p ps ih =>
              by_cases hp : p.1 = a
              · rw [List.filter_cons_of_neg (by simp [hp]), ih, List.lookup_cons, hp, hk]
              · rw [List.filter_cons_of_pos (by simpa using hp), List.lookup_cons,
                  List.lookup_cons, ih]
  termination_by ps => ps.length
  decreasing_by exact Nat.lt_succ_of_le (List.length_filter_le _ _)

/-- Adding items one by one unless their key is there keeps the first of each key. -/
lemma foldl_eq_eraseDupsBy (key : α → κ) (add : List α → α → List α)
    (hadd : ∀ ys x, add ys x = if ys.any fun y => key y == key x then ys else ys ++ [x]) :
    ∀ xs ys : List α, xs.foldl add ys =
      ys ++ (xs.filter fun x => !ys.any fun y => key y == key x).eraseDupsBy
        fun x y => key x == key y
  | [], ys => by simp
  | x :: xs, ys => by
      rw [List.foldl_cons, foldl_eq_eraseDupsBy key add hadd xs, hadd]
      cases hany : ys.any fun y => key y == key x with
      | true => rw [if_pos rfl, List.filter_cons_of_neg (by simp [hany])]
      | false =>
          rw [if_neg (by simp), List.filter_cons_of_pos (by simp [hany]), List.eraseDupsBy_cons,
            List.filter_filter, List.append_assoc, List.singleton_append]
          congr 4
          funext y
          rw [List.any_append, Bool.not_or, Bool.and_comm]
          simp [BEq.comm (a := key x)]

/-- It makes no difference for this if only the first of each key is added. -/
lemma foldl_eraseDupsBy (key : α → κ) (add : List α → α → List α)
    (hadd : ∀ ys x, add ys x = if ys.any fun y => key y == key x then ys else ys ++ [x])
    (xs ys : List α) :
    (xs.eraseDupsBy fun x y => key x == key y).foldl add ys = xs.foldl add ys := by
  have hout := filter_eraseDupsBy key (fun k => !ys.any fun y => key y == k) xs
  rw [foldl_eq_eraseDupsBy key add hadd, foldl_eq_eraseDupsBy key add hadd, hout,
    eraseDupsBy_eraseDupsBy]

end FirstOccurrences

namespace Node

/-! ### Places in a tree -/

/-- An item of lists that are put together is an item of one of them. -/
lemma exists_flatMap_split {α β : Type} {g : α → List β} {b : β} : ∀ {xs : List α} {i : Nat},
    (xs.flatMap g)[i]? = some b → ∃ front x back j, xs = front ++ x :: back ∧
      i = (front.flatMap g).length + j ∧ (g x)[j]? = some b
  | [], i, h => by simp at h
  | x :: xs, i, h => by
      rw [List.flatMap_cons] at h
      rcases Nat.lt_or_ge i (g x).length with hi | hi
      · rw [List.getElem?_append_left hi] at h
        exact ⟨[], x, xs, i, rfl, by simp, h⟩
      · rw [List.getElem?_append_right hi] at h
        obtain ⟨front, y, back, j, rfl, hj, hb⟩ := exists_flatMap_split h
        refine ⟨x :: front, y, back, j, rfl, ?_, hb⟩
        rw [List.flatMap_cons, List.length_append]
        omega

/-- A node of a tree stands in front of its own tree. -/
lemma exists_depthFirst_split (n : Node) : ∀ {i : Nat} {a : Node}, n.depthFirst[i]? = some a →
    ∃ front back, n.depthFirst = front ++ a.depthFirst ++ back ∧ front.length = i := by
  induction n using children_induction with
  | step n ih =>
      intro i a h
      rw [depthFirst_eq] at h ⊢
      cases i with
      | zero =>
          obtain rfl : n = a := by simpa using h
          exact ⟨[], [], by simp [← depthFirst_eq], rfl⟩
      | succ i =>
          rw [List.getElem?_cons_succ] at h
          obtain ⟨front, c, back, j, hsplit, rfl, ha⟩ := exists_flatMap_split h
          obtain ⟨before, behind, hc, hlen⟩ := ih c (hsplit ▸ by simp) ha
          refine ⟨n :: front.flatMap depthFirst ++ before, behind ++ back.flatMap depthFirst, ?_, ?_⟩
          · rw [hsplit, List.flatMap_append, List.flatMap_cons, hc]
            simp
          · simp [hlen]

/-- The places behind a node, as many as there are nodes below it, hold the nodes below it. -/
theorem getElem?_depthFirst_add {n a : Node} {i j : Nat} (ha : n.depthFirst[i]? = some a)
    (hj : j < a.count) : n.depthFirst[i + j]? = a.depthFirst[j]? := by
  obtain ⟨front, back, hsplit, rfl⟩ := n.exists_depthFirst_split ha
  rw [hsplit, List.append_assoc, List.getElem?_append_right (Nat.le_add_right _ _),
    Nat.add_sub_cancel_left, List.getElem?_append_left hj]

/-- The trees among documents that follow one another stand at their numbers. -/
lemma getElem?_of_mem_inRow {s : Found} : ∀ {ds : List Node} {first : Nat}, s ∈ inRow first ds →
    ∃ i, s.number = first + i ∧ (ds.flatMap depthFirst)[i]? = some s.node
  | [], first, h => by simp [inRow] at h
  | d :: ds, first, h => by
      rw [inRow] at h
      rcases List.mem_cons.mp h with rfl | h
      · exact ⟨0, rfl, by simp [depthFirst_eq d]⟩
      · obtain ⟨i, hi, hs⟩ := getElem?_of_mem_inRow h
        refine ⟨d.count + i, by omega, ?_⟩
        rw [List.flatMap_cons, count, List.getElem?_append_right (Nat.le_add_right _ _),
          Nat.add_sub_cancel_left, hs]

/-- A tree that a query looks through stands at its number. -/
theorem getElem?_of_mem_scopes {n : Node} {s : Found} (h : s ∈ n.scopes) :
    n.depthFirst[s.number]? = some s.node := by
  cases n with
  | documentSet info ds =>
      obtain ⟨i, hi, hs⟩ := getElem?_of_mem_inRow h
      rw [hi, depthFirst_eq, Nat.add_comm, List.getElem?_cons_succ]
      exact hs
  | _ =>
      obtain rfl := List.mem_singleton.mp h
      rw [depthFirst_eq]
      rfl

/-! ### The search -/

/-- The first node at a place, and its number. -/
lemma exists_of_findFrom?_eq_some {n : Node} {first : Nat} {q : String} {f : Found}
    (h : n.findFrom? first q = some f) :
    ∃ j, f.number = first + j ∧ n.depthFirst[j]? = some f.node ∧ f.node.sitsAt q = true ∧
      ∀ k < j, ∀ p, n.depthFirst[k]? = some p → p.sitsAt q = false := by
  rw [findFrom?_eq_find?, List.find?_eq_some_iff_getElem] at h
  obtain ⟨hsits, j, hj, rfl, hfirst⟩ := h
  have hlt : j < n.depthFirst.length := by simpa [numberedFrom] using hj
  refine ⟨j, by simp [numberedFrom], by simp [numberedFrom, hlt], hsits, fun k hk p hp => ?_⟩
  obtain ⟨hklt, rfl⟩ := List.getElem?_eq_some_iff.mp hp
  simpa [numberedFrom] using hfirst k hk

/-- Nothing is found if no node sits at the place. -/
lemma findFrom?_eq_none_iff {n : Node} {first : Nat} {q : String} :
    n.findFrom? first q = none ↔ ∀ p ∈ n.depthFirst, p.sitsAt q = false := by
  simp only [findFrom?_eq_find?, numberedFrom, List.find?_eq_none, List.mem_map,
    forall_exists_index, and_imp, Bool.not_eq_true]
  constructor
  · intro h p hp
    obtain ⟨i, hlt, rfl⟩ := List.getElem_of_mem hp
    exact h _ (n.depthFirst[i], first + i) (List.mk_add_mem_zipIdx_iff_getElem?.mpr
      (List.getElem?_eq_getElem hlt)) rfl
  · rintro h _ ⟨p, i⟩ hp rfl
    exact h p (List.fst_mem_of_mem_zipIdx hp)

/-! ### Tokens and their owners -/

/-- The tokens of a tree are those that its nodes own, of each index the first. -/
theorem tokens_eq (n : Node) : n.tokens =
    (n.depthFirst.flatMap ownTokens).eraseDupsBy fun t u => t.index == u.index := by
  rw [tokens_eq_foldl, foldl_eq_eraseDupsBy Token.index addToken fun _ _ => rfl]
  simp

/-- An index is among those of a tree's tokens if one of its nodes owns a token of that index. -/
lemma exists_mem_tokens_iff {n : Node} {i : Int} :
    (∃ t ∈ n.tokens, t.index = i) ↔ ∃ t ∈ n.depthFirst.flatMap ownTokens, t.index = i := by
  have hkeys : n.tokens.map Token.index =
      ((n.depthFirst.flatMap ownTokens).map Token.index).eraseDups := by
    rw [tokens_eq, map_eraseDupsBy Token.index (· == ·), List.eraseDups]
  rw [← List.mem_map, ← List.mem_map, hkeys, List.mem_eraseDups]

end Node

namespace QueryResult

/-- Gives an index an entry, unless it has one. -/
def put {α : Type} (entries : List (Int × α)) (p : Int × α) : List (Int × α) :=
  setDefault entries p.1 p.2

/-- The tokens of matches one after another, each under its index and with what is kept there. -/
def claims {α : Type} (g : Found → Token → α) (fs : List Found) : List (Int × α) :=
  fs.flatMap fun f => (f.node.depthFirst.flatMap Node.ownTokens).map fun t => (t.index, g f t)

/-- The tokens of a match are put under their indices, and so is the match. -/
lemma add_eq (r : QueryResult) (f : Found) :
    r.add f =
      { r with
        nodes := r.nodes ++ [f]
        tokens := (f.node.tokens.map fun t => (t.index, t)).foldl put r.tokens
        owners := (f.node.tokens.map fun t => (t.index, f)).foldl put r.owners } := by
  have hfold : ∀ (ts : List Token) (r : QueryResult), ts.foldl (fun r t =>
      { r with
        tokens := setDefault r.tokens t.index t
        owners := setDefault r.owners t.index f }) r =
      { r with
        tokens := (ts.map fun t => (t.index, t)).foldl put r.tokens
        owners := (ts.map fun t => (t.index, f)).foldl put r.owners } := by
    intro ts
    induction ts with
    | nil => exact fun r => rfl
    | cons t ts ih =>
        intro r
        rw [List.foldl_cons, ih]
        rfl
  exact hfold f.node.tokens { r with nodes := r.nodes ++ [f] }

/-- For what is put under indices all tokens of a tree may be taken in the place of the first ones.
-/
lemma foldl_put_tokens {α : Type} (g : Token → α) (n : Node) (entries : List (Int × α)) :
    (n.tokens.map fun t => (t.index, g t)).foldl put entries =
      ((n.depthFirst.flatMap Node.ownTokens).map fun t => (t.index, g t)).foldl put entries := by
  rw [Node.tokens_eq, map_eraseDupsBy (fun t : Token => (t.index, g t)) (fun p r => p.1 == r.1),
    foldl_eraseDupsBy Prod.fst put fun _ _ => rfl]

/-- The answer after matches were added one behind another. -/
lemma foldl_add : ∀ (fs : List Found) (r : QueryResult),
    fs.foldl add r =
      { r with
        nodes := r.nodes ++ fs
        tokens := (claims (fun _ t => t) fs).foldl put r.tokens
        owners := (claims (fun f _ => f) fs).foldl put r.owners }
  | [], r => by simp [claims]
  | f :: fs, r => by
      rw [List.foldl_cons, foldl_add fs, add_eq, foldl_put_tokens, foldl_put_tokens]
      simp only [claims, List.flatMap_cons, List.foldl_append, List.append_assoc,
        List.singleton_append]

end QueryResult

namespace Node

/-- The tokens of a query: those that the nodes of its matches own, of each index the first. -/
theorem tokens_queryResult (n : Node) (q : String) : (n.queryResult q).tokens =
    (((n.query q).nodes.flatMap fun f => f.node.depthFirst.flatMap ownTokens).map
      fun t => (t.index, t)).eraseDupsBy fun p r => p.1 == r.1 := by
  rw [nodes_query, queryResult_eq, QueryResult.foldl_add,
    foldl_eq_eraseDupsBy Prod.fst QueryResult.put fun _ _ => rfl, List.map_flatMap]
  simp [QueryResult.claims]

/-- The owners of the highlighted tokens: for each the first match that it belongs to. -/
theorem owners_query (n : Node) (q : String) : (n.query q).owners =
    (QueryResult.claims (fun f _ => f) (n.query q).nodes).eraseDupsBy fun p r => p.1 == r.1 := by
  have hput := foldl_eq_eraseDupsBy Prod.fst QueryResult.put (fun _ _ => rfl)
    (QueryResult.claims (fun f _ => f) (n.query q).nodes) []
  rw [nodes_query] at hput ⊢
  show (n.queryResult q).owners = _
  rw [queryResult_eq, QueryResult.foldl_add]
  simpa using hput

/-- The highlighted tokens: those of the matches in the order of their first occurrence. -/
theorem tokens_query (n : Node) (q : String) : (n.query q).tokens =
    (((n.query q).nodes.flatMap fun f => f.node.depthFirst.flatMap ownTokens).map
      Token.index).eraseDups := by
  show (n.queryResult q).tokens.map Prod.fst = _
  rw [tokens_queryResult, map_eraseDupsBy Prod.fst (· == ·), List.map_map]
  rfl

/-- A token belongs to the first match that has one of its index. -/
theorem lookup_owners_query (n : Node) (q : String) (i : Int) :
    (n.query q).owners.lookup i =
      (n.query q).nodes.find? fun f => f.node.tokens.any fun t => t.index == i := by
  rw [owners_query, lookup_eraseDupsBy, QueryResult.claims]
  induction (n.query q).nodes with
  | nil => rfl
  | cons f fs ih =>
      have hone : ∀ ts : List Token, (ts.map fun t => (t.index, f)).lookup i =
          if ts.any fun t => t.index == i then some f else none := by
        intro ts
        induction ts with
        | nil => rfl
        | cons t ts iht =>
            rw [List.map_cons, List.lookup_cons, iht, List.any_cons, BEq.comm]
            cases t.index == i <;> rfl
      have hany : (f.node.depthFirst.flatMap ownTokens).any (fun t => t.index == i) =
          f.node.tokens.any fun t => t.index == i := by
        rw [Bool.eq_iff_iff, List.any_eq_true, List.any_eq_true]
        simp only [beq_iff_eq]
        exact (exists_mem_tokens_iff).symm
      rw [List.flatMap_cons, List.lookup_append, ih, hone, hany, List.find?_cons]
      cases f.node.tokens.any fun t => t.index == i <;> rfl

end Node

/-! ### The answer to a query -/

/-- Every text is answered for every tree. A text that is no query has no matches. The documents of
a set, or else the one tree, are looked through, each standing at its number. The matches are, in
the order of these trees, the first node of each that sits at the place: no node before it does, and
so none that it lies below. The highlighted tokens are those that the nodes of the matches own, in
the order of their first occurrence, each kept under its index, and the owner of a token is the
first match that has it. -/
theorem query_aggregates (n : Node) (q : String) :
    (Query.isValid q = false →
      (n.query q).nodes = [] ∧ (n.query q).tokens = [] ∧ (n.query q).owners = []) ∧
    n.scopes.map Found.node = (match n with | .documentSet _ ds => ds | n => [n]) ∧
    (∀ s ∈ n.scopes, n.depthFirst[s.number]? = some s.node) ∧
    (n.query q).nodes = n.scopes.filterMap (fun s => s.node.findFrom? s.number q) ∧
    (∀ s ∈ n.scopes,
      (s.node.findFrom? s.number q = none → ∀ p ∈ s.node.depthFirst, p.sitsAt q = false) ∧
      ∀ f, s.node.findFrom? s.number q = some f → ∃ j, f.number = s.number + j ∧
        s.node.depthFirst[j]? = some f.node ∧ n.depthFirst[f.number]? = some f.node ∧
        f.node.sitsAt q = true ∧
        (∀ i < j, ∀ p, s.node.depthFirst[i]? = some p → p.sitsAt q = false) ∧
        ∀ i a, s.node.depthFirst[i]? = some a → i < j → j < i + a.count →
          a.depthFirst[j - i]? = some f.node ∧ a.sitsAt q = false) ∧
    (n.query q).tokens =
      (((n.query q).nodes.flatMap fun f => f.node.depthFirst.flatMap Node.ownTokens).map
        Token.index).eraseDups ∧
    (n.query q).owners.map Prod.fst = (n.query q).tokens ∧
    (∀ i, (n.query q).owners.lookup i =
      (n.query q).nodes.find? fun f => f.node.tokens.any fun t => t.index == i) ∧
    (n.query q).tokens = (n.queryResult q).tokens.map Prod.fst ∧
    (n.queryResult q).tokens =
      (((n.query q).nodes.flatMap fun f => f.node.depthFirst.flatMap Node.ownTokens).map
        fun t => (t.index, t)).eraseDupsBy fun p r => p.1 == r.1 := by
  refine ⟨fun hq => ?_, ?_, fun s hs => Node.getElem?_of_mem_scopes hs, n.nodes_query q,
    fun s hs => ⟨fun hf => Node.findFrom?_eq_none_iff.mp hf, fun f hf => ?_⟩, n.tokens_query q,
    n.inStep_queryResult q, n.lookup_owners_query q, rfl, n.tokens_queryResult q⟩
  · have hnone : (n.query q).nodes = [] := by
      rw [Node.nodes_query, List.filterMap_eq_nil_iff]
      intro s _
      exact Node.findFrom?_eq_none_iff.mpr fun p _ => by simp [Node.sitsAt, hq]
    refine ⟨hnone, ?_, ?_⟩
    · rw [Node.tokens_query, hnone]
      rfl
    · rw [Node.owners_query, hnone]
      rfl
  · cases n with
    | documentSet info ds => exact Node.map_node_inRow ds 1
    | _ => rfl
  · obtain ⟨j, hnumber, hj, hsits, hfirst⟩ := Node.exists_of_findFrom?_eq_some hf
    obtain ⟨hjlt, -⟩ := List.getElem?_eq_some_iff.mp hj
    refine ⟨j, hnumber, hj, ?_, hsits, hfirst, fun i a ha hij hja => ⟨?_, hfirst i hij a ha⟩⟩
    · rw [hnumber, Node.getElem?_depthFirst_add (Node.getElem?_of_mem_scopes hs) hjlt, hj]
    · rw [← Node.getElem?_depthFirst_add ha (by omega), Nat.add_sub_cancel' (Nat.le_of_lt hij), hj]

/-- Two documents whose bodies share their token. -/
def sharedToken : Node :=
  let body := Node.scalar { path := "$.a", token := some ⟨.string, "x", ⟨1, 1, 0⟩, 7⟩ } none
  .documentSetOf [.documentOf (some body) none 0 1, .documentOf (some body) none 0 1]

/-- Both bodies match, and the first of them owns the token that they share; the empty text is no
query. -/
theorem query_aggregates_sharedToken :
    (Query.isValid "" = false ∧ (sharedToken.query "").tokens = []) ∧
      (sharedToken.query "a").nodes.map Found.number = [2, 4] ∧
      (sharedToken.query "a").tokens = [7] ∧
      ((sharedToken.query "a").owners.lookup 7).map Found.number = some 2 := by
  obtain ⟨hnone, -⟩ := query_aggregates sharedToken ""
  obtain ⟨-, -, -, hnodes, -, htokens, -, howners, -, -⟩ := query_aggregates sharedToken "a"
  have hq : Query.isValid "" = false := by decide +kernel
  refine ⟨⟨hq, (hnone hq).2.1⟩, ?_, ?_, ?_⟩
  · rw [hnodes]
    decide +kernel
  · rw [htokens]
    decide +kernel
  · rw [howners]
    decide +kernel

end YamlNavigator
