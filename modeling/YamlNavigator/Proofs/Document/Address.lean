import Mathlib.Data.Nat.Find
import YamlNavigator.Proofs.Document.Matches
import YamlNavigator.Proofs.Document.Naming
import YamlNavigator.Proofs.Document.Tiles

/-!
Query paths name the places of nodes.

* `Crossing.IsPlain`, `isPlain_item`: steps that can stand in a query, as indices always can;
* `canonical_pathOf`: the query path of a route of such steps is made of them;
* `split?_queryOf`, `queryOf_inj`: the steps are read back from it;
* `query_addresses`: in every text that is accepted, query paths name the places of nodes.
-/

namespace YamlNavigator

open Text Yaml

/-! ### Steps -/

/-- A step that can stand in a query: it is not blank and holds no bracket and no dot. -/
def Crossing.IsPlain (x : Crossing) : Prop :=
  Query.isSegment x.text.toList = true ∧ '.' ∉ x.text.toList

/-- Indices can stand in a query. -/
lemma isPlain_item (index : Nat) : (Crossing.item index).IsPlain := by
  obtain ⟨hne, hdigits⟩ := digits_toString index
  have hnot : ∀ c : Char, c.isDigit = false → c ∉ (toString index).toList := by
    intro c hc hmem
    rw [hdigits c hmem] at hc
    cases hc
  refine ⟨?_, hnot '.' rfl⟩
  rw [Query.isSegment, Path.hasBracket]
  simp only [Crossing.text, Bool.and_eq_true, Bool.not_eq_true', Bool.or_eq_false_iff]
  refine ⟨?_, ?_, ?_⟩
  · obtain ⟨c, s, hs⟩ := List.exists_cons_of_ne_nil hne
    have hc := isBlank_of_charIsDigit (hdigits c (hs ▸ List.mem_cons_self))
    rw [isBlankText, hs, List.all_cons, hc, Bool.false_and]
  · simpa using hnot '[' rfl
  · simpa using hnot ']' rfl

/-- A plain step holds no bracket. -/
lemma Crossing.IsPlain.not_mem {x : Crossing} (h : x.IsPlain) :
    '[' ∉ x.text.toList ∧ ']' ∉ x.text.toList := by
  have hsegment := h.1
  simp only [Query.isSegment, Path.hasBracket, Bool.and_eq_true, Bool.not_eq_true',
    Bool.or_eq_false_iff] at hsegment
  simpa using hsegment.2

/-! ### From routes to query paths -/

/-- The query of a route: its steps with dots between them. -/
def queryOf (r : List Crossing) : String :=
  String.ofList (joinWith ['.'] (r.map fun x => x.text.toList))

/-- A plain step stands in query paths as it is. -/
lemma Crossing.IsPlain.dotted_eq {x : Crossing} (h : x.IsPlain) : x.dotted = x.text.toList := by
  cases x with
  | key segment => exact Path.dotIndices_of_not_mem h.not_mem.1
  | item index => rfl

/-- The query path of the end of a route from the root. -/
theorem canonical_pathOf {path : String} {r : List Crossing}
    (hpath : path.toList = '$' :: pathOf r) (h : ∀ x ∈ r, x.IsPlain) :
    Path.canonical path = queryOf r := by
  have hhidden : r.any Crossing.isHidden = false := by
    rw [List.any_eq_false]
    intro x hx
    rw [Crossing.isHidden, Path.hasBracket, (h x hx).dotted_eq]
    simpa using (h x hx).not_mem
  have hdotted : r.map Crossing.dotted = r.map fun x => x.text.toList :=
    List.map_congr_left fun x hx => (h x hx).dotted_eq
  rw [← String.toList_inj, toList_canonical_route hpath, hhidden, hdotted, queryOf,
    String.toList_ofList]
  rfl

variable {r s : List Crossing}

/-- The steps of a route are read back from its query. -/
theorem split?_queryOf (hne : r ≠ []) (h : ∀ x ∈ r, x.IsPlain) :
    Query.split? (queryOf r) = some (r.map Crossing.text) := by
  have hsplit : splitOn '.' (queryOf r).toList = r.map fun x => x.text.toList := by
    rw [queryOf, String.toList_ofList]
    refine splitOn_joinWith (by simpa using hne) fun p hp => ?_
    obtain ⟨x, hx, rfl⟩ := List.mem_map.mp hp
    exact (h x hx).2
  have hsegments : (r.map fun x => x.text.toList).all Query.isSegment = true := by
    rw [List.all_map, List.all_eq_true]
    exact fun x hx => (h x hx).1
  have htexts : (r.map fun x => x.text.toList).map String.ofList = r.map Crossing.text := by
    rw [List.map_map]
    exact List.map_congr_left fun x _ => String.ofList_toList
  rw [Query.split?, hsplit, if_pos hsegments, htexts]

/-- Routes have the same query if and only if they have the same steps. -/
theorem queryOf_inj (hr : r ≠ []) (hr' : ∀ x ∈ r, x.IsPlain) (hs : s ≠ [])
    (hs' : ∀ x ∈ s, x.IsPlain) :
    queryOf r = queryOf s ↔ r.map Crossing.text = s.map Crossing.text := by
  constructor
  · intro h
    have := split?_queryOf hr hr'
    rw [h, split?_queryOf hs hs', Option.some_inj] at this
    exact this.symm
  · intro h
    have hlists : ∀ r : List Crossing, (r.map fun x => x.text.toList) =
        (r.map Crossing.text).map String.toList := fun r => by rw [List.map_map]; rfl
    rw [queryOf, queryOf, hlists, hlists, h]

/-- The query of a route is not empty. -/
lemma queryOf_ne_empty (hne : r ≠ []) (h : ∀ x ∈ r, x.IsPlain) : queryOf r ≠ "" := by
  intro hempty
  have hsplit := split?_queryOf hne h
  have hnone : Query.split? "" = none := by decide
  rw [hempty, hnone] at hsplit
  cases hsplit

/-! ### Bodies -/

/-- Composed nodes are aliases, scalars, sequences or mappings, so that all below them is behind a
crossing. -/
lemma ne_nil_of_mem_tail {src : Source} {n : Nat} {a b : Anchors} {path : String}
    {es : List Event} {c : Compose.Composed Node} (h : Compose.node src n a path es = .ok c)
    {text : List Char} {p : List Crossing × Node} (hp : p ∈ (c.value.routed text b).tail) :
    p.1 ≠ [] := by
  rw [Node.routed, List.tail_cons] at hp
  obtain ⟨c', -, b', i, t, hr, -⟩ := Node.mem_routedBelow (show (p.1, p.2) ∈ _ from hp)
  obtain ⟨k, e, rest, -, -, hrun⟩ := Compose.run_of_node h
  rw [hr]
  cases hrun with
  | reference step => simp [Node.children] at hp
  | scalar step => simp [Node.children] at hp
  | sequence step hitems => simp [Node.crossing]
  | mapping step hentries => simp [Node.crossing]

/-- In a tree whose nodes are at their routes no mapping is at the path of its last entry. -/
lemma queryPath_of_mem_routed {text : List Char} {a : Anchors} {path : String} {b n : Node}
    (h : Compose.AtRoutes path (b.routed text a)) (hn : (r, n) ∈ b.routed text a) :
    n.queryPath = Path.canonical n.path := by
  unfold Node.queryPath
  split
  · next info entries =>
      cases hlast : entries.getLast? with
      | none => rfl
      | some last =>
          have hmem : last ∈ (Node.mapping info entries).children :=
            List.mem_of_getLast? hlast
          obtain ⟨b', i, hchild⟩ := Node.exists_routed_child hn hmem
          have hne : info.path ≠ last.path := by
            intro heq
            have hparent := h _ _ hn
            have hentry := h _ _ hchild
            rw [← heq, pathOf, List.flatMap_append, ← pathOf, ← List.append_assoc, ← hparent]
              at hentry
            have hnil := List.append_right_eq_self.mp hentry.symm
            simp [Node.crossing, Crossing.path] at hnil
          simp only [if_neg hne]
          rfl
  · rfl

/-- The bodies of the documents of an accepted text are composed at the root. -/
lemma exists_body_of_mem_scopes {source : String} {d : Parsed} (h : parse source = .ok d)
    {scope : Found} (hscope : scope ∈ d.documents.scopes) :
    ∃ src n es c info, src.text = source.toList ∧
      Compose.node src n [] Compose.rootPath es = .ok c ∧
      scope.node = .document info (some c.value) ∧ info.path = "" := by
  obtain ⟨ls, es, rest, -, -, hstream, -, -⟩ := exists_stages_of_parse h
  obtain ⟨ds, hds, htree⟩ := Compose.stream_eq_ok hstream
  rw [htree] at hscope
  obtain ⟨first, rest, more, body, last, hrun⟩ :=
    Compose.exists_body_of_mem_documents hds scope.node (Node.mem_of_mem_inRow hscope)
  exact ⟨_, _, _, body, _, rfl, hrun.body_eq, hrun.node_eq, rfl⟩

/-! ### Addresses -/

/-- A key that is crossed is plain: its segment is not blank and holds no bracket and no dot. Of an
index nothing is asked. -/
def Crossing.HasPlainKey : Crossing → Prop
  | key segment =>
      isBlankText segment.toList = false ∧ '.' ∉ segment.toList ∧ '[' ∉ segment.toList ∧
        ']' ∉ segment.toList
  | item _ => True

instance : DecidablePred Crossing.HasPlainKey
  | .key segment => inferInstanceAs (Decidable (_ ∧ '.' ∉ segment.toList ∧ _))
  | .item _ => inferInstanceAs (Decidable True)

/-- All keys that are crossed on routes are plain. -/
def PlainKeys (ps : List (List Crossing × Node)) : Prop :=
  ∀ p ∈ ps, ∀ x ∈ p.1, x.HasPlainKey

instance (ps : List (List Crossing × Node)) : Decidable (PlainKeys ps) :=
  inferInstanceAs (Decidable (∀ p ∈ ps, ∀ x ∈ p.1, x.HasPlainKey))

/-- If the keys on routes are plain, all steps are. -/
lemma PlainKeys.isPlain {ps : List (List Crossing × Node)} (h : PlainKeys ps) {n : Node}
    (hn : (r, n) ∈ ps) : ∀ x ∈ r, x.IsPlain := by
  intro x hx
  have hkey := h (r, n) hn x hx
  cases x with
  | key segment =>
      obtain ⟨hblank, hdot, hopen, hclose⟩ := hkey
      exact ⟨by simp [Query.isSegment, Path.hasBracket, Crossing.text, hblank, hopen, hclose], hdot⟩
  | item index => exact isPlain_item index

/-- The nodes below the body of a document, which are the ends of all routes but the first, have
addresses: the query path of a node is split into the steps of its route; in the document it is
matched by the first node in depth-first order with these steps; and nodes share their query paths
if and only if they share their steps. -/
structure Addressed (tree : Node) (scope : Found) (routes : List (List Crossing × Node)) :
    Prop where
  split : ∀ r n, (r, n) ∈ routes.tail → Query.split? n.queryPath = some (r.map Crossing.text)
  found : ∀ r n, (r, n) ∈ routes.tail → ∃ j s m, routes[j]? = some (s, m) ∧
    s.map Crossing.text = r.map Crossing.text ∧
    (∀ k < j, ∀ t l, routes[k]? = some (t, l) → t.map Crossing.text ≠ r.map Crossing.text) ∧
    (tree.query n.queryPath).within scope = [⟨scope.number + 1 + j, m⟩]
  inj : ∀ r n s m, (r, n) ∈ routes.tail → (s, m) ∈ routes.tail →
    (n.queryPath = m.queryPath ↔ r.map Crossing.text = s.map Crossing.text)

/-- If the nodes of a body are at their routes and the keys are plain, the query path of each node
below the body is the query of its route. -/
lemma queryPath_eq_queryOf {text : List Char} {a : Anchors} {b n : Node}
    (h : Compose.AtRoutes Compose.rootPath (b.routed text a)) (hplain : PlainKeys (b.routed text a))
    (hn : (r, n) ∈ b.routed text a) : n.queryPath = queryOf r := by
  rw [queryPath_of_mem_routed h hn]
  exact canonical_pathOf (h r n hn) (hplain.isPlain hn)

/-- A node sits at the query of a route if and only if its own route has the same steps. -/
lemma sitsAt_queryOf_iff {t : List Crossing} {n : Node} (hn : n.queryPath = queryOf t)
    (ht : ∀ x ∈ t, x.IsPlain) (hne : r ≠ []) (hr : ∀ x ∈ r, x.IsPlain) :
    n.sitsAt (queryOf r) = true ↔ t.map Crossing.text = r.map Crossing.text := by
  have hvalid : Query.isValid (queryOf r) = true := by
    rw [Query.isValid, split?_queryOf hne hr]
    rfl
  rw [Node.sitsAt, hvalid, hn, Bool.true_and, Bool.and_eq_true, bne_iff_ne, beq_iff_eq]
  constructor
  · rintro ⟨hempty, heq⟩
    have hne' : t ≠ [] := by
      rintro rfl
      exact hempty rfl
    exact (queryOf_inj hne' ht hne hr).mp heq
  · intro heq
    have hne' : t ≠ [] := by
      rintro rfl
      exact hne (List.map_eq_nil_iff.mp heq.symm)
    exact ⟨queryOf_ne_empty hne' ht, (queryOf_inj hne' ht hne hr).mpr heq⟩

/-- If an item of a list has a property, there is a first one. -/
lemma exists_first_of_mem {α : Type} (p : α → Prop) {l : List α} {x : α} (hx : x ∈ l) (hp : p x) :
    ∃ (j : Nat) (y : α), l[j]? = some y ∧ p y ∧ ∀ k < j, ∀ z, l[k]? = some z → ¬p z := by
  classical
  have hexists : ∃ (j : Nat) (y : α), l[j]? = some y ∧ p y := by
    obtain ⟨i, hi⟩ := List.getElem?_of_mem hx
    exact ⟨i, x, hi, hp⟩
  obtain ⟨y, hy, hpy⟩ := Nat.find_spec hexists
  exact ⟨_, y, hy, hpy, fun k hk z hz hpz => Nat.find_min hexists hk ⟨z, hz, hpz⟩⟩

/-- A document is not matched by any query: it is at no path. -/
lemma sitsAt_document {info : NodeInfo} (hinfo : info.path = "") (b : Option Node) (q : String) :
    (Node.document info b).sitsAt q = false := by
  have hempty : (Node.document info b).queryPath = "" := by
    show Path.canonical info.path = ""
    rw [hinfo]
    decide
  simp [Node.sitsAt, hempty]

/-- The first node of a document with the steps of a route is the match of the route's query. -/
lemma exists_found {text : List Char} {a : Anchors} {b n tree : Node} {scope : Found}
    {info : NodeInfo} (hscope : scope ∈ tree.scopes) (hnode : scope.node = .document info (some b))
    (hinfo : info.path = "") (h : Compose.AtRoutes Compose.rootPath (b.routed text a))
    (hplain : PlainKeys (b.routed text a)) (hn : (r, n) ∈ b.routed text a) (hne : r ≠ []) :
    ∃ j s m, (b.routed text a)[j]? = some (s, m) ∧ s.map Crossing.text = r.map Crossing.text ∧
      (∀ k < j, ∀ t l, (b.routed text a)[k]? = some (t, l) →
        t.map Crossing.text ≠ r.map Crossing.text) ∧
      (tree.query n.queryPath).within scope = [⟨scope.number + 1 + j, m⟩] := by
  have hr := hplain.isPlain hn
  have hsits : ∀ {t l}, (t, l) ∈ b.routed text a →
      (l.sitsAt (queryOf r) = true ↔ t.map Crossing.text = r.map Crossing.text) := fun hl =>
    sitsAt_queryOf_iff (queryPath_eq_queryOf h hplain hl) (hplain.isPlain hl) hne hr
  obtain ⟨j, ⟨s, m⟩, hj, hsteps, hbefore⟩ :=
    exists_first_of_mem (fun p => p.1.map Crossing.text = r.map Crossing.text) hn rfl
  refine ⟨j, s, m, hj, hsteps, fun k hk t l hl => hbefore k hk (t, l) hl, ?_⟩
  -- the document stands in front of its body
  have hdepth : scope.node.depthFirst = scope.node :: (b.routed text a).map Prod.snd := by
    rw [Node.map_snd_routed, hnode, Node.depthFirst_eq, Node.children, Option.toList_some,
      List.flatMap_singleton]
  have hfind : scope.node.findFrom? scope.number (queryOf r) =
      some ⟨scope.number + (j + 1), m⟩ := by
    refine Node.findFrom?_eq_some ?_ ((hsits (List.mem_of_getElem? hj)).mpr hsteps) ?_
    · rw [hdepth, List.getElem?_cons_succ, List.getElem?_map, hj]
      rfl
    · intro k hk p hp
      rw [hdepth] at hp
      cases k with
      | zero =>
          cases hp
          rw [hnode]
          exact sitsAt_document hinfo _ _
      | succ k =>
          rw [List.getElem?_cons_succ, List.getElem?_map, Option.map_eq_some_iff] at hp
          obtain ⟨⟨t, l⟩, hl, rfl⟩ := hp
          rw [← Bool.not_eq_true, hsits (List.mem_of_getElem? hl)]
          exact hbefore k (by omega) (t, l) hl
  rw [queryPath_eq_queryOf h hplain hn, Node.within_query _ hscope, hfind, Option.toList_some,
    Nat.add_comm j 1, Nat.add_assoc]

/-- **Query paths are addresses.** Every document of an accepted text has a body. If no key in it
has a segment that is blank or holds a bracket or a dot, then for every node below the body the
query path of the node is split into the steps of its route; the query path is matched in the
document by the first node in depth-first order that has these steps; and nodes share their query
paths if and only if they share their steps. -/
theorem query_addresses {source : String} {d : Parsed} (h : parse source = .ok d) {scope : Found}
    (hscope : scope ∈ d.documents.scopes) :
    ∃ info b, scope.node = .document info (some b) ∧
      (b.routed source.toList []).map Prod.snd = b.depthFirst ∧
      (PlainKeys (b.routed source.toList []) →
        Addressed d.documents scope (b.routed source.toList [])) := by
  obtain ⟨src, n, es, c, info, htext, hnode, hdocument, hinfo⟩ := exists_body_of_mem_scopes h hscope
  refine ⟨info, c.value, hdocument, Node.map_snd_routed _ _ _, fun hplain => ?_⟩
  have hroutes := ((Compose.atRoutes_composed src n).node hnode).2
  rw [htext] at hroutes
  have htail : ∀ {r m}, (r, m) ∈ (c.value.routed source.toList []).tail →
      (r, m) ∈ c.value.routed source.toList [] ∧ r ≠ [] := fun hm =>
    ⟨List.mem_of_mem_tail hm, ne_nil_of_mem_tail hnode hm⟩
  refine ⟨fun r m hm => ?_, fun r m hm => ?_, fun r m s l hm hl => ?_⟩
  · obtain ⟨hmem, hne⟩ := htail hm
    rw [queryPath_eq_queryOf hroutes hplain hmem]
    exact split?_queryOf hne (hplain.isPlain hmem)
  · obtain ⟨hmem, hne⟩ := htail hm
    exact exists_found hscope hdocument hinfo hroutes hplain hmem hne
  · obtain ⟨hmem, hne⟩ := htail hm
    obtain ⟨hmem', hne'⟩ := htail hl
    rw [queryPath_eq_queryOf hroutes hplain hmem, queryPath_eq_queryOf hroutes hplain hmem']
    exact queryOf_inj hne (hplain.isPlain hmem) hne' (hplain.isPlain hmem')

/-- A mapping with an alias for a key, and a sequence in a mapping. -/
theorem query_addresses_aliasedKey :
    ∃ d, parse "&k a: 1\nb: [x, {c d: *k}]\n? *k\n: 2\n" = .ok d ∧ ∃ scope ∈ d.documents.scopes,
      ∃ info b, scope.node = .document info (some b) ∧
        let routes := b.routed "&k a: 1\nb: [x, {c d: *k}]\n? *k\n: 2\n".toList []
        routes.length = 15 ∧ PlainKeys routes ∧ Addressed d.documents scope routes := by
  obtain ⟨d, hd, hcheck⟩ := Except.exists_ok_of_any
    (x := parse "&k a: 1\nb: [x, {c d: *k}]\n? *k\n: 2\n") (p := fun d =>
      d.documents.scopes.any fun scope => scope.node.children.any fun b =>
        let routes := b.routed "&k a: 1\nb: [x, {c d: *k}]\n? *k\n: 2\n".toList []
        routes.length == 15 && decide (PlainKeys routes)) (by decide +kernel)
  obtain ⟨scope, hscope, hcheck⟩ := List.any_eq_true.mp hcheck
  obtain ⟨info, b, hnode, -, haddressed⟩ := query_addresses hd hscope
  rw [hnode, Node.children, Option.toList_some, List.any_cons, List.any_nil, Bool.or_false,
    Bool.and_eq_true, beq_iff_eq, decide_eq_true_eq] at hcheck
  exact ⟨d, hd, scope, hscope, info, b, hnode, hcheck.1, hcheck.2, haddressed hcheck.2⟩

end YamlNavigator
