import YamlNavigator.Proofs.Document.Aggregation
import YamlNavigator.Proofs.Text.Parts

/-!
The list of suggestions against the answers to queries, for every tree.

* `mem_dropRepeats`, `pairwise_dropRepeats`: a rising list without repetitions;
* `Node.mem_suggestions`, `Node.pairwise_suggestions`: the suggestions are the query paths of the
  nodes, in strictly rising order;
* `hasBracket_queryPath`, `isValid_queryPath_iff`: a query path is a query unless a part of it is
  blank;
* `Node.query_ne_nil_iff`: a query has matches if and only if some node sits at its place;
* `suggestions_index`: the queries with matches are the suggestions that are queries.
-/

namespace YamlNavigator

open Text

/-! ### Rising lists -/

/-- Leaving out repetitions leaves out no item. -/
lemma mem_dropRepeats {s : String} : ∀ {ss : List String}, s ∈ dropRepeats ss ↔ s ∈ ss
  | [] => Iff.rfl
  | [_] => Iff.rfl
  | t :: u :: ss => by
      have ih : s ∈ dropRepeats (u :: ss) ↔ s ∈ u :: ss := mem_dropRepeats
      rw [dropRepeats]
      split
      · next h =>
          rw [ih, h]
          simp
      · rw [List.mem_cons, ih, ← List.mem_cons]

/-- A rising list without repetitions is strictly rising. -/
lemma pairwise_dropRepeats : ∀ {ss : List String}, ss.Pairwise (· ≤ ·) →
    (dropRepeats ss).Pairwise (· < ·)
  | [], _ => List.Pairwise.nil
  | [s], _ => List.pairwise_singleton _ s
  | s :: t :: ss, h => by
      obtain ⟨hs, hss⟩ := List.pairwise_cons.mp h
      have ih := pairwise_dropRepeats hss
      rw [dropRepeats]
      split
      · exact ih
      · next hne =>
          refine List.pairwise_cons.mpr ⟨fun u hu => ?_, ih⟩
          have hu' : u ∈ t :: ss := mem_dropRepeats.mp hu
          -- `u` is not below `t`, and `t` is above `s`
          have htu : t ≤ u := by
            rcases List.mem_cons.mp hu' with rfl | hmem
            · exact String.le_refl u
            · exact (List.pairwise_cons.mp hss).1 u hmem
          refine String.not_le.mp fun hus => hne ?_
          exact String.le_antisymm (hs t List.mem_cons_self) (String.le_trans htu hus)

namespace Node

/-- The suggestions are the query paths of the nodes of a tree, but for the empty one. -/
lemma mem_suggestions {n : Node} {q : String} :
    q ∈ n.suggestions ↔ q ≠ "" ∧ ∃ m ∈ n.depthFirst, m.queryPath = q := by
  rw [suggestions, mem_dropRepeats, List.mem_mergeSort, List.mem_filter, List.mem_map, and_comm,
    bne_iff_ne]

/-- The suggestions are strictly rising. -/
lemma pairwise_suggestions (n : Node) : n.suggestions.Pairwise (· < ·) := by
  refine pairwise_dropRepeats ?_
  have htrans : ∀ p q r : String, decide (p ≤ q) = true → decide (q ≤ r) = true →
      decide (p ≤ r) = true := by
    intro p q r hpq hqr
    exact decide_eq_true (String.le_trans (of_decide_eq_true hpq) (of_decide_eq_true hqr))
  have htotal : ∀ p q : String, (decide (p ≤ q) || decide (q ≤ p)) = true := by
    intro p q
    simpa using String.le_total p q
  simpa using List.pairwise_mergeSort htrans htotal
    ((n.depthFirst.map Node.queryPath).filter (· != ""))

end Node

/-- Completions are the suggestions that begin with a text. -/
lemma mem_complete {ss : List String} {start q : String} :
    q ∈ complete ss start ↔ q ∈ ss ∧ start.toList <+: q.toList := by
  rw [complete, List.mem_filter, List.isPrefixOf_iff_prefix]

/-! ### Query paths that are queries -/

/-- A query path holds no bracket. -/
lemma hasBracket_canonicalChars (s : List Char) :
    Path.hasBracket (Path.canonicalChars s) = false := by
  unfold Path.canonicalChars
  split
  · next s =>
      dsimp only
      split
      · rfl
      · next hbracket =>
          split
          · next tail htail =>
              rw [htail] at hbracket
              simpa [Path.hasBracket] using hbracket
          · rfl
  · rfl

/-- The query path of a node holds no bracket. -/
lemma hasBracket_queryPath (n : Node) : Path.hasBracket n.queryPath.toList = false := by
  have hcanonical : ∀ p, Path.hasBracket (Path.canonical p).toList = false := fun p => by
    rw [Path.canonical, String.toList_ofList]
    exact hasBracket_canonicalChars _
  unfold Node.queryPath
  split
  · split
    · split <;> exact hcanonical _
    · exact hcanonical _
  · exact hcanonical _

/-- A text without brackets is a query if no part between its dots is blank. -/
lemma isValid_iff {q : String} (h : Path.hasBracket q.toList = false) :
    Query.isValid q = true ↔ ∀ part ∈ splitOn '.' q.toList, isBlankText part = false := by
  have hpart : ∀ part ∈ splitOn '.' q.toList, Path.hasBracket part = false := by
    intro part hpart
    simp only [Path.hasBracket, Bool.or_eq_false_iff, List.contains_eq_mem,
      decide_eq_false_iff_not] at h ⊢
    exact ⟨fun hmem => h.1 (mem_of_mem_splitOn hpart hmem),
      fun hmem => h.2 (mem_of_mem_splitOn hpart hmem)⟩
  have hvalid : Query.isValid q = (splitOn '.' q.toList).all Query.isSegment := by
    rw [Query.isValid, Query.split?]
    split
    · next hall => exact hall.symm
    · next hall => exact ((Bool.not_eq_true _).mp hall).symm
  rw [hvalid, List.all_eq_true]
  refine forall₂_congr fun part hmem => ?_
  rw [Query.isSegment, hpart part hmem]
  simp

/-! ### Matches -/

namespace Node

/-- A node sits at the place of a query if its query path is the query. -/
lemma sitsAt_iff {n : Node} {q : String} :
    n.sitsAt q = true ↔ Query.isValid q = true ∧ q ≠ "" ∧ n.queryPath = q := by
  simp only [sitsAt, Bool.and_eq_true, bne_iff_ne, beq_iff_eq, and_assoc]
  refine and_congr_right fun _ => ⟨?_, ?_⟩
  · rintro ⟨hne, rfl⟩
    exact ⟨hne, rfl⟩
  · rintro ⟨hne, rfl⟩
    exact ⟨hne, rfl⟩

/-- A query has matches if and only if a node of a tree that it looks through sits at its place. -/
lemma query_ne_nil_iff {n : Node} {q : String} :
    (n.query q).nodes ≠ [] ↔ ∃ s ∈ n.scopes, ∃ m ∈ s.node.depthFirst, m.sitsAt q = true := by
  rw [nodes_query, Ne, List.filterMap_eq_nil_iff]
  simp only [findFrom?_eq_none_iff, not_forall, Bool.not_eq_false, exists_prop]

/-- The documents of a set are looked through. -/
lemma documentSet_query_ne_nil_iff {info : NodeInfo} {ds : List Node} {q : String} :
    ((documentSet info ds).query q).nodes ≠ [] ↔
      Query.isValid q = true ∧ q ≠ "" ∧ ∃ m ∈ ds.flatMap depthFirst, m.queryPath = q := by
  have hscopes : ∀ d, d ∈ ds ↔ ∃ s ∈ (documentSet info ds).scopes, s.node = d := by
    intro d
    rw [← List.mem_map]
    show _ ↔ d ∈ (inRow 1 ds).map Found.node
    rw [map_node_inRow]
  rw [query_ne_nil_iff]
  simp only [sitsAt_iff, List.mem_flatMap, hscopes]
  constructor
  · rintro ⟨s, hs, m, hm, hvalid, hne, hpath⟩
    exact ⟨hvalid, hne, m, ⟨s.node, ⟨s, hs, rfl⟩, hm⟩, hpath⟩
  · rintro ⟨hvalid, hne, m, ⟨d, ⟨s, hs, rfl⟩, hm⟩, hpath⟩
    exact ⟨s, hs, m, hm, hvalid, hne, hpath⟩

/-- The suggestions of a document set at no path are the query paths of the nodes of its
documents. -/
lemma mem_suggestions_documentSet {info : NodeInfo} (hinfo : info.path = "") {ds : List Node}
    {q : String} : q ∈ (documentSet info ds).suggestions ↔
      q ≠ "" ∧ ∃ m ∈ ds.flatMap depthFirst, m.queryPath = q := by
  have hroot : (documentSet info ds).queryPath = "" := by
    show Path.canonical info.path = ""
    rw [hinfo]
    decide
  rw [mem_suggestions, depthFirst_eq]
  refine and_congr_right fun hne => ?_
  rw [List.exists_mem_cons_iff, hroot, or_iff_right hne.symm]
  rfl

/-- A query of a document set at no path has matches if and only if it is suggested. -/
lemma query_ne_nil_iff_mem_suggestions {info : NodeInfo} (hinfo : info.path = "")
    {ds : List Node} {q : String} : ((documentSet info ds).query q).nodes ≠ [] ↔
      Query.isValid q = true ∧ q ∈ (documentSet info ds).suggestions := by
  rw [documentSet_query_ne_nil_iff, mem_suggestions_documentSet hinfo]

end Node

/-- **The suggestions are an index of the answers.** For every document set at no path a query has
matches if and only if it is suggested. The suggestions are strictly rising, and so are those that
begin with any text; these are the query paths of the nodes of the documents that begin with it.
They are exactly the queries with matches that begin with it if and only if none of them has a
blank part. -/
theorem suggestions_index {info : NodeInfo} (hinfo : info.path = "") (ds : List Node) :
    let root := Node.documentSet info ds
    (∀ q, Query.isValid q = true → ((root.query q).nodes ≠ [] ↔ q ∈ root.suggestions)) ∧
    root.suggestions.Pairwise (· < ·) ∧
    ∀ start, (complete root.suggestions start).Pairwise (· < ·) ∧
      (∀ q, q ∈ complete root.suggestions start ↔
        q ≠ "" ∧ (∃ n ∈ ds.flatMap Node.depthFirst, n.queryPath = q) ∧
          start.toList <+: q.toList) ∧
      ((∀ q, q ∈ complete root.suggestions start ↔
          (root.query q).nodes ≠ [] ∧ start.toList <+: q.toList) ↔
        ∀ q ∈ complete root.suggestions start, ∀ part ∈ splitOn '.' q.toList,
          isBlankText part = false) := by
  intro root
  have hquery : ∀ {q}, (root.query q).nodes ≠ [] ↔
      Query.isValid q = true ∧ q ∈ root.suggestions := Node.query_ne_nil_iff_mem_suggestions hinfo
  have hvalid : ∀ {q}, q ∈ root.suggestions → (Query.isValid q = true ↔
      ∀ part ∈ splitOn '.' q.toList, isBlankText part = false) := by
    intro q hq
    obtain ⟨-, n, -, rfl⟩ := Node.mem_suggestions.mp hq
    exact isValid_iff (hasBracket_queryPath n)
  refine ⟨fun q hq => ?_, root.pairwise_suggestions, fun start => ⟨?_, fun q => ?_, ?_⟩⟩
  · rw [hquery, and_iff_right hq]
  · exact root.pairwise_suggestions.filter _
  · rw [mem_complete, Node.mem_suggestions_documentSet hinfo, and_assoc]
  · constructor
    · intro h q hq
      exact (hvalid (mem_complete.mp hq).1).mp (hquery.mp ((h q).mp hq).1).1
    · intro h q
      rw [hquery, mem_complete, and_assoc]
      refine ⟨fun hq => ⟨?_, hq⟩, And.right⟩
      exact (hvalid hq.1).mpr (h q (mem_complete.mpr hq))

/-- A mapping that is reported at the path of its last entry, and in another document a scalar below
a key of one blank. -/
def danglingMapping : Node :=
  let scalar (path : String) : Node := .scalar { path } none
  let entry (path : String) : Node := .entryOf path (scalar path) (scalar path)
  .documentSetOf
    [.documentOf (some (.mapping { path := "$.a.c" } [entry "$.a.b", entry "$.a.c"])) none 0 1,
      .documentOf (some (scalar "$. ")) none 1 2]

/-- The mapping is suggested at its own place, in front of its entries. -/
theorem suggestions_index_danglingMapping :
    danglingMapping.path = "" ∧ Query.isValid "a" = true ∧ "a" ∈ danglingMapping.suggestions ∧
      (danglingMapping.query "a").nodes.map Found.number = [2] ∧
      "a.b" ∈ complete danglingMapping.suggestions "a." ∧
      (complete danglingMapping.suggestions "a.").Pairwise (· < ·) := by
  obtain ⟨hindex, -, hcomplete⟩ :=
    @suggestions_index { path := "" } rfl danglingMapping.children
  obtain ⟨hrising, hmem, -⟩ := hcomplete "a."
  have hvalid : Query.isValid "a" = true := by decide +kernel
  have hquery : (danglingMapping.query "a").nodes.map Found.number = [2] := by decide +kernel
  refine ⟨rfl, hvalid, (hindex "a" hvalid).mp fun hnil => ?_, hquery, (hmem "a.b").mpr ?_, hrising⟩
  · have hnil' : (danglingMapping.query "a").nodes = [] := hnil
    rw [hnil'] at hquery
    cases hquery
  · have hpath : "a.b" ∈ (danglingMapping.children.flatMap Node.depthFirst).map Node.queryPath := by
      decide +kernel
    exact ⟨by decide, List.mem_map.mp hpath, by decide⟩

/-- The blank key is suggested although no query names its place. -/
theorem suggestions_index_blankKey :
    " " ∈ complete danglingMapping.suggestions "" ∧ (danglingMapping.query " ").nodes = [] := by
  have hpath : " " ∈ danglingMapping.depthFirst.map Node.queryPath := by decide +kernel
  refine ⟨mem_complete.mpr ⟨Node.mem_suggestions.mpr ⟨by decide, List.mem_map.mp hpath⟩,
    List.nil_prefix⟩, ?_⟩
  by_contra h
  exact absurd (Node.documentSet_query_ne_nil_iff.mp h).1 (by decide +kernel)

end YamlNavigator
