import Mathlib.Data.List.Find
import YamlNavigator.Proofs.Document.Ownership
import YamlNavigator.Proofs.Document.Placement
import YamlNavigator.Proofs.Document.Suggestions

/-!
Mappings that are reported at the path of their last entry.

A tree may report a mapping at its own path, as composed trees do, or at the path of its last entry.
The last segment of such a path dangles: it is left off before the query path is made. Both ways of
reporting give the same answers unless a last key holds a dot, where only its last part is left off.

* `Node.dangle`: the tree with every mapping reported at the path of its last entry;
* `Node.lastSegment?`: what the path of the last entry of a mapping has behind that of the mapping;
* `Path.trimLast_append`: a segment without dots is left off, and nothing else;
* `Node.queryPath_dangle`: a mapping keeps its query path;
* `Found.dangle`, `Matches.dangle`: what was found in a tree, as it is found in the dangling tree;
* `Node.findFrom?_dangle`, `Node.query_dangle`, `Node.suggestions_dangle`: trees whose nodes keep
  their query paths answer alike;
* `dangling_answers_alike`: composed trees do.
-/

namespace YamlNavigator

open Text Yaml

/-! ### Dangling paths -/

namespace Node

mutual

/-- The tree in which every mapping with entries is reported at the path of its last entry. -/
def dangle : Node → Node
  | documentSet i ds => documentSet i (dangleAll ds)
  | document i b => document i (dangleOption b)
  | mapping i es =>
      mapping { i with path := (es.getLast?.map path).getD i.path } (dangleAll es)
  | mappingEntry i k v => mappingEntry i (dangleOption k) (dangleOption v)
  | sequence i xs => sequence i (dangleAll xs)
  | scalar i v => scalar i v
  | reference i v => reference i v

/-- The trees with dangling mappings. -/
def dangleAll : List Node → List Node
  | [] => []
  | n :: ns => dangle n :: dangleAll ns

/-- The tree, if there is one, with dangling mappings. -/
def dangleOption : Option Node → Option Node
  | none => none
  | some n => some (dangle n)

end

/-- The last key segment of a mapping: what the path of its last entry has behind the path of the
mapping and a dot. -/
def lastSegment? : Node → Option (List Char)
  | mapping info entries => entries.getLast?.map fun e => e.path.toList.drop (info.path.length + 1)
  | _ => none

/-- The trees of a list dangle one by one. -/
lemma dangleAll_eq_map : ∀ ns : List Node, dangleAll ns = ns.map dangle
  | [] => rfl
  | n :: ns => by rw [dangleAll, dangleAll_eq_map ns, List.map_cons]

/-- The nodes below a dangling node are the dangling nodes below it. -/
lemma children_dangle (n : Node) : n.dangle.children = n.children.map dangle := by
  cases n with
  | documentSet i ds => exact dangleAll_eq_map ds
  | document i b => cases b <;> rfl
  | mapping i es => exact dangleAll_eq_map es
  | mappingEntry i k v => cases k <;> cases v <;> rfl
  | sequence i xs => exact dangleAll_eq_map xs
  | scalar i v => rfl
  | reference i v => rfl

/-- The nodes of a dangling tree are its dangling nodes, at the same places. -/
theorem depthFirst_dangle (n : Node) : n.dangle.depthFirst = n.depthFirst.map dangle := by
  induction n using children_induction with
  | step n ih =>
      rw [depthFirst_eq, depthFirst_eq, children_dangle, List.map_cons, List.flatMap_map,
        List.map_flatMap]
      congr 1
      exact List.flatMap_congr ih

/-- A dangling node owns the tokens that it owned. -/
@[simp]
lemma ownTokens_dangle (n : Node) : n.dangle.ownTokens = n.ownTokens := by
  cases n <;> rfl

/-- A dangling tree owns the tokens that it owned. -/
@[simp]
lemma tokens_dangle (n : Node) : n.dangle.tokens = n.tokens := by
  rw [tokens_eq_foldl, tokens_eq_foldl, depthFirst_dangle, List.flatMap_map]
  simp only [ownTokens_dangle]

/-- A dangling tree has as many nodes as before. -/
@[simp]
lemma count_dangle (n : Node) : n.dangle.count = n.count := by
  rw [count, count, depthFirst_dangle, List.length_map]

end Node

/-! ### Query paths -/

namespace Path

/-- A last segment without dots is left off with the dot in front of it. -/
lemma trimLast_append {p s : List Char} (hs : '.' ∉ s) : trimLast (p ++ '.' :: s) = p := by
  have hskip : ∀ c ∈ s.reverse, (c != '.') = true := by
    intro c hc
    refine bne_iff_ne.mpr ?_
    rintro rfl
    exact hs (List.mem_reverse.mp hc)
  have hrest : (p ++ '.' :: s).reverse.dropWhile (· != '.') = '.' :: p.reverse := by
    rw [List.reverse_append, List.reverse_cons, List.append_assoc,
      List.dropWhile_append_of_pos hskip]
    rfl
  rw [trimLast, hrest]
  exact List.reverse_reverse p

end Path

namespace Node

variable {src : Source} {b : Anchors} {n : Node}

/-- The path of the last entry is that of the mapping with a dot and the last segment behind it, if
the mapping extends its path. An entry does not dangle itself. -/
lemma ExtendsPath.last {info : NodeInfo} {es : List Node} {e : Node}
    (h : (mapping info es).ExtendsPath src b) (he : es.getLast? = some e) :
    e.dangle.path = e.path ∧ ∃ s, (mapping info es).lastSegment? = some s ∧
      e.path.toList = info.path.toList ++ '.' :: s := by
  have hindex : es[es.length - 1]? = some e := by rw [← List.getLast?_eq_getElem?, he]
  obtain ⟨path, k, v, rfl, hpath, -, -⟩ := h _ e hindex
  refine ⟨rfl, path.toList.drop (info.path.length + 1), ?_, ?_⟩
  · rw [lastSegment?, he]
    rfl
  · show path.toList = _
    rw [hpath, String.toList_append, String.toList_append, List.append_assoc,
      ← String.length_toList, List.drop_append]
    simp

/-- A node keeps its query path if the last segment of a mapping holds no dot: the segment that
dangles is left off, and a mapping at its own path is left alone. -/
theorem queryPath_dangle (h : n.ExtendsPath src b)
    (hplain : ∀ s ∈ n.lastSegment?, '.' ∉ s) : n.dangle.queryPath = n.queryPath := by
  cases n with
  | mapping info es =>
      cases he : es.getLast? with
      | none =>
          rw [List.getLast?_eq_none_iff] at he
          subst he
          rfl
      | some e =>
          obtain ⟨hdangle, s, hs, hpath⟩ := h.last he
          have hne : info.path ≠ e.path := by
            intro heq
            rw [← heq] at hpath
            exact absurd (congrArg List.length hpath) (by simp)
          have hlast : (dangleAll es).getLast? = some e.dangle := by
            rw [dangleAll_eq_map, List.getLast?_map, he, Option.map_some]
          have htrim : String.ofList (Path.trimLast e.path.toList) = info.path := by
            rw [hpath, Path.trimLast_append (hplain s hs), String.ofList_toList]
          simp only [dangle, queryPath, hlast, he, hdangle, if_neg hne, Option.map_some,
            Option.getD_some, if_true, htrim]
  | _ => rfl

end Node

namespace Compose

/-- Every node of a composed tree extends its path. -/
lemma exists_extendsPath {src : Source} {es behind : List Event} {tree n : Node}
    (h : stream src es = .ok (tree, behind)) (hn : n ∈ tree.depthFirst) :
    ∃ b, n.ExtendsPath src b := by
  obtain ⟨ds, hds, rfl⟩ := stream_eq_ok h
  rw [Node.depthFirst_eq] at hn
  rcases List.mem_cons.mp hn with rfl | hn
  · exact ⟨[], trivial⟩
  · obtain ⟨d, hd, hn⟩ := List.mem_flatMap.mp hn
    obtain ⟨first, rest, more, body, last, hrun⟩ := exists_body_of_mem_documents hds d hd
    rw [hrun.node_eq, Node.depthFirst_eq] at hn
    rcases List.mem_cons.mp hn with rfl | hn
    · exact ⟨[], trivial⟩
    · have hbody : n ∈ body.value.depthFirst := by simpa [Node.documentOf, Node.children] using hn
      obtain ⟨b, hreaches⟩ := Node.exists_reaches body.value (a := []) hbody
      have hroutes := ((atRoutes_composed src _).node hrun.body_eq).2
      rw [← path_of_node hrun.body_eq] at hroutes
      obtain ⟨hroutes, hpairs⟩ := hreaches.atRoutes hroutes ((paired src _).node hrun.body_eq)
      exact ⟨b, Node.extendsPath hroutes hpairs⟩

end Compose

/-! ### Answers -/

/-- What was found in a tree, in the dangling tree. -/
def Found.dangle (f : Found) : Found := { f with node := f.node.dangle }

/-- The matches of a query, in the dangling tree: the same places, tokens and owners. -/
def Matches.dangle (m : Matches) : Matches :=
  { m with
    nodes := m.nodes.map Found.dangle
    owners := m.owners.map fun o => (o.1, o.2.dangle) }

/-- A match is added to dangling matches as it was to the others. -/
lemma Matches.add_dangle (m : Matches) (f : Found) : m.dangle.add f.dangle = (m.add f).dangle := by
  have hstep : ∀ (m : Matches) (t : Token),
      (if m.dangle.highlights t then m.dangle
        else { m.dangle with
          tokens := m.dangle.tokens ++ [t.index]
          owners := m.dangle.owners ++ [(t.index, f.dangle)] }) =
        (if m.highlights t then m
          else { m with
            tokens := m.tokens ++ [t.index]
            owners := m.owners ++ [(t.index, f)] }).dangle := by
    intro m t
    have hsame : m.dangle.highlights t = m.highlights t := rfl
    rw [hsame]
    split
    · rfl
    · simp only [dangle, List.map_append, List.map_singleton]
  have htokens : f.dangle.node.tokens = f.node.tokens := Node.tokens_dangle f.node
  have hnodes : { m.dangle with nodes := m.dangle.nodes ++ [f.dangle] } =
      { m with nodes := m.nodes ++ [f] }.dangle := by
    simp only [dangle, List.map_append, List.map_singleton]
  rw [add, add, htokens, hnodes]
  exact List.foldl_hom dangle hstep

namespace Node

variable {n : Node}

/-- A tree keeps its query paths if every node of it does. -/
def KeepsQueryPaths (n : Node) : Prop :=
  ∀ m ∈ n.depthFirst, m.dangle.queryPath = m.queryPath

/-- The nodes of a dangling tree have the same numbers. -/
lemma numberedFrom_dangle (n : Node) (first : Nat) :
    n.dangle.numberedFrom first = (n.numberedFrom first).map Found.dangle := by
  rw [numberedFrom, numberedFrom, depthFirst_dangle, List.zipIdx_map, List.map_map, List.map_map]
  rfl

/-- The node that is found in a dangling tree is the one that was found, at the same place. -/
theorem findFrom?_dangle (h : n.KeepsQueryPaths) (first : Nat) (q : String) :
    n.dangle.findFrom? first q = (n.findFrom? first q).map Found.dangle := by
  rw [findFrom?_eq_find?, findFrom?_eq_find?, numberedFrom_dangle, List.find?_map]
  congr 1
  refine List.find?_congr fun f hf => ?_
  obtain ⟨⟨m, i⟩, hm, rfl⟩ := List.mem_map.mp hf
  show m.dangle.sitsAt q = m.sitsAt q
  rw [sitsAt, sitsAt, h m (List.fst_mem_of_mem_zipIdx hm)]

/-- Documents that follow one another are looked through at the same places. -/
lemma inRow_dangle (ds : List Node) (first : Nat) :
    inRow first (ds.map dangle) = (inRow first ds).map Found.dangle := by
  induction ds generalizing first with
  | nil => rfl
  | cons d ds ih =>
      rw [List.map_cons, inRow, inRow, count_dangle, ih]
      rfl

/-- The trees that a query looks through in a dangling tree are at the same places. -/
lemma scopes_dangle (n : Node) : n.dangle.scopes = n.scopes.map Found.dangle := by
  cases n with
  | documentSet i ds =>
      show inRow 1 (dangleAll ds) = _
      rw [dangleAll_eq_map]
      exact inRow_dangle ds 1
  | _ => rfl

/-- The trees that a query looks through are parts of the tree. -/
lemma KeepsQueryPaths.of_mem_scopes (h : n.KeepsQueryPaths) {s : Found} (hs : s ∈ n.scopes) :
    s.node.KeepsQueryPaths := by
  cases n with
  | documentSet i ds =>
      intro m hm
      refine h m ?_
      rw [depthFirst_eq]
      exact List.mem_cons_of_mem _ (List.mem_flatMap.mpr ⟨s.node, mem_of_mem_inRow hs, hm⟩)
  | _ =>
      rw [List.mem_singleton.mp hs]
      exact h

/-- A query of a dangling tree has the same matches, with the same tokens and owners. -/
theorem query_dangle (h : n.KeepsQueryPaths) (q : String) :
    n.dangle.query q = (n.query q).dangle := by
  have hfound : (n.dangle.scopes.filterMap fun s => s.node.findFrom? s.number q) =
      (n.scopes.filterMap fun s => s.node.findFrom? s.number q).map Found.dangle := by
    rw [scopes_dangle, List.filterMap_map, List.map_filterMap]
    refine List.filterMap_congr fun s hs => ?_
    exact findFrom?_dangle (h.of_mem_scopes hs) s.number q
  calc n.dangle.query q
      = ((n.scopes.filterMap fun s => s.node.findFrom? s.number q).map Found.dangle).foldl
          Matches.add (Matches.dangle { path := q }) := by rw [query_eq, hfound]; rfl
    _ = (n.scopes.filterMap fun s => s.node.findFrom? s.number q).foldl
          (fun m f => m.add f.dangle) (Matches.dangle { path := q }) := List.foldl_map
    _ = ((n.scopes.filterMap fun s => s.node.findFrom? s.number q).foldl Matches.add
          { path := q }).dangle := List.foldl_hom Matches.dangle Matches.add_dangle
    _ = (n.query q).dangle := by rw [query_eq]

/-- A dangling tree has the same suggestions. -/
theorem suggestions_dangle (h : n.KeepsQueryPaths) : n.dangle.suggestions = n.suggestions := by
  have hpaths : n.dangle.depthFirst.map queryPath = n.depthFirst.map queryPath := by
    rw [depthFirst_dangle, List.map_map]
    exact List.map_congr_left h
  rw [suggestions, suggestions, hpaths]

end Node

/-- **Both ways of reporting mappings answer alike.** Take a composed tree in which the last segment
of no mapping holds a dot. Reported at the paths of their last entries, the nodes stand at the same
places and have the same query paths. In the whole tree and in every tree below one of its nodes,
every query finds the same place and has the same matches, tokens and owners, and the suggestions
are the same. -/
theorem dangling_answers_alike {src : Source} {es behind : List Event} {tree : Node}
    (h : Compose.stream src es = .ok (tree, behind))
    (hplain : ∀ n ∈ tree.depthFirst, ∀ s ∈ n.lastSegment?, '.' ∉ s) :
    tree.dangle.depthFirst = tree.depthFirst.map Node.dangle ∧
      (∀ n ∈ tree.depthFirst, n.dangle.queryPath = n.queryPath) ∧
      ∀ n ∈ tree.depthFirst, n.dangle.suggestions = n.suggestions ∧
        ∀ q, n.dangle.find? q = (n.find? q).map Found.dangle ∧
          n.dangle.query q = (n.query q).dangle := by
  have hkeeps : tree.KeepsQueryPaths := by
    intro n hn
    obtain ⟨b, hextends⟩ := Compose.exists_extendsPath h hn
    exact Node.queryPath_dangle hextends (hplain n hn)
  have hbelow : ∀ n ∈ tree.depthFirst, n.KeepsQueryPaths := by
    intro n hn m hm
    exact hkeeps m (Node.mem_depthFirst_trans hm tree hn)
  refine ⟨tree.depthFirst_dangle, hkeeps, fun n hn => ⟨Node.suggestions_dangle (hbelow n hn), ?_⟩⟩
  intro q
  exact ⟨Node.findFrom?_dangle (hbelow n hn) 0 q, Node.query_dangle (hbelow n hn) q⟩

/-- Below a key with a dot and an index, a mapping whose last key has brackets, and in it a mapping
that repeats its last key. -/
theorem dangling_answers_alike_repeatedKey :
    ∃ src es behind tree, Compose.stream src es = .ok (tree, behind) ∧
      (∀ n ∈ tree.depthFirst, ∀ s ∈ n.lastSegment?, '.' ∉ s) ∧
      ((tree.depthFirst.filter fun n => n.kind = .mapping).map fun n => (n.path, n.dangle.path)) =
        [("$", "$.e"), ("$.a.b[0]", "$.a.b[0].[k]"), ("$.a.b[0].[k]", "$.a.b[0].[k].d")] ∧
      tree.dangle.find? "a.b.0" = (tree.find? "a.b.0").map Found.dangle ∧
      (tree.dangle.query "a.b.0").nodes.map Found.number = [6] ∧
      tree.dangle.suggestions = tree.suggestions := by
  obtain ⟨d, hd, hcheck⟩ := Except.exists_ok_of_any
    (x := parse "a.b:\n- '[k]':\n    d: 1\n    d: 2\ne: 3\n") (p := fun d =>
      decide (∀ n ∈ d.documents.depthFirst, ∀ s ∈ n.lastSegment?, '.' ∉ s) &&
        ((d.documents.depthFirst.filter fun n => n.kind = .mapping).map
          fun n => (n.path, n.dangle.path)) ==
          [("$", "$.e"), ("$.a.b[0]", "$.a.b[0].[k]"), ("$.a.b[0].[k]", "$.a.b[0].[k].d")] &&
        (d.documents.query "a.b.0").nodes.map Found.number == [6]) (by decide +kernel)
  rw [Bool.and_eq_true, Bool.and_eq_true, decide_eq_true_eq, beq_iff_eq, beq_iff_eq] at hcheck
  obtain ⟨⟨hplain, hpaths⟩, hmatch⟩ := hcheck
  obtain ⟨ls, es, behind, -, -, hstream, -, -⟩ := exists_stages_of_parse hd
  obtain ⟨-, -, hanswers⟩ := dangling_answers_alike hstream hplain
  obtain ⟨hsuggestions, hqueries⟩ :=
    hanswers d.documents (Node.depthFirst_eq _ ▸ List.mem_cons_self)
  obtain ⟨hfind, hquery⟩ := hqueries "a.b.0"
  refine ⟨_, es, behind, d.documents, hstream, hplain, hpaths, hfind, ?_, hsuggestions⟩
  rw [hquery, ← hmatch, Matches.dangle, List.map_map]
  rfl

end YamlNavigator
