import YamlNavigator.Proofs.Document.Address
import YamlNavigator.Proofs.Document.Suggestions

/-!
Which suggestions of an accepted text are answered.

* `isValid_nameOf_iff`: the name of a route is a query if and only if no part of a step is blank;
* `mem_suggestions_iff_exists_route`: the suggestions are the names of routes;
* `suggestions_answered_iff`: in every text that is accepted, suggestions are names of routes and
  are answered but for those with a blank part.
-/

namespace YamlNavigator

open Text Yaml

/-! ### Names that are queries -/

/-- Is a part of the step blank, so that no query names it? -/
def Crossing.hasBlankPart (x : Crossing) : Bool := (splitOn '.' x.dotted).any isBlankText

/-- The name of a route is a query if and only if no part of a step is blank. -/
lemma isValid_nameOf_iff {r : List Crossing} (h : IsNamed r) :
    Query.isValid (nameOf r) = true ↔ ∀ x ∈ r, x.hasBlankPart = false := by
  have hpath : (String.ofList ('$' :: pathOf r)).toList = '$' :: pathOf r := String.toList_ofList
  have hcanonical := (canonical_eq_iff hpath h.nameOf_ne).mpr ⟨h, rfl⟩
  have hbracket : Path.hasBracket (nameOf r).toList = false := by
    rw [← hcanonical, Path.canonical, String.toList_ofList]
    exact hasBracket_canonicalChars _
  have hne : r.map Crossing.dotted ≠ [] := fun hnil => h.1 (List.map_eq_nil_iff.mp hnil)
  rw [isValid_iff hbracket, nameOf, String.toList_ofList, splitOn_joinWith_eq_flatMap hne]
  simp only [List.mem_flatMap, List.mem_map, Crossing.hasBlankPart, List.any_eq_false,
    Bool.not_eq_true]
  constructor
  · exact fun hall x hx part hpart => hall part ⟨x.dotted, ⟨x, hx, rfl⟩, hpart⟩
  · rintro hall part ⟨s, ⟨x, hx, rfl⟩, hpart⟩
    exact hall x hx part hpart

/-! ### Suggested routes -/

/-- The routes to the nodes of the bodies of all documents. -/
def Parsed.routes (d : Parsed) (text : List Char) : List (List Crossing) :=
  d.documents.scopes.flatMap fun scope => scope.node.children.flatMap fun b =>
    (b.routed text []).map Prod.fst

/-- The query paths in a document whose nodes are at their routes are the names of the routes that
have one. -/
lemma exists_queryPath_iff_exists_route {info : NodeInfo} (hinfo : info.path = "") {b : Node}
    {text : List Char} (h : Compose.AtRoutes Compose.rootPath (b.routed text [])) {q : String}
    (hq : q ≠ "") : (∃ m ∈ (Node.document info (some b)).depthFirst, m.queryPath = q) ↔
      ∃ p ∈ b.routed text [], IsNamed p.1 ∧ nameOf p.1 = q := by
  have hdocument : (Node.document info (some b)).queryPath = "" := by
    show Path.canonical info.path = ""
    rw [hinfo]
    decide
  have hpath : ∀ p ∈ b.routed text [], p.2.queryPath = q ↔ IsNamed p.1 ∧ nameOf p.1 = q := by
    intro p hp
    rw [queryPath_of_mem_routed h hp]
    exact canonical_eq_iff (h p.1 p.2 hp) hq
  rw [Node.depthFirst_eq, List.exists_mem_cons_iff, hdocument, or_iff_right hq.symm, Node.children,
    Option.toList_some, List.flatMap_singleton, ← Node.map_snd_routed text b []]
  simp only [List.mem_map, exists_exists_and_eq_and]
  exact exists_congr fun p => and_congr_right (hpath p)

/-- The suggestions of an accepted text are the names of the routes that have one. -/
lemma mem_suggestions_iff_exists_route {source : String} {d : Parsed} (h : parse source = .ok d)
    {q : String} : q ∈ d.documents.suggestions ↔
      ∃ r ∈ d.routes source.toList, IsNamed r ∧ nameOf r = q := by
  obtain ⟨ls, es, rest, -, -, hstream, -, -⟩ := exists_stages_of_parse h
  obtain ⟨ds, hds, htree⟩ := Compose.stream_eq_ok hstream
  have hscopes : d.documents.scopes.map Found.node = ds := by
    rw [htree]
    exact Node.map_node_inRow ds 1
  have hset : q ∈ d.documents.suggestions ↔
      q ≠ "" ∧ ∃ m ∈ ds.flatMap Node.depthFirst, m.queryPath = q := by
    rw [htree]
    exact Node.mem_suggestions_documentSet rfl
  rw [hset, ← hscopes]
  simp only [Parsed.routes, List.mem_flatMap, List.mem_map]
  constructor
  · rintro ⟨hq, m, ⟨c, ⟨scope, hscope, rfl⟩, hm⟩, hpath⟩
    obtain ⟨src, n, es, c, info, htext, hnode, hdocument, hinfo⟩ :=
      exists_body_of_mem_scopes h hscope
    have hroutes := ((Compose.atRoutes_composed src n).node hnode).2
    rw [htext] at hroutes
    rw [hdocument] at hm
    obtain ⟨p, hp, hnamed⟩ :=
      (exists_queryPath_iff_exists_route hinfo hroutes hq).mp ⟨m, hm, hpath⟩
    refine ⟨p.1, ⟨scope, hscope, c.value, ?_, p, hp, rfl⟩, hnamed⟩
    rw [hdocument]
    exact List.mem_singleton_self c.value
  · rintro ⟨r, ⟨scope, hscope, b, hb, p, hp, rfl⟩, hnamed, rfl⟩
    obtain ⟨src, n, es, c, info, htext, hnode, hdocument, hinfo⟩ :=
      exists_body_of_mem_scopes h hscope
    have hroutes := ((Compose.atRoutes_composed src n).node hnode).2
    rw [htext] at hroutes
    rw [hdocument] at hb
    obtain rfl : b = c.value := List.mem_singleton.mp hb
    obtain ⟨m, hm, hpath⟩ := (exists_queryPath_iff_exists_route hinfo hroutes
      hnamed.nameOf_ne).mpr ⟨p, hp, hnamed, rfl⟩
    rw [← hdocument] at hm
    exact ⟨hnamed.nameOf_ne, m, ⟨scope.node, ⟨scope, hscope, rfl⟩, hm⟩, hpath⟩

/-- **Suggestions are answered unless a key has a blank part.** The suggestions of an accepted text
are the names of the routes to its nodes, but for the routes without a name. The name of such a
route is a query and has matches if and only if no part of a step is blank; so all suggestions do if
and only if there is no such part on any of these routes. -/
theorem suggestions_answered_iff {source : String} {d : Parsed} (h : parse source = .ok d) :
    (∀ q, q ∈ d.documents.suggestions ↔
      ∃ r ∈ d.routes source.toList, IsNamed r ∧ nameOf r = q) ∧
    (∀ r ∈ d.routes source.toList, IsNamed r →
      ((Query.isValid (nameOf r) = true ∧ (d.documents.query (nameOf r)).nodes ≠ []) ↔
        ∀ x ∈ r, x.hasBlankPart = false)) ∧
    ((∀ q ∈ d.documents.suggestions,
        Query.isValid q = true ∧ (d.documents.query q).nodes ≠ []) ↔
      ∀ r ∈ d.routes source.toList, IsNamed r → ∀ x ∈ r, x.hasBlankPart = false) := by
  have hsuggested : ∀ q, q ∈ d.documents.suggestions ↔
      ∃ r ∈ d.routes source.toList, IsNamed r ∧ nameOf r = q := fun q =>
    mem_suggestions_iff_exists_route h
  have hanswered : ∀ r ∈ d.routes source.toList, IsNamed r →
      ((Query.isValid (nameOf r) = true ∧ (d.documents.query (nameOf r)).nodes ≠ []) ↔
        ∀ x ∈ r, x.hasBlankPart = false) := by
    intro r hr hnamed
    obtain ⟨ls, es, rest, -, -, hstream, -, -⟩ := exists_stages_of_parse h
    obtain ⟨ds, hds, htree⟩ := Compose.stream_eq_ok hstream
    have hquery : (d.documents.query (nameOf r)).nodes ≠ [] ↔
        Query.isValid (nameOf r) = true ∧ nameOf r ∈ d.documents.suggestions := by
      rw [htree]
      exact Node.query_ne_nil_iff_mem_suggestions rfl
    rw [hquery, and_iff_left ((hsuggested _).mpr ⟨r, hr, hnamed, rfl⟩), and_self,
      isValid_nameOf_iff hnamed]
  refine ⟨hsuggested, hanswered, fun hall r hr hnamed => ?_, fun hall q hq => ?_⟩
  · exact (hanswered r hr hnamed).mp (hall _ ((hsuggested _).mpr ⟨r, hr, hnamed, rfl⟩))
  · obtain ⟨r, hr, hnamed, rfl⟩ := (hsuggested q).mp hq
    exact (hanswered r hr hnamed).mpr (hall r hr hnamed)

/-- A key with an index in brackets is answered, the empty key in a mapping is not. -/
theorem suggestions_answered_iff_emptyKey :
    ∃ d, parse "a[1]:\n  \"\": x\n" = .ok d ∧
      "a.1" ∈ d.documents.suggestions ∧ (d.documents.query "a.1").nodes ≠ [] ∧
      "a.1." ∈ d.documents.suggestions ∧ Query.isValid "a.1." = false := by
  have hroutes : ∃ d, parse "a[1]:\n  \"\": x\n" = .ok d ∧
      (d.routes "a[1]:\n  \"\": x\n".toList).contains [.key "a[1]"] = true ∧
      (d.routes "a[1]:\n  \"\": x\n".toList).contains [.key "a[1]", .key ""] = true := by
    obtain ⟨d, hd, hcheck⟩ := Except.exists_ok_of_any (x := parse "a[1]:\n  \"\": x\n")
      (p := fun d => (d.routes "a[1]:\n  \"\": x\n".toList).contains [.key "a[1]"] &&
        (d.routes "a[1]:\n  \"\": x\n".toList).contains [.key "a[1]", .key ""])
      (by decide +kernel)
    exact ⟨d, hd, (Bool.and_eq_true _ _).mp hcheck⟩
  obtain ⟨d, hd, hkey, hempty⟩ := hroutes
  obtain ⟨hsuggested, hanswered, -⟩ := suggestions_answered_iff hd
  have hkey' := List.contains_iff_mem.mp hkey
  have hempty' := List.contains_iff_mem.mp hempty
  have hname : nameOf [.key "a[1]"] = "a.1" := by decide +kernel
  have hnamed : IsNamed [.key "a[1]"] := by decide +kernel
  have hname' : nameOf [.key "a[1]", .key ""] = "a.1." := by decide +kernel
  have hnamed' : IsNamed [.key "a[1]", .key ""] := by decide +kernel
  have hmatch := (hanswered _ hkey' hnamed).mpr (by decide +kernel)
  rw [hname] at hmatch
  refine ⟨d, hd, (hsuggested _).mpr ⟨_, hkey', hnamed, hname⟩, hmatch.2,
    (hsuggested _).mpr ⟨_, hempty', hnamed', hname'⟩, by decide +kernel⟩

end YamlNavigator
