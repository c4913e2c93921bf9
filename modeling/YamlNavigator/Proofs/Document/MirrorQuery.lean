import YamlNavigator.Proofs.Document.Address
import YamlNavigator.Proofs.Document.MirrorTree
import YamlNavigator.Proofs.Document.Suggestions

/-!
The matches of a query in a text and in its spelling.

* `Path.canonical_eq_iff_of_alike`: paths that are alike have the same query path, unless it holds a
  line feed;
* `Node.rel_findFrom?`: the node that is found in a tree, and the one in the tree of the spelling;
* `Node.forall₂_tokens`: the tokens of corresponding trees correspond;
* `Matches.Twins`, `query_twins`: the matches of a query correspond, with the tokens that they own.
-/

namespace YamlNavigator

open Text Yaml

/-! ### Query paths -/

namespace Path

variable {s ds rest : List Char} {c : Char}

/-- Behind an index is what the text holds besides digits and the closing bracket. -/
lemma mem_of_index? (h : index? s = some (ds, rest)) (hc : c ∈ s) (hdigit : isDigit c = false)
    (hclose : c ≠ ']') : c ∈ rest := by
  rw [index?] at h
  split at h
  · next d ds' rest' _ hrest =>
      obtain ⟨-, rfl⟩ := Prod.mk.inj (Option.some.inj h)
      rw [← List.takeWhile_append_dropWhile (p := isDigit) (l := s), List.mem_append] at hc
      rcases hc with hc | hc
      · rw [List.mem_takeWhile_imp hc] at hdigit
        cases hdigit
      · rw [hrest] at hc
        exact (List.mem_cons.mp hc).resolve_left hclose
  · cases h

/-- A line feed stays when indices are written behind dots. -/
lemma lineFeed_mem_dotIndices (h : '\n' ∈ s) : '\n' ∈ dotIndices s := by
  induction s using dotIndices.induct with
  | case1 => cases h
  | case2 s ds rest hindex _ ih =>
      rw [dotIndices_bracket, hindex]
      have hs := (List.mem_cons.mp h).resolve_left (by decide)
      exact List.mem_append_right _ (ih (mem_of_index? hindex hs rfl (by decide)))
  | case3 s hindex ih =>
      rw [dotIndices_bracket, hindex]
      exact List.mem_cons_of_mem _ (ih ((List.mem_cons.mp h).resolve_left (by decide)))
  | case4 c s hc ih =>
      rw [dotIndices, if_neg hc]
      rcases List.mem_cons.mp h with rfl | hs
      · exact List.mem_cons_self
      · exact List.mem_cons_of_mem c (ih hs)

/-- The query path of a path with a line feed holds a line feed, if there is one. -/
lemma canonicalChars_of_lineFeed (h : '\n' ∈ s) :
    canonicalChars s = [] ∨ '\n' ∈ canonicalChars s := by
  unfold canonicalChars
  split
  · next s =>
      have hs : '\n' ∈ dotIndices s :=
        lineFeed_mem_dotIndices ((List.mem_cons.mp h).resolve_left (by decide))
      dsimp only
      split
      · exact .inl rfl
      · split
        · next tail htail =>
            rw [htail] at hs
            exact .inr ((List.mem_cons.mp hs).resolve_left (by decide))
        · exact .inl rfl
  · exact .inl rfl

/-- Paths that are alike have the same query paths without line feeds. -/
lemma canonical_eq_iff_of_alike {w : Spelling} {p p' q : String}
    (h : w.Alike p.toList p'.toList) (hne : q ≠ "")
    (hq : w.returns = true → '\n' ∉ q.toList) :
    Path.canonical p' = q ↔ Path.canonical p = q := by
  have hnot : w.returns = true → ∀ {r : String}, '\n' ∈ r.toList → Path.canonical r ≠ q := by
    rintro hreturns r hr rfl
    have hfeed := hq hreturns
    rw [Path.canonical, String.toList_ofList] at hfeed
    exact hne (congrArg String.ofList ((canonicalChars_of_lineFeed hr).resolve_right hfeed))
  rcases h with heq | ⟨hreturns, hp, hp'⟩
  · rw [String.toList_injective heq]
  · exact iff_of_false (hnot hreturns hp') (hnot hreturns hp)

end Path

/-! ### Nodes that are found -/

/-- The nodes of the trees that a query looks through have the query paths of their structural
paths. -/
lemma queryPath_of_mem_scopes {source : String} {d : Parsed} (h : parse source = .ok d)
    {scope : Found} (hscope : scope ∈ d.documents.scopes) {n : Node}
    (hn : n ∈ scope.node.depthFirst) : n.queryPath = Path.canonical n.path := by
  obtain ⟨src, k, es, c, info, htext, hnode, hdocument, -⟩ := exists_body_of_mem_scopes h hscope
  rw [hdocument, Node.depthFirst_eq] at hn
  rcases List.mem_cons.mp hn with rfl | hn
  · rfl
  · have hbody : n ∈ c.value.depthFirst := by simpa [Node.children] using hn
    rw [← Node.map_snd_routed source.toList c.value []] at hbody
    obtain ⟨⟨r, m⟩, hmem, rfl⟩ := List.mem_map.mp hbody
    have hroutes := ((Compose.atRoutes_composed src k).node hnode).2
    rw [htext] at hroutes
    exact queryPath_of_mem_routed hroutes hmem

/-- A node of a text and the node of its spelling with the same number. -/
structure Found.Twins (w : Spelling) (s : List Char) (f f' : Found) : Prop where
  number : f'.number = f.number
  node : Node.Twins w s "" "" f.node f'.node

namespace Node

variable {w : Spelling} {s : List Char} {n n' : Node} {q : String}

/-- Corresponding nodes sit at the places of the same queries without line feeds. -/
lemma Twin.sitsAt_eq (h : Twin w s "" "" n n') (hn : n.queryPath = Path.canonical n.path)
    (hn' : n'.queryPath = Path.canonical n'.path) (hq : w.returns = true → '\n' ∉ q.toList) :
    n'.sitsAt q = n.sitsAt q := by
  obtain ⟨p, p', hp, hp', halike⟩ := h.ending
  have hpaths : w.Alike n.path.toList n'.path.toList := by
    rw [hp, hp']
    exact halike
  rw [Bool.eq_iff_iff, sitsAt_iff, sitsAt_iff, hn, hn']
  refine and_congr_right fun _ => and_congr_right fun hne => ?_
  exact Path.canonical_eq_iff_of_alike hpaths hne hq

/-- The nodes of corresponding trees have the same numbers. -/
lemma forall₂_numberedFrom {R : Node → Node → Prop} {ns ns' : List Node}
    (h : List.Forall₂ R ns ns') (first : Nat) :
    List.Forall₂ (fun f f' : Found => f'.number = f.number ∧ R f.node f'.node)
      ((ns.zipIdx first).map fun p => ⟨p.2, p.1⟩) ((ns'.zipIdx first).map fun p => ⟨p.2, p.1⟩) := by
  induction h generalizing first with
  | nil => exact .nil
  | cons hn _ ih =>
      rw [List.zipIdx_cons, List.zipIdx_cons, List.map_cons, List.map_cons]
      exact .cons ⟨rfl, hn⟩ (ih (first + 1))

/-- The nodes that are found in corresponding trees correspond. -/
lemma rel_findFrom? (h : Twins w s "" "" n n')
    (hn : ∀ m ∈ n.depthFirst, m.queryPath = Path.canonical m.path)
    (hn' : ∀ m ∈ n'.depthFirst, m.queryPath = Path.canonical m.path)
    (hq : w.returns = true → '\n' ∉ q.toList) (first : Nat) :
    Option.Rel (Found.Twins w s) (n.findFrom? first q) (n'.findFrom? first q) := by
  have hall := forall₂_numberedFrom (forall₂_mem h.depthFirst) first
  have hfound := rel_find? hall (p := fun f => f.node.sitsAt q) (q := fun f => f.node.sitsAt q)
    fun f f' ⟨_, hf, hmem, hmem'⟩ => by
      obtain ⟨hroot, -⟩ := hf
      exact hroot.sitsAt_eq (hn _ hmem) (hn' _ hmem') hq
  rw [findFrom?_eq_find?, findFrom?_eq_find?, numberedFrom, numberedFrom]
  generalize List.find? _ _ = found at hfound ⊢
  generalize List.find? _ _ = found' at hfound ⊢
  cases hfound with
  | some hf => exact .some ⟨hf.1, hf.2.1⟩
  | none => exact .none

/-- Corresponding trees that follow one another have the same numbers. -/
lemma forall₂_scopes {ds ds' : List Node} (h : List.Forall₂ (Twins w s "" "") ds ds')
    (first : Nat) :
    List.Forall₂ (Found.Twins w s) (inRow first ds) (inRow first ds') := by
  induction h generalizing first with
  | nil => exact .nil
  | cons hd _ ih =>
      rw [inRow, inRow]
      refine .cons ⟨rfl, hd⟩ ?_
      rw [count, count, hd.depthFirst.length_eq]
      exact ih _

/-! ### Tokens of nodes -/

/-- Corresponding tokens are added to corresponding tokens. -/
lemma forall₂_addToken {ts ts' : List Token} {t t' : Token}
    (hts : List.Forall₂ (Token.Twins w s) ts ts') (ht : t.Twins w s t') :
    List.Forall₂ (Token.Twins w s) (addToken ts t) (addToken ts' t') := by
  have hany : (ts'.any fun u => u.index == t'.index) = ts.any fun u => u.index == t.index := by
    induction hts with
    | nil => rfl
    | @cons u u' us us' hu _ ih =>
        have hindex : (u'.index == t'.index) = (u.index == t.index) := by
          rw [hu.index, ht.index, Bool.eq_iff_iff, beq_iff_eq, beq_iff_eq]
          omega
        rw [List.any_cons, List.any_cons, ih, hindex]
  rw [addToken, addToken, hany]
  split
  · exact hts
  · exact List.rel_append hts (.cons ht .nil)

/-- The tokens of corresponding trees correspond. -/
theorem forall₂_tokens (h : Twins w s "" "" n n') :
    List.Forall₂ (Token.Twins w s) n.tokens n'.tokens := by
  have hown : List.Forall₂ (Token.Twins w s) (n.depthFirst.flatMap ownTokens)
      (n'.depthFirst.flatMap ownTokens) := by
    refine List.rel_flatMap h.depthFirst fun m m' hm => ?_
    obtain ⟨hroot, -⟩ := hm
    refine List.rel_append hroot.properties ?_
    have htoken := hroot.token
    generalize m.token = t at htoken ⊢
    generalize m'.token = t' at htoken ⊢
    cases htoken with
    | some ht => exact .cons ht .nil
    | none => exact .nil
  rw [tokens_eq_foldl, tokens_eq_foldl]
  exact List.rel_foldl (R := Token.Twins w s) (P := List.Forall₂ (Token.Twins w s))
    (fun _ _ hts _ _ ht => forall₂_addToken hts ht) .nil hown

end Node

/-! ### Matches -/

/-- The matches of a query in a text and in its spelling: the nodes correspond, and they own tokens
at places that correspond. -/
structure Matches.Twins (w : Spelling) (s : List Char) (m m' : Matches) : Prop where
  nodes : List.Forall₂ (Found.Twins w s) m.nodes m'.nodes
  tokens : m'.tokens = m.tokens.map (· + (w.front.length : Int))
  owners : List.Forall₂ (fun o o' => o'.1 = o.1 + (w.front.length : Int) ∧ o.2.Twins w s o'.2)
    m.owners m'.owners

namespace Matches.Twins

variable {w : Spelling} {s : List Char} {m m' : Matches} {t t' : Token}

/-- Tokens at places that correspond are both highlighted, or neither. -/
lemma highlights_eq (h : m.Twins w s m') (ht : t.Shifted w t') :
    m'.highlights t' = m.highlights t := by
  have hinj : Function.Injective fun i : Int => i + (w.front.length : Int) :=
    fun i j h => (Int.add_left_inj _).mp h
  rw [Matches.highlights, Matches.highlights, h.tokens, ht.index, Bool.eq_iff_iff,
    List.contains_iff_mem, List.contains_iff_mem]
  exact List.mem_map_of_injective hinj

/-- Tokens at places that correspond belong to corresponding nodes. -/
lemma rel_owner? (h : m.Twins w s m') (ht : t.Shifted w t') :
    Option.Rel (Found.Twins w s) (m.owner? t) (m'.owner? t') := by
  rw [Matches.owner?, Matches.owner?, ht.index]
  have howners := h.owners
  generalize m.owners = os at howners
  generalize m'.owners = os' at howners
  induction howners with
  | nil => exact .none
  | @cons o o' os os' ho _ ih =>
      obtain ⟨hindex, hfound⟩ := ho
      have hkey : (t.index + (w.front.length : Int) == o'.1) = (t.index == o.1) := by
        rw [hindex, Bool.eq_iff_iff, beq_iff_eq, beq_iff_eq]
        omega
      rw [List.lookup_cons, List.lookup_cons, hkey]
      cases t.index == o.1 with
      | true => exact .some hfound
      | false => exact ih

/-- Corresponding matches are added. -/
lemma add (h : m.Twins w s m') {f f' : Found} (hf : f.Twins w s f') :
    (m.add f).Twins w s (m'.add f') := by
  refine List.rel_foldl (fun m m' h t t' ht => ?_) ?_ (Node.forall₂_tokens hf.node)
  · rw [h.highlights_eq ht.toShifted]
    split
    · exact h
    · refine ⟨h.nodes, ?_, List.rel_append h.owners (.cons ⟨ht.index, hf⟩ .nil)⟩
      rw [List.map_append, ← h.tokens, List.map_singleton, ht.index]
  · exact ⟨List.rel_append h.nodes (.cons hf .nil), h.tokens, h.owners⟩

end Matches.Twins

/-- **A query finds corresponding nodes** in a text and in its spelling, unless the lines end in
another way and the query holds a line feed. -/
theorem query_twins {w : Spelling} {source source' : String} {d d' : Parsed}
    (h : parse source = .ok d) (h' : parse source' = .ok d') {ds ds' : List Node}
    (hds : d.documents = .documentSetOf ds) (hds' : d'.documents = .documentSetOf ds')
    (htwins : List.Forall₂ (Node.Twins w source.toList "" "") ds ds') {query : String}
    (hquery : w.returns = true → '\n' ∉ query.toList) :
    (d.documents.query query).Twins w source.toList (d'.documents.query query) := by
  have hscopes : List.Forall₂ (Found.Twins w source.toList) d.documents.scopes
      d'.documents.scopes := by
    rw [hds, hds']
    exact Node.forall₂_scopes htwins 1
  have hfound : List.Forall₂ (Found.Twins w source.toList)
      (d.documents.scopes.filterMap fun f => f.node.findFrom? f.number query)
      (d'.documents.scopes.filterMap fun f => f.node.findFrom? f.number query) := by
    refine List.rel_filterMap (fun f f' ⟨hf, hmem, hmem'⟩ => ?_) (forall₂_mem hscopes)
    rw [hf.number]
    exact Node.rel_findFrom? hf.node (fun _ => queryPath_of_mem_scopes h hmem)
      (fun _ => queryPath_of_mem_scopes h' hmem') hquery f.number
  rw [Node.query_eq, Node.query_eq]
  exact List.rel_foldl (fun _ _ h _ _ hf => h.add hf) ⟨.nil, rfl, .nil⟩ hfound

end YamlNavigator
