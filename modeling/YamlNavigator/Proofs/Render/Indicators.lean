import Mathlib.Data.List.Infix
import YamlNavigator.Proofs.Document.Address
import YamlNavigator.Proofs.Document.Neighbours
import YamlNavigator.Render.Category

/-!
Which hyphens, question marks and colons are highlighted.

* `IsRead`: what is known of an accepted text: its units, its documents, and how these were read;
* `IsRead.exists_owner`: a highlighted token belongs to a node in a match;
* `IsRead.introduces_or_borrows`: a node that owns the first unit behind an indicator is introduced
  by the indicator, or it borrows that unit from in front of it;
* `highlight_iff_of_introduces`: when an indicator that introduces a node in a match is highlighted;
* `highlight_iff_introduces_or_borrows`: when any other indicator is.
-/

namespace YamlNavigator

open Yaml Grammar

/-- A node of a tree is the root, or smaller. -/
lemma Node.eq_or_sizeOf_lt (n : Node) : ∀ v ∈ n.depthFirst, v = n ∨ sizeOf v < sizeOf n := by
  induction n using Node.children_induction with
  | step n ih =>
      intro v hv
      rw [Node.depthFirst_eq] at hv
      rcases List.mem_cons.mp hv with rfl | hv
      · exact .inl rfl
      · obtain ⟨c, hc, hv⟩ := List.mem_flatMap.mp hv
        have hlt := Node.sizeOf_lt_of_mem_children hc
        rcases ih c hc v hv with rfl | hvc
        · exact .inr hlt
        · exact .inr (Nat.lt_trans hvc hlt)

/-- Nodes of each other's trees are the same. -/
lemma Node.eq_of_mem_depthFirst {v w : Node} (h : v ∈ w.depthFirst) (h' : w ∈ v.depthFirst) :
    v = w := by
  rcases w.eq_or_sizeOf_lt v h with heq | hlt
  · exact heq
  · rcases v.eq_or_sizeOf_lt w h' with heq | hlt'
    · exact heq.symm
    · exact absurd hlt (Nat.lt_asymm hlt')

/-- A match is a node of the tree. -/
lemma Node.mem_depthFirst_of_mem_query {n : Node} {q : String} {f : Found}
    (h : f ∈ (n.query q).nodes) : f.node ∈ n.depthFirst := by
  rw [Node.nodes_query] at h
  obtain ⟨scope, hscope, hfind⟩ := List.mem_filterMap.mp h
  refine Node.mem_depthFirst_trans (Node.findFrom?_range hfind).1 n ?_
  cases n with
  | documentSet info ds => exact Node.mem_depthFirst_of_mem_children (Node.mem_of_mem_inRow hscope)
  | _ =>
      rw [List.mem_singleton.mp hscope, Node.depthFirst_eq]
      exact List.mem_cons_self

/-- What is known of an accepted text: its units and its documents, each of which holds a body whose
nodes settle and owns tokens of units only. -/
structure IsRead (source : String) (d : Parsed) (ls : List Lexeme) (ds : List Node) : Prop where
  scan : Lexeme.scan source.toList = .ok ls
  tokens : d.tokens = Stream.ofTiles (LineTable.ofText source.toList) (tiles source.toList ls)
  documents : d.documents = .documentSetOf ds
  bodies : ∀ c ∈ ds, ∃ body, Compose.HasBody ⟨source.toList, unitsOf source.toList ls⟩ c body
  sourced : ∀ c ∈ ds, ∀ t ∈ c.owned, ∃ l, (l, t) ∈ unitsOf source.toList ls

/-- Every accepted text is read. -/
lemma exists_isRead {source : String} {d : Parsed} (h : parse source = .ok d) :
    ∃ ls ds, IsRead source d ls ds := by
  obtain ⟨ls, ds, hls, htokens, htree, hbodies, -⟩ := exists_settled_of_parse h
  obtain ⟨ls', ds', hls', -, htree', hcomplete⟩ := exists_complete_of_parse h
  obtain rfl : ls = ls' := Except.ok.inj (hls.symm.trans hls')
  obtain rfl : ds = ds' := by
    rw [htree, Node.documentSetOf, Node.documentSetOf, Node.documentSet.injEq] at htree'
    exact htree'.2
  exact ⟨ls, ds, hls, htokens, htree, hbodies, fun c hc => (hcomplete c hc).2⟩

namespace IsRead

variable {source : String} {d : Parsed} {ls : List Lexeme} {ds : List Node} {q : String} {f : Found}
variable {v : Node} {t : Token} {u : Lexeme × Token} {front back : List (Lexeme × Token)}

/-- The units are those of a stream. -/
lemma isStream (h : IsRead source d ls ds) :
    IsStream ((unitsOf source.toList ls).map Prod.fst) := by
  rw [map_fst_unitsOf]
  exact isStream_of_cover (cover_of_scan h.scan)

/-- The nodes of the tree are the set of the documents, the documents, and those of their bodies. -/
lemma mem_depthFirst (h : IsRead source d ls ds) (hv : v ∈ d.documents.depthFirst) :
    v = .documentSetOf ds ∨ (∃ info body, v = .document info body) ∨
      ∃ c ∈ ds, ∃ body, Compose.HasBody ⟨source.toList, unitsOf source.toList ls⟩ c body ∧
        v ∈ body.depthFirst := by
  rw [h.documents, Node.depthFirst_eq] at hv
  rcases List.mem_cons.mp hv with rfl | hv
  · exact .inl rfl
  obtain ⟨c, hc, hv⟩ := List.mem_flatMap.mp hv
  obtain ⟨body, hbody⟩ := h.bodies c hc
  rcases hbody.mem_depthFirst hv with rfl | hv
  · obtain ⟨info, heq, -⟩ := hbody.eq
    exact .inr (.inl ⟨info, _, heq⟩)
  · exact .inr (.inr ⟨c, hc, body, hbody, hv⟩)

/-- Units lead to the children of all nodes. -/
lemma led (h : IsRead source d ls ds) (hv : v ∈ d.documents.depthFirst) :
    Led ⟨source.toList, unitsOf source.toList ls⟩ v := by
  rcases h.mem_depthFirst hv with rfl | ⟨info, body, rfl⟩ | ⟨c, -, body, hbody, hv⟩
  · intro before x content hrole
    cases hrole
  · intro before x content hrole
    cases hrole
  · exact (hbody.settled v hv).led

/-- A match is a node of a document. -/
lemma exists_document (h : IsRead source d ls ds) (hf : f ∈ (d.documents.query q).nodes) :
    ∃ c ∈ ds, f.node ∈ c.depthFirst ∧ f.node.sitsAt q = true := by
  rw [Node.nodes_query, h.documents] at hf
  obtain ⟨scope, hscope, hfind⟩ := List.mem_filterMap.mp hf
  obtain ⟨hmem, hsits, -⟩ := Node.findFrom?_range hfind
  exact ⟨scope.node, Node.mem_of_mem_inRow hscope, hmem, hsits⟩

/-- The nodes of a match have roles in the tree. -/
lemma hasRole (h : IsRead source d ls ds) (hf : f ∈ (d.documents.query q).nodes)
    (hv : v ∈ f.node.depthFirst) : HasRole d.documents v ∧ Shaped v := by
  obtain ⟨c, hc, hmem, hsits⟩ := h.exists_document hf
  obtain ⟨body, hbody⟩ := h.bodies c hc
  obtain ⟨info, rfl, hinfo, -⟩ := hbody.eq
  -- neither the document nor its body is a match
  have hfbody : f.node ∈ body.depthFirst := by
    rcases hbody.mem_depthFirst hmem with hdocument | hmem
    · rw [hdocument, sitsAt_document hinfo] at hsits
      cases hsits
    · exact hmem
  have hne : f.node ≠ body := by
    rintro heq
    rw [heq, Compose.sitsAt_rootPath hbody.path] at hsits
    cases hsits
  have hvbody := Node.mem_depthFirst_trans hv body hfbody
  have hshaped : ∀ p ∈ body.depthFirst, Shaped p := fun p hp => (hbody.settled p hp).shaped
  refine ⟨?_, hshaped v hvbody⟩
  have htree : body ∈ d.documents.depthFirst := by
    have hchild : body ∈ (Node.document info (some body)).children := List.mem_singleton_self body
    refine Node.mem_depthFirst_trans (Node.mem_depthFirst_of_mem_children hchild) _ ?_
    rw [h.documents]
    exact Node.mem_depthFirst_of_mem_children hc
  rcases hasRole_of_mem body hshaped v hvbody with rfl | hrole | ⟨info, value, heq⟩
  · exact absurd (Node.eq_of_mem_depthFirst hfbody hv) hne
  · exact hrole.mono htree
  · rw [heq] at hbody
    exact absurd rfl hbody.kind

/-- What a node in a match owns is highlighted. -/
lemma highlights_of_owns (hf : f ∈ (d.documents.query q).nodes) (hv : v ∈ f.node.depthFirst)
    (ht : t ∈ v.ownTokens) : (d.documents.query q).highlights t = true := by
  obtain ⟨w, hw, hindex⟩ := Node.exists_mem_tokens (List.mem_flatMap.mpr ⟨v, hv, ht⟩)
  exact (Node.highlights_query _ q t).mpr ⟨f, hf, w, hw, hindex⟩

/-- A highlighted token has the place of a unit that a node in a match owns. -/
lemma exists_owner (h : IsRead source d ls ds) (ht : (d.documents.query q).highlights t = true) :
    ∃ f ∈ (d.documents.query q).nodes, ∃ v ∈ f.node.depthFirst, ∃ u ∈ unitsOf source.toList ls,
      u.2 ∈ v.ownTokens ∧ u.2.index = t.index := by
  obtain ⟨f, hf, w, hw, hindex⟩ := (Node.highlights_query _ q t).mp ht
  obtain ⟨v, hv, hwv⟩ := List.mem_flatMap.mp (Node.mem_owned_of_mem_tokens hw)
  obtain ⟨c, hc, hmem, -⟩ := h.exists_document hf
  obtain ⟨l, hl⟩ := h.sourced c hc w
    (List.mem_flatMap.mpr ⟨v, Node.mem_depthFirst_trans hv c hmem, hwv⟩)
  exact ⟨f, hf, v, hv, (l, w), hl, hwv, hindex⟩

/-- If a node with a role owns the first unit behind an indicator, then the indicator introduces the
node, or the node borrows that unit from in front of it. -/
lemma introduces_or_borrows (h : IsRead source d ls ds) {p c : Node} {before : List Node}
    {content : Content} {w : Lexeme × Token} (hp : p ∈ d.documents.depthFirst)
    (hrole : Role p before c content) (hunits : unitsOf source.toList ls = front ++ u :: w :: back)
    (hu : u.1.isIndicator = true) (hw : w.2 ∈ c.ownTokens) :
    Introduces d.documents u.1 c ∨ Borrows (unitsOf source.toList ls) w c := by
  have hL := h.isStream
  have hnum := numbered_unitsOf source.toList ls
  rcases h.led hp before c content hrole with
    ⟨front', lead, us, hlead⟩ | ⟨pre, us, hstands, hblank, -⟩
  · have hlast : ∀ z ∈ (front' ++ [lead]).getLast?, z.1.isEmpty = true → z.1.content = .key := by
      intro z hz hempty
      rw [List.getLast?_concat, Option.mem_some_iff] at hz
      subst hz
      exact hlead.content_of_isEmpty hL hrole hempty
    rcases hlead.stands.front_or_borrows hL hnum hunits (Lexeme.isEmpty_of_isIndicator hu)
      (Lexeme.isProperty_of_isIndicator hu) hlast hw with ⟨hpre, -⟩ | hborrows
    · obtain rfl := List.singleton_inj.mp (List.append_inj_right' hpre rfl)
      exact .inl (hlead.introduces hp hrole hu)
    · exact .inr hborrows
  · right
    refine hstands.borrows_of_isBlank hL hnum hblank ?_ hw
    show w ∈ unitsOf source.toList ls
    rw [hunits]
    simp

/-- Hyphens, question marks and colons are the tokens of indicators. -/
lemma exists_indicator (h : IsRead source d ls ds) (ht : t ∈ d.tokens.tokens)
    (hkind : t.kind.isBlockStructure = true) :
    ∃ l, (l, t) ∈ unitsOf source.toList ls ∧ l.isIndicator = true := by
  rw [h.tokens] at ht
  exact exists_unit_of_isBlockStructure (cover_of_scan h.scan) ht hkind

/-- The tokens of indicators are hyphens, question marks and colons. -/
lemma isBlockStructure (h : IsRead source d ls ds) (hu : u ∈ unitsOf source.toList ls)
    (hind : u.1.isIndicator = true) : u.2.kind.isBlockStructure = true := by
  have hcover := cover_of_scan h.scan
  have hmem : u.1 ∈ ls := map_fst_unitsOf source.toList ls ▸ List.mem_map_of_mem hu
  obtain ⟨i, hi⟩ := exists_place_of_mem_unitsOf hu
  rw [(eq_of_mem_unitsOf hcover (Array.mem_of_getElem? hi) hu rfl).2,
    isBlockStructure_ofLexeme (hcover.isSound u.1 hmem), hind]

/-- A comment is not highlighted. -/
lemma kind_ne_comment (h : IsRead source d ls ds) (hmem : t ∈ d.tokens.tokens)
    (ht : (d.documents.query q).highlights t = true) : t.kind ≠ .comment := by
  obtain ⟨f, -, v, -, u, hu, -, hindex⟩ := h.exists_owner ht
  rw [h.tokens] at hmem
  rw [(eq_of_mem_unitsOf (cover_of_scan h.scan) hmem hu hindex).2]
  exact ofLexeme_ne_comment u.1

/-- Behind the token of a unit stands one of the stream. -/
lemma next_eq (h : IsRead source d ls ds) (hu : u ∈ unitsOf source.toList ls) :
    ∃ next, d.tokens.next u.2 = .ok next ∧
      ∀ w ∈ next, w ∈ d.tokens.tokens ∧ w.index = u.2.index + 1 := by
  obtain ⟨i, hi⟩ := exists_place_of_mem_unitsOf hu
  rw [← h.tokens] at hi
  refine ⟨_, Stream.next_of_isIndexed d.isIndexed hi, fun w hw => ⟨Array.mem_of_getElem? hw, ?_⟩⟩
  rw [d.isIndexed _ _ hi, d.isIndexed _ _ hw]
  omega

/-- If the unit behind an indicator is highlighted and no comment stands between, the token behind
the indicator is highlighted. -/
lemma exists_next (h : IsRead source d ls ds)
    (hunits : unitsOf source.toList ls = front ++ u :: back) {next : Option Token}
    (hnext : d.tokens.next u.2 = .ok next)
    (hcomment : next.map (·.kind) ≠ some .comment) {w : Lexeme × Token}
    {back' : List (Lexeme × Token)} (hback : back = w :: back') (hend : w.1.content ≠ .streamEnd)
    (hw : (d.documents.query q).highlights w.2 = true) :
    ∃ x ∈ next, (d.documents.query q).highlights x = true := by
  subst hback
  obtain ⟨x, hx, hkind⟩ := next_of_units hunits hend
  rw [← h.tokens, hnext, Except.ok.injEq] at hx
  subst hx
  rcases hkind with hkind | rfl
  · exact absurd (congrArg some hkind) hcomment
  · exact ⟨_, rfl, hw⟩

/-- An indicator that introduces a node in a match is highlighted, or the unit behind it is. -/
lemma highlights_or_next (h : IsRead source d ls ds) {c : Node}
    (hf : f ∈ (d.documents.query q).nodes) (hc : c ∈ f.node.depthFirst)
    (hu : u ∈ unitsOf source.toList ls) (hintroduces : Introduces d.documents u.1 c) :
    (d.documents.query q).highlights u.2 = true ∨ ∃ front w back,
      unitsOf source.toList ls = front ++ u :: w :: back ∧ w.1.content ≠ .streamEnd ∧
        (d.documents.query q).highlights w.2 = true := by
  have hind := hintroduces.1
  obtain ⟨front, us, hstands⟩ := Led.stands_of_introduces (fun p hp => h.led hp) hu hintroduces
  rcases hstands.owns_front h.isStream (Lexeme.isEmpty_of_isIndicator hind)
    (Lexeme.leadsItem_of_isIndicator hind) with howns | ⟨w, back, rfl, howns, hend⟩
  · exact .inl (highlights_of_owns hf hc howns)
  · refine .inr ⟨front, w, back, ?_, hend, highlights_of_owns hf hc howns⟩
    have hunits : unitsOf source.toList ls = front ++ [u] ++ w :: back := hstands.units
    rw [hunits, List.append_assoc, List.singleton_append]

/-- An indicator introduces no node that starts behind the next unit. -/
lemma not_introduces (h : IsRead source d ls ds) {c : Node} {w : Lexeme × Token}
    (hunits : unitsOf source.toList ls = front ++ u :: w :: back)
    (hlt : w.1.start.index < c.start) : ¬ Introduces d.documents u.1 c := by
  intro hintro
  have hu : u ∈ unitsOf source.toList ls := by
    rw [hunits]
    simp
  obtain ⟨front', us, hstands⟩ := Led.stands_of_introduces (fun p hp => h.led hp) hu hintro
  have hsplit : unitsOf source.toList ls = front' ++ [u] ++ us := hstands.units
  rw [List.append_assoc, List.singleton_append] at hsplit
  obtain ⟨-, -, rfl⟩ := (numbered_unitsOf _ _).split_unique rfl hunits hsplit
  have := hstands.behind w List.mem_cons_self
  omega

/-- If the unit behind an indicator is highlighted, the indicator introduces a node in a match, or
such a node borrows that unit. -/
lemma introduces_or_borrows_of_highlights (h : IsRead source d ls ds) {w : Token}
    (hunits : unitsOf source.toList ls = front ++ u :: back) (hind : u.1.isIndicator = true)
    (hindex : w.index = u.2.index + 1) (hw : (d.documents.query q).highlights w = true) :
    (∃ f ∈ (d.documents.query q).nodes, ∃ c ∈ f.node.depthFirst, Introduces d.documents u.1 c) ∨
      ∃ x back', back = x :: back' ∧ ∃ f ∈ (d.documents.query q).nodes, ∃ c ∈ f.node.depthFirst,
        Borrows (unitsOf source.toList ls) x c := by
  obtain ⟨f, hf, v, hv, x, hx, howns, hplace⟩ := h.exists_owner hw
  obtain ⟨back', rfl⟩ := eq_of_next hunits hx (hplace.trans hindex)
  -- an entry shows the token of its key
  obtain ⟨c, hc, p, hp, before, content, hrole, howns⟩ : ∃ c ∈ f.node.depthFirst,
      ∃ p ∈ d.documents.depthFirst, ∃ before content, Role p before c content ∧
        x.2 ∈ c.ownTokens := by
    rcases h.hasRole hf hv with ⟨⟨p, hp, before, content, hrole⟩ |
      ⟨info, key, value, rfl, p, hp, before, hrole⟩, hshaped⟩
    · exact ⟨v, hv, p, hp, before, content, hrole, howns⟩
    · obtain ⟨k, w, hk, -, -, -, htoken, hprops⟩ := hshaped
      cases hk
      have hkey : key ∈ f.node.depthFirst := Node.mem_depthFirst_trans
        (Node.mem_depthFirst_of_mem_children (by simp [Node.children])) _ hv
      refine ⟨key, hkey, p, hp, before, .key, hrole, List.mem_append_right _ ?_⟩
      rw [← htoken]
      simpa [Node.ownTokens, Node.token, Node.info, hprops] using howns
  rcases h.introduces_or_borrows hp hrole hunits hind howns with hintroduces | hborrows
  · exact .inl ⟨f, hf, c, hc, hintroduces⟩
  · exact .inr ⟨x, back', rfl, f, hf, c, hc, hborrows⟩

end IsRead

/-! ### Highlighted indicators -/

/-- A hyphen, a question mark or a colon is highlighted if it is a token of a match or the token
behind it is one. -/
lemma Stream.highlight_isOn {s : Stream} {m : Matches} {t : Token} {next : Option Token}
    (hnext : s.next t = .ok next) (hkind : t.kind.isBlockStructure = true) :
    ∃ x, s.highlight m t = .ok x ∧
      (x.isOn = true ↔ m.highlights t = true ∨ ∃ u ∈ next, m.highlights u = true) := by
  rw [Stream.highlight]
  by_cases ht : m.highlights t = true
  · exact ⟨_, if_pos ht, by simp [ht]⟩
  · rw [if_neg ht, if_pos hkind, hnext]
    cases next with
    | none => exact ⟨_, rfl, by simp [Highlight.off, ht]⟩
    | some u =>
        by_cases hu : m.highlights u = true
        · exact ⟨⟨true, m.owner? u⟩, by simp [hu, bind, Except.bind, pure, Except.pure],
            by simp [hu]⟩
        · exact ⟨.off, by simp [hu, bind, Except.bind, pure, Except.pure],
            by simp [Highlight.off, ht, hu]⟩

/-- **Introducing indicators are highlighted.** In a text that is accepted, every hyphen, question
mark or colon is the token of an indicator. If the indicator introduces a node that is a match of a
query or lies below one, it is highlighted if it is a token of a match itself, or if the token
behind it is not a comment, and only then. -/
theorem highlight_iff_of_introduces {source : String} {d : Parsed} (h : parse source = .ok d) :
    ∃ ls, Lexeme.scan source.toList = .ok ls ∧
      (∀ t ∈ d.tokens.tokens, t.kind.isBlockStructure = true →
        ∃ l, (l, t) ∈ unitsOf source.toList ls ∧ l.isIndicator = true) ∧
      ∀ q, ∀ f ∈ (d.documents.query q).nodes, ∀ c ∈ f.node.depthFirst,
        ∀ u ∈ unitsOf source.toList ls, Introduces d.documents u.1 c →
          ∃ x kind, d.tokens.highlight (d.documents.query q) u.2 = .ok x ∧
            d.tokens.nextKind u.2 = .ok kind ∧
            (x.isOn = true ↔
              (d.documents.query q).highlights u.2 = true ∨ kind ≠ some .comment) := by
  obtain ⟨ls, ds, hread⟩ := exists_isRead h
  refine ⟨ls, hread.scan, fun t ht => hread.exists_indicator ht, fun q f hf c hc u hu hintro => ?_⟩
  obtain ⟨next, hnext, hbehind⟩ := hread.next_eq hu
  obtain ⟨x, hx, hon⟩ := Stream.highlight_isOn (m := d.documents.query q) hnext
    (hread.isBlockStructure hu hintro.1)
  refine ⟨x, next.map (·.kind), hx, by rw [Stream.nextKind, hnext]; rfl, hon.trans ?_⟩
  constructor
  · rintro (ht | ⟨w, hw, hlight⟩)
    · exact .inl ht
    · right
      rw [Option.mem_def.mp hw, Option.map_some]
      exact fun hkind => hread.kind_ne_comment (hbehind w hw).1 hlight (Option.some.inj hkind)
  · rintro (ht | hkind)
    · exact .inl ht
    · rcases hread.highlights_or_next hf hc hu hintro with ht | ⟨front, w, back, hunits, hend, hw⟩
      · exact .inl ht
      · exact .inr (hread.exists_next hunits hnext hkind rfl hend hw)

/-- An entry that has a key and a value, with both. -/
def Node.pair? : Node → Option (NodeInfo × Node × Node)
  | .mappingEntry info (some key) (some value) => some (info, key, value)
  | _ => none

/-- What has a key and a value is an entry of them. -/
lemma Node.eq_of_pair? {n key value : Node} {info : NodeInfo}
    (h : n.pair? = some (info, key, value)) : n = .mappingEntry info (some key) (some value) := by
  unfold pair? at h
  split at h
  · cases h
    rfl
  · cases h

/-- The colon of a matched entry whose value stands behind a comment is not highlighted. -/
theorem highlight_iff_of_introduces_commentBehind :
    ∃ d, parse "a: # c\n  b\n" = .ok d ∧ ∃ ls, Lexeme.scan "a: # c\n  b\n".toList = .ok ls ∧
      ∃ f ∈ (d.documents.query "a").nodes, ∃ c ∈ f.node.depthFirst,
        ∃ u ∈ unitsOf "a: # c\n  b\n".toList ls, Introduces d.documents u.1 c ∧
          ∃ x, d.tokens.highlight (d.documents.query "a") u.2 = .ok x ∧ x.isOn = false := by
  let s := "a: # c\n  b\n"
  obtain ⟨d, hd, hcheck⟩ := Except.exists_ok_of_any (x := parse s) (p := fun d =>
    (d.documents.query "a").nodes.any fun f => f.node.pair?.any fun p =>
      (unitsOf s.toList ((Lexeme.scan s.toList).toOption.getD [])).any fun u =>
        u.1.isIndicator && decide (u.1.content = .value) &&
          (decide (p.1.start ≤ u.1.start.index) && decide (p.2.1.stop ≤ u.1.start.index) &&
            decide (u.1.stop.index ≤ p.2.2.start)) &&
          (!(d.documents.query "a").highlights u.2 &&
            (d.tokens.nextKind u.2).toOption == some (some .comment)))
    (by decide +kernel)
  obtain ⟨ls, hls, -, hhighlight⟩ := highlight_iff_of_introduces hd
  rw [hls] at hcheck
  obtain ⟨f, hf, hcheck⟩ := List.any_eq_true.mp hcheck
  obtain ⟨⟨info, key, c⟩, hpair, hcheck⟩ := (Option.any_eq_true _ _).mp hcheck
  have hnode := Node.eq_of_pair? hpair
  obtain ⟨u, hu, hcheck⟩ := List.any_eq_true.mp hcheck
  simp only [Bool.and_eq_true, decide_eq_true_eq, Bool.not_eq_true', beq_iff_eq] at hcheck
  obtain ⟨⟨⟨hind, hcontent⟩, ⟨hstart, hkey⟩, hc⟩, hoff, hkind⟩ := hcheck
  have hmem : c ∈ f.node.depthFirst := by
    rw [hnode]
    exact Node.mem_depthFirst_of_mem_children (by simp [Node.children])
  have hintro : Introduces d.documents u.1 c := by
    refine ⟨hind, f.node, Node.mem_depthFirst_of_mem_query hf, [key], ?_, ?_, ?_, hc⟩
    · rw [hnode, hcontent]
      exact .value
    · rw [hnode]
      exact hstart
    · simpa using hkey
  obtain ⟨x, kind, hx, hnext, hiff⟩ := hhighlight "a" f hf c hmem u hu hintro
  refine ⟨d, hd, ls, hls, f, hf, c, hmem, u, hu, hintro, x, hx, ?_⟩
  rw [hnext] at hkind
  rw [← Bool.not_eq_true, hiff, hoff]
  rintro (ht | hne)
  · cases ht
  · exact hne (Option.some.inj hkind)

/-- **Highlighted indicators introduce matches, or stand in front of borrowed tokens.** In a text
that is accepted, every hyphen, question mark or colon is the token of an indicator. One that is no
token of a match itself is highlighted if no comment stands behind it and either it introduces a
node that is a match or lies below one, or such a node borrows the unit behind it, and only then.
-/
theorem highlight_iff_introduces_or_borrows {source : String} {d : Parsed}
    (h : parse source = .ok d) : ∃ ls, Lexeme.scan source.toList = .ok ls ∧
      (∀ t ∈ d.tokens.tokens, t.kind.isBlockStructure = true →
        ∃ l, (l, t) ∈ unitsOf source.toList ls ∧ l.isIndicator = true) ∧
      ∀ q front u back, unitsOf source.toList ls = front ++ u :: back → u.1.isIndicator = true →
        (d.documents.query q).highlights u.2 = false →
          ∃ x kind, d.tokens.highlight (d.documents.query q) u.2 = .ok x ∧
            d.tokens.nextKind u.2 = .ok kind ∧
            (x.isOn = true ↔ kind ≠ some .comment ∧
              ((∃ f ∈ (d.documents.query q).nodes, ∃ c ∈ f.node.depthFirst,
                Introduces d.documents u.1 c) ∨
              ∃ w back', back = w :: back' ∧ ∃ f ∈ (d.documents.query q).nodes,
                ∃ c ∈ f.node.depthFirst, Borrows (unitsOf source.toList ls) w c)) := by
  obtain ⟨ls, ds, hread⟩ := exists_isRead h
  refine ⟨ls, hread.scan, fun t ht => hread.exists_indicator ht,
    fun q front u back hunits hind hoff => ?_⟩
  have hu : u ∈ unitsOf source.toList ls := by
    rw [hunits]
    simp
  obtain ⟨next, hnext, hbehind⟩ := hread.next_eq hu
  obtain ⟨x, hx, hon⟩ := Stream.highlight_isOn (m := d.documents.query q) hnext
    (hread.isBlockStructure hu hind)
  refine ⟨x, next.map (·.kind), hx, by rw [Stream.nextKind, hnext]; rfl, hon.trans ?_⟩
  rw [hoff]
  constructor
  · rintro (ht | ⟨w, hw, hlight⟩)
    · cases ht
    · obtain ⟨hmem, hindex⟩ := hbehind w hw
      refine ⟨?_, hread.introduces_or_borrows_of_highlights hunits hind hindex hlight⟩
      rw [Option.mem_def.mp hw, Option.map_some]
      exact fun hkind => hread.kind_ne_comment hmem hlight (Option.some.inj hkind)
  · rintro ⟨hkind, ⟨f, hf, c, hc, hintro⟩ | ⟨w, back', hback, f, hf, c, hc, hborrows⟩⟩
    · rcases hread.highlights_or_next hf hc hu hintro with ht | ⟨front', w, back', hunits', hend, hw⟩
      · rw [hoff] at ht
        cases ht
      · exact .inr (hread.exists_next hunits' hnext hkind rfl hend hw)
    · have hw : w ∈ unitsOf source.toList ls := by
        rw [hunits, hback]
        simp
      have hend := hborrows.content_ne hread.isStream hw
      exact .inr (hread.exists_next hunits hnext hkind hback hend
        (IsRead.highlights_of_owns hf hc hborrows.owns))

/-- Of two items without text the hyphen of the first is highlighted if the second is the match: the
second item borrows its own hyphen, and nothing but that hyphen is behind the first one. -/
theorem highlight_iff_introduces_or_borrows_emptyItems :
    ∃ d, parse "-\n-\n" = .ok d ∧ ∃ ls, Lexeme.scan "-\n-\n".toList = .ok ls ∧
      ∃ front u w back, unitsOf "-\n-\n".toList ls = front ++ u :: w :: back ∧
        u.1.isIndicator = true ∧ (d.documents.query "1").highlights u.2 = false ∧
        (∃ x, d.tokens.highlight (d.documents.query "1") u.2 = .ok x ∧ x.isOn = true) ∧
        (∀ f ∈ (d.documents.query "1").nodes, ∀ c ∈ f.node.depthFirst,
          ¬ Introduces d.documents u.1 c) ∧
        ∃ f ∈ (d.documents.query "1").nodes, ∃ c ∈ f.node.depthFirst,
          Borrows (unitsOf "-\n-\n".toList ls) w c := by
  let s := "-\n-\n"
  obtain ⟨d, hd, hcheck⟩ := Except.exists_ok_of_any (x := parse s) (p := fun d =>
    (unitsOf s.toList ((Lexeme.scan s.toList).toOption.getD [])).tails.any fun us =>
      us[0]?.any fun u => us[1]?.any fun w =>
        u.1.isIndicator && !(d.documents.query "1").highlights u.2 &&
          ((d.tokens.highlight (d.documents.query "1") u.2).toOption.any (·.isOn) &&
            (d.documents.query "1").nodes.all fun f => f.node.depthFirst.all fun c =>
              decide (w.1.start.index < c.start)))
    (by decide +kernel)
  obtain ⟨ls, hls, -, hhighlight⟩ := highlight_iff_introduces_or_borrows hd
  obtain ⟨_, ds, hread⟩ := exists_isRead hd
  obtain rfl := Except.ok.inj (hls.symm.trans hread.scan)
  rw [hls] at hcheck
  obtain ⟨us, hus, hcheck⟩ := List.any_eq_true.mp hcheck
  obtain ⟨front, hsplit⟩ := (List.mem_tails us _).mp hus
  obtain ⟨u, hu, hcheck⟩ := (Option.any_eq_true _ _).mp hcheck
  obtain ⟨w, hw, hcheck⟩ := (Option.any_eq_true _ _).mp hcheck
  simp only [Bool.and_eq_true, Bool.not_eq_true', List.all_eq_true, decide_eq_true_eq] at hcheck
  obtain ⟨⟨hind, hoff⟩, hon, hstart⟩ := hcheck
  obtain ⟨back, rfl⟩ : ∃ back, us = u :: w :: back := by
    rcases us with _ | ⟨u', _ | ⟨w', back⟩⟩
    · cases hu
    · cases hw
    · cases hu
      cases hw
      exact ⟨back, rfl⟩
  have hnot : ∀ f ∈ (d.documents.query "1").nodes, ∀ c ∈ f.node.depthFirst,
      ¬ Introduces d.documents u.1 c := fun f hf c hc =>
    hread.not_introduces hsplit.symm (hstart f hf c hc)
  obtain ⟨x, kind, hx, -, hiff⟩ := hhighlight "1" front u (w :: back) hsplit.symm hind hoff
  rw [hx] at hon
  refine ⟨d, hd, ls, hls, front, u, w, back, hsplit.symm, hind, hoff, ⟨x, hx, hon⟩, hnot, ?_⟩
  rcases (hiff.mp hon).2 with ⟨f, hf, c, hc, hintro⟩ | ⟨w', back', heq, hborrows⟩
  · exact absurd hintro (hnot f hf c hc)
  · obtain ⟨rfl, -⟩ := List.cons.inj heq
    exact hborrows

end YamlNavigator
