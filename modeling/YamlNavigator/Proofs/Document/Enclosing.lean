import Mathlib.Data.List.Pairwise
import YamlNavigator.Proofs.Document.Leaves
import YamlNavigator.Proofs.Document.Neighbours
import YamlNavigator.Proofs.Document.Nesting
import YamlNavigator.Proofs.Document.Openers

/-!
Nodes whose spans meet, and the nodes around the colon of an entry.

* `HoldOrApart`: of two nodes one is below the other, or they lie one behind the other;
* `Nested.holdOrApart`, `holdOrApart_of_parse`: so do all nodes of a nested tree, by induction on
  the tree, and all nodes of a text that is accepted;
* `encloses_or_mem_key`: a node that lies neither behind the key of an entry nor in front of it
  encloses the entry, or it is one of the nodes of the key;
* `Rooted.meets`: a node that owns the token of the unit in front of a colon lies around it, or was
  handed a property across units without text;
* `encloses_or_mem_key_of_owns`: nodes around it enclose the entry of the colon or are in its key.
-/

namespace YamlNavigator

open Yaml Grammar

/-! ### Nested trees -/

/-- One of the nodes is below the other, or they lie one behind the other. -/
def HoldOrApart (n m : Node) : Prop :=
  m ∈ n.depthFirst ∨ n ∈ m.depthFirst ∨ n.stop ≤ m.start ∨ m.stop ≤ n.start

variable {v n m : Node} {vs : List Node}

/-- The nodes of a nested tree lie in its span. -/
lemma Nested.within (h : Nested v) (hn : n ∈ v.depthFirst) :
    v.start ≤ n.start ∧ n.stop ≤ v.stop := by
  induction v using Node.children_induction with
  | step v ih =>
      rw [Node.depthFirst_eq] at hn
      rcases List.mem_cons.mp hn with rfl | hn
      · exact ⟨Nat.le_refl _, Nat.le_refl _⟩
      · obtain ⟨c, hc, hn⟩ := List.mem_flatMap.mp hn
        have hnested : Nested c := fun m hm => h m
          (Node.mem_depthFirst_trans hm v (Node.mem_depthFirst_of_mem_children hc))
        obtain ⟨hstart, hstop⟩ := h.holds.within c hc
        obtain ⟨hstart', hstop'⟩ := ih c hc hnested hn
        exact ⟨Nat.le_trans hstart hstart', Nat.le_trans hstop' hstop⟩

/-- Nodes of nested trees one behind the other hold one another or lie apart, if the nodes of each
tree do. -/
lemma holdOrApart_of_pairwise (hnested : ∀ c ∈ vs, Nested c)
    (hapart : vs.Pairwise fun c c' => c.stop ≤ c'.start)
    (hvs : ∀ c ∈ vs, ∀ n ∈ c.depthFirst, ∀ m ∈ c.depthFirst, HoldOrApart n m)
    (hn : n ∈ vs.flatMap Node.depthFirst) (hm : m ∈ vs.flatMap Node.depthFirst) :
    HoldOrApart n m := by
  obtain ⟨c, hc, hn⟩ := List.mem_flatMap.mp hn
  obtain ⟨c', hc', hm⟩ := List.mem_flatMap.mp hm
  by_cases heq : c = c'
  · subst heq
    exact hvs c hc n hn m hm
  · have hsymm : Std.Symm fun c c' : Node => c.stop ≤ c'.start ∨ c'.stop ≤ c.start :=
      ⟨fun _ _ h => h.symm⟩
    have heither : vs.Pairwise fun c c' => c.stop ≤ c'.start ∨ c'.stop ≤ c.start := hapart.imp .inl
    have hboth := heither.forall hc hc' heq
    obtain ⟨hstart, hstop⟩ := (hnested c hc).within hn
    obtain ⟨hstart', hstop'⟩ := (hnested c' hc').within hm
    rcases hboth with hle | hle
    · exact .inr (.inr (.inl (by omega)))
    · exact .inr (.inr (.inr (by omega)))

/-- **Nodes of a nested tree hold one another or lie apart.** -/
theorem Nested.holdOrApart (h : Nested v) :
    ∀ n ∈ v.depthFirst, ∀ m ∈ v.depthFirst, HoldOrApart n m := by
  induction v using Node.children_induction with
  | step v ih =>
      intro n hn m hm
      have hchildren : ∀ c ∈ v.children, Nested c := fun c hc k hk => h k
        (Node.mem_depthFirst_trans hk v (Node.mem_depthFirst_of_mem_children hc))
      rw [Node.depthFirst_eq] at hn hm
      rcases List.mem_cons.mp hn with rfl | hn
      · exact .inl (by rwa [Node.depthFirst_eq])
      rcases List.mem_cons.mp hm with rfl | hm
      · exact .inr (.inl (by rw [Node.depthFirst_eq]; exact List.mem_cons_of_mem _ hn))
      · exact holdOrApart_of_pairwise hchildren h.holds.apart
          (fun c hc => ih c hc (hchildren c hc)) hn hm

/-! ### Nodes around a colon -/

section Meeting

variable {src : Source} {front back pre ps back' : List (Lexeme × Token)} {u w x : Lexeme × Token}
variable (hL : IsStream (src.units.map Prod.fst)) (hnum : Numbered src.units)
variable (hunits : src.units = front ++ u :: w :: back) (howned : u.1.content.isOwned = true)
variable (hw : w.1.content = .value)

include hL hunits howned hw in
/-- A unit that belongs to nodes lies in front of a colon behind it, and both have text. -/
lemma bounds_of_units : u.1.start.index < u.1.stop.index ∧ u.1.stop.index ≤ w.1.start.index ∧
    w.1.start.index < w.1.stop.index := by
  have hwmem : w ∈ src.units := by simp [hunits]
  have htext := Compose.isEmpty_eq_false hL hwmem (by rw [hw]; rfl) (by rw [hw]; simp)
  simp only [Lexeme.isEmpty, decide_eq_false_iff_not, not_le] at htext
  exact ⟨(hL.isSound u.1 (List.mem_map_of_mem (by simp [hunits]))).start_lt howned,
    Compose.stop_le_of_mem hL hunits (List.mem_cons_self), htext⟩

include hL hnum hunits howned hw

/-- A node with a unit of its own that shows the unit in front of a colon has that unit. -/
lemma DefinedBy.meets_of_token (h : DefinedBy src pre ps x back' m) (ht : m.token = some u.2) :
    m.start < w.1.stop.index ∧ u.1.start.index < m.stop := by
  obtain ⟨hlt, hle, hwlt⟩ := bounds_of_units hL hunits howned hw
  have hu : u ∈ src.units := by simp [hunits]
  rcases h.token_or hL with ⟨htoken, -⟩ | ⟨xs, z, zs, hpre, htoken, -, hz⟩
  · obtain rfl : x = u := hnum.eq_of_token_eq h.mem hu (Option.some.inj (htoken.symm.trans ht))
    have hstart := h.start_le hL
    rcases h.shape with hspells | hkind
    · have hstop := hspells.1
      omega
    · -- no collection begins with a unit that belongs to nodes
      have haccepted := h.accepted
      revert haccepted howned
      rcases hkind with hkind | hkind <;> rw [hkind] <;> cases x.1.content <;>
        simp [NodeKind.accepts, isMappingUnit, isSequenceUnit, Content.isOwned]
  · obtain rfl : z = u := hnum.eq_of_token_eq (by simp [h.units, hpre]) hu
      (Option.some.inj (htoken.symm.trans ht))
    rw [(hz z List.mem_cons_self).2] at howned
    cases howned

/-- A scalar without text that shows the unit in front of a colon lies between the two. -/
lemma Unwritten.meets_of_token (h : Unwritten src pre ps back' m) (ht : m.token = some u.2) :
    m.start < w.1.stop.index ∧ u.1.start.index < m.stop := by
  obtain ⟨hlt, hle, hwlt⟩ := bounds_of_units hL hunits howned hw
  obtain ⟨l, hlast⟩ := h.exists_lastText hL ht
  have heq : (l, u.2) = u := hnum.eq_of_token_eq
    (by rw [h.units]; exact List.mem_append_left _ hlast.mem) (by simp [hunits]) rfl
  rw [heq] at hlast
  have hbefore := h.before u hlast.mem
  have hstart := h.start_le
  obtain ⟨-, xs, zs, rfl, hzs⟩ := hlast
  have hsplit : src.units = xs ++ u :: (zs ++ (ps ++ back')) := by rw [h.units]; simp
  obtain ⟨-, -, hbehind⟩ := hnum.split_unique rfl hunits hsplit
  have hstop : m.stop ≤ w.1.start.index := by
    cases zs with
    | cons z zs =>
        obtain ⟨rfl, -⟩ := List.cons.inj hbehind
        have hempty := hzs w List.mem_cons_self
        simp only [Lexeme.isEmpty, decide_eq_true_eq] at hempty
        omega
    | nil =>
        cases ps with
        | cons p ps =>
            obtain ⟨rfl, -⟩ := List.cons.inj hbehind
            have hprop := h.isProperty w List.mem_cons_self
            rw [Lexeme.isProperty, hw] at hprop
            cases hprop
        | nil =>
            have hback : w :: back = back' := hbehind
            exact h.stop_le w (by simp [← hback])
  omega

/-- A node that is no entry and no pair, and shows the unit in front of a colon, starts in front of
the colon and stops behind the start of the unit. -/
lemma IsWhole.meets_of_token (h : IsWhole src m) (ht : m.token = some u.2) :
    m.start < w.1.stop.index ∧ u.1.start.index < m.stop := by
  rcases h with ⟨pre, ps, x, back', h⟩ | ⟨pre, ps, back', h⟩
  · exact h.meets_of_token hL hnum hunits howned hw ht
  · exact h.meets_of_token hL hnum hunits howned hw ht

/-- **Where the owners of a key lie.** A node that owns the token of the unit in front of a colon
starts in front of the colon and stops behind the start of the unit, or it stops in front of the
unit and has it for a property, which takes properties that are chained. -/
theorem Rooted.meets (hchain : (src.units.map Prod.fst).IsChain Follows) (h : Rooted src m)
    (hsettles : Settles src m) (hholds : m.Holds) (hm : u.2 ∈ m.ownTokens) :
    m.start < w.1.stop.index ∧ u.1.start.index < m.stop ∨
      ¬ Unchained (src.units.map Prod.fst) ∧ u.2 ∈ m.info.properties ∧
        m.stop ≤ u.1.start.index := by
  obtain ⟨hlt, hle, hwlt⟩ := bounds_of_units hL hunits howned hw
  have hu : u ∈ src.units := by simp [hunits]
  rw [Node.ownTokens, List.mem_append, Option.mem_toList] at hm
  rcases hm with hm | ht
  · obtain ⟨l, hl, hprop, hstart, hstop⟩ := hsettles.within u.2 hm
    obtain rfl : l = u.1 := congrArg Prod.fst (hnum.eq_of_token_eq hl hu rfl)
    by_cases hbehind : u.1.start.index < m.stop
    · exact .inl ⟨by omega, hbehind⟩
    · refine .inr ⟨fun hchain => ?_, hm, by omega⟩
      have := hstop hchain
      omega
  · left
    have ht : m.token = some u.2 := ht
    cases h with
    | unwritten h => exact h.meets_of_token hL hnum hunits howned hw ht
    | defined h => exact h.meets_of_token hL hnum hunits howned hw ht
    | pair h =>
        obtain ⟨xs, lead, hpre, hlead, -, htoken⟩ := h.exists_lead hL hchain
        obtain rfl : lead = u := hnum.eq_of_token_eq (by simp [h.units, hpre]) hu
          (Option.some.inj (htoken.symm.trans ht))
        rw [isOwned_of_leadsItem hlead] at howned
        cases howned
    | entry _ h =>
        -- an entry shows the token of its key, and starts with it
        obtain ⟨info, rfl, htoken, hstart, -, hkey, -⟩ := h
        obtain ⟨hbefore, hbehind⟩ :=
          hkey.meets_of_token hL hnum hunits howned hw (htoken.symm.trans ht)
        have hstop := (hholds.within _ List.mem_cons_self).2
        refine ⟨?_, by omega⟩
        show info.start < _
        omega

end Meeting

/-! ### Texts that are accepted -/

section Parsed

variable {source : String} {d : Parsed} {ls : List Lexeme} {front back : List (Lexeme × Token)}
variable {u w : Lexeme × Token} {info : NodeInfo} {key value : Node}

/-- In the tree of a text that is accepted every node but the set of the documents is nested. -/
lemma nested_of_parse (h : parse source = .ok d) (hn : n ∈ d.documents.depthFirst)
    (hkind : n.kind ≠ .documentSet) : Nested n := by
  obtain ⟨ds, htree, hrows⟩ := exists_rows_of_parse h
  rw [htree, Node.depthFirst_eq] at hn
  rcases List.mem_cons.mp hn with rfl | hn
  · exact absurd rfl hkind
  · obtain ⟨c, hc, hn⟩ := List.mem_flatMap.mp hn
    exact fun k hk => hrows.nested c hc k (Node.mem_depthFirst_trans hk c hn)

/-- Nodes of the tree of a text that is accepted hold one another or lie apart. -/
lemma holdOrApart_of_parse (h : parse source = .ok d) (hn : n ∈ d.documents.depthFirst)
    (hm : m ∈ d.documents.depthFirst) : HoldOrApart n m := by
  obtain ⟨ds, htree, hrows⟩ := exists_rows_of_parse h
  rw [htree, Node.depthFirst_eq] at hn hm
  rcases List.mem_cons.mp hn with rfl | hn
  · exact .inl (by rwa [Node.depthFirst_eq])
  rcases List.mem_cons.mp hm with rfl | hm
  · exact .inr (.inl (by rw [Node.depthFirst_eq]; exact List.mem_cons_of_mem _ hn))
  · exact holdOrApart_of_pairwise hrows.nested hrows.apart
      (fun c hc => (hrows.nested c hc).holdOrApart) hn hm

/-- **What meets a key encloses its entry or is in the key.** A node that starts in front of the
value of an entry, and stops behind an offset at which the key has started, encloses the entry, or
it is one of the nodes of the key. -/
theorem encloses_or_mem_key (h : parse source = .ok d)
    (he : .mappingEntry info (some key) (some value) ∈ d.documents.depthFirst)
    (hn : n ∈ d.documents.depthFirst) {offset limit : Nat} (hkey : key.start ≤ offset)
    (hvalue : limit ≤ value.start) (hstart : n.start < limit) (hstop : offset < n.stop) :
    .mappingEntry info (some key) (some value) ∈ n.depthFirst ∨ n ∈ key.depthFirst := by
  have hnested := nested_of_parse h he (by simp [Node.kind])
  obtain ⟨hkeystart, -⟩ := hnested.holds.within key (by simp [Node.children])
  obtain ⟨-, hvaluestop⟩ := hnested.holds.within value (by simp [Node.children])
  have hvaluemem : value ∈ (Node.mappingEntry info (some key) (some value)).depthFirst :=
    Node.mem_depthFirst_of_mem_children (by simp [Node.children])
  have hvalues : Nested value := fun k hk => hnested k (Node.mem_depthFirst_trans hk _ hvaluemem)
  have hle := hvalues.holds.start_le
  rcases holdOrApart_of_parse h he hn with hmem | hmem | hapart | hapart
  · rw [Node.depthFirst_eq] at hmem
    rcases List.mem_cons.mp hmem with rfl | hmem
    · left
      rw [Node.depthFirst_eq]
      exact List.mem_cons_self
    obtain ⟨c, hc, hmemc⟩ := List.mem_flatMap.mp hmem
    rcases List.mem_cons.mp hc with rfl | hc
    · exact .inr hmemc
    · -- the nodes of the value start behind it
      obtain rfl := List.mem_singleton.mp hc
      have := (hvalues.within hmemc).1
      omega
  · exact .inl hmem
  · omega
  · omega

/-- The token of a unit in the span of a key is among the tokens of the key. -/
lemma mem_tokens_of_key (h : parse source = .ok d) (hls : Lexeme.scan source.toList = .ok ls)
    (he : .mappingEntry info (some key) (some value) ∈ d.documents.depthFirst)
    (hu : u ∈ unitsOf source.toList ls) (howned : u.1.content.isOwned = true)
    (hstart : key.start ≤ u.1.start.index) (hstop : u.1.stop.index ≤ key.stop) :
    u.2 ∈ key.tokens := by
  obtain ⟨_, ds, hls', -, htree, hmem⟩ := exists_documents_of_parse h
  obtain rfl := Except.ok.inj (hls.symm.trans hls')
  rw [htree, Node.depthFirst_eq] at he
  rcases List.mem_cons.mp he with heq | he
  · cases heq
  obtain ⟨c, hc, he⟩ := List.mem_flatMap.mp he
  have hkey : key ∈ (Node.mappingEntry info (some key) (some value)).children := by
    simp [Node.children]
  have hkeyc := Node.mem_depthFirst_trans (Node.mem_depthFirst_of_mem_children hkey) c he
  exact hmem c hc key hkeyc u hu howned hstart hstop

/-- The set of the documents holds its documents. -/
lemma documentSetOf_inj {ds ds' : List Node} (h : Node.documentSetOf ds = .documentSetOf ds') :
    ds = ds' := by
  rw [Node.documentSetOf, Node.documentSetOf, Node.documentSet.injEq] at h
  exact h.2

/-- **What owns a key encloses its entry or is in the key.** A node other than a document that owns
the token in front of the colon of an entry encloses the entry, or it is one of the nodes of the
key, or the token is a property that a node in front of it was handed across units without text. -/
lemma encloses_or_mem_key_of_owns (h : parse source = .ok d)
    (hls : Lexeme.scan source.toList = .ok ls)
    (he : .mappingEntry info (some key) (some value) ∈ d.documents.depthFirst)
    (hunits : unitsOf source.toList ls = front ++ u :: w :: back)
    (howned : u.1.content.isOwned = true) (hw : w.1.content = .value)
    (hkey : key.start ≤ u.1.start.index) (hvalue : w.1.stop.index ≤ value.start) {n : Node}
    (hn : n ∈ d.documents.depthFirst) (hkind : n.kind ≠ .document) (ht : u.2 ∈ n.tokens) :
    .mappingEntry info (some key) (some value) ∈ n.depthFirst ∨ n ∈ key.depthFirst ∨
      ¬ Unchained ls ∧ ∃ m ∈ n.depthFirst, u.2 ∈ m.info.properties ∧
        m.stop ≤ u.1.start.index := by
  obtain ⟨_, ds, hls', -, htree, hdocuments, hgrown⟩ := exists_grown_of_parse h
  obtain rfl := Except.ok.inj (hls.symm.trans hls')
  obtain ⟨_, ds', hls'', -, htree', hbodies, -⟩ := exists_settled_of_parse h
  obtain rfl := Except.ok.inj (hls.symm.trans hls'')
  obtain rfl := documentSetOf_inj (htree.symm.trans htree')
  obtain ⟨ds', htree', hrows⟩ := exists_rows_of_parse h
  obtain rfl := documentSetOf_inj (htree.symm.trans htree')
  have hL := isStream_unitsOf hls
  have hmeets := encloses_or_mem_key h he hn hkey hvalue
  rw [htree, Node.depthFirst_eq] at hn
  rcases List.mem_cons.mp hn with rfl | hn
  · exact .inl (by rwa [← htree])
  obtain ⟨c, hc, hnc⟩ := List.mem_flatMap.mp hn
  obtain ⟨body, hbody⟩ := hbodies c hc
  have hn := (hbody.mem_depthFirst hnc).resolve_left fun heq => hkind (heq ▸ hdocuments c hc)
  -- some node below owns the token
  obtain ⟨m, hm, hmt⟩ := List.mem_flatMap.mp (Node.mem_owned_of_mem_tokens ht)
  have hmbody := Node.mem_depthFirst_trans hm body hn
  obtain ⟨_, hcbody, -⟩ := hbody.eq
  have hrooted : Rooted ⟨source.toList, unitsOf source.toList ls⟩ m := by
    refine hgrown.rooted [] (by simp) m (List.mem_flatMap.mpr ⟨body, ?_, hmbody⟩)
    exact List.mem_flatMap.mpr ⟨c, hc, by simp [hcbody, Node.children]⟩
  have hnested := hrows.nested c hc
  have hnnested : Nested n := fun k hk => hnested k (Node.mem_depthFirst_trans hk c hnc)
  rcases hrooted.meets hL (numbered_unitsOf _ _) hunits howned hw (isChain_unitsOf hls)
      (hbody.settled m hmbody) (hnnested m hm) hmt with ⟨hstart, hstop⟩ | ⟨hchain, hprop, hstop⟩
  · obtain ⟨hle, hle'⟩ := hnnested.within hm
    exact (hmeets (by omega) (by omega)).imp_right .inl
  · rw [map_fst_unitsOf] at hchain
    exact .inr (.inr ⟨hchain, m, hm, hprop, hstop⟩)

end Parsed

end YamlNavigator
