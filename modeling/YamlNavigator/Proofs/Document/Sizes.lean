import Mathlib.Algebra.Ring.Nat
import Mathlib.Data.Finset.Card
import YamlNavigator.Proofs.Document.Aggregation
import YamlNavigator.Proofs.Document.Leaves
import YamlNavigator.Proofs.Document.Openers

/-!
How many tokens a mapping has.

* `Node.indices`, `Node.card_indices`: the indices of the tokens of trees; a tree has as many tokens
  as indices;
* `Node.parts`, `Node.echoes`, `Node.countEchoes`: the keys and values of a mapping, and how many of
  them hold an empty scalar that shows a token which was counted before;
* `Plain`: the units of a text without chained properties, in which no mapping begins the first key
  of a block mapping;
* `Taken`, `Grown.taken`: the tokens of a tree are those of its units, or empty scalars in it show
  the last text in front of these;
* `AddUp`, `Grown.addUp`: how many tokens the trees of a forest have together, by induction on the
  forest;
* `tokens_length`: how many tokens the mappings of a text have;
* `tokens_length_lt`: a mapping with fewer tokens than its own one, its key and its value have.
-/

namespace YamlNavigator

open Yaml Grammar

/-! ### Counting tokens -/

namespace Node

/-- The indices of the tokens that trees own. -/
def indices (vs : List Node) : Finset Int := ((vs.flatMap owned).map Token.index).toFinset

/-- The keys and the values of a mapping, in their order. -/
def parts (m : Node) : List Node := m.children.flatMap children

/-- Is the node a scalar without text? -/
def isEmptyScalar : Node → Bool
  | scalar _ value => value = some ""
  | _ => false

/-- Does an empty scalar of the tree show a token of one of the indices? -/
def echoes (seen : List Int) (n : Node) : Bool :=
  n.depthFirst.any fun c => c.isEmptyScalar && c.token.any fun t => seen.contains t.index

/-- How many of the trees hold an empty scalar that shows a token of one of the indices, or one of a
tree in front. -/
def countEchoes : List Int → List Node → Nat
  | _, [] => 0
  | seen, n :: ns => (n.echoes seen).toNat + countEchoes (seen ++ n.tokens.map Token.index) ns

variable {n v : Node} {vs ws : List Node} {i : Int}

lemma mem_indices : i ∈ indices vs ↔ ∃ v ∈ vs, ∃ t ∈ v.owned, t.index = i := by
  simp only [indices, List.mem_toFinset, List.mem_map, List.mem_flatMap]
  constructor
  · rintro ⟨t, ⟨v, hv, ht⟩, hi⟩
    exact ⟨v, hv, t, ht, hi⟩
  · rintro ⟨v, hv, t, ht, hi⟩
    exact ⟨t, ⟨v, hv, ht⟩, hi⟩

lemma indices_append : indices (vs ++ ws) = indices vs ∪ indices ws := by
  rw [indices, List.flatMap_append, List.map_append, List.toFinset_append, indices, indices]

/-- A tree has the indices of its root and those of the trees below. -/
lemma indices_eq (n : Node) :
    indices [n] = (n.ownTokens.map Token.index).toFinset ∪ indices n.children := by
  rw [indices, List.flatMap_singleton, owned_eq, List.map_append, List.toFinset_append, indices]

/-- No two of the tokens that are added one by one have the same index. -/
lemma nodup_foldl_addToken : ∀ {ts acc : List Token}, (acc.map Token.index).Nodup →
    ((ts.foldl addToken acc).map Token.index).Nodup
  | [], _, h => h
  | t :: ts, acc, h => by
      rw [List.foldl_cons]
      refine nodup_foldl_addToken ?_
      rw [addToken]
      split
      · exact h
      · next hany =>
          rw [List.map_append, List.nodup_append]
          refine ⟨h, List.nodup_singleton _, fun i hi j hj heq => hany ?_⟩
          obtain ⟨u, hu, rfl⟩ := List.mem_map.mp hi
          rw [List.map_singleton, List.mem_singleton] at hj
          exact List.any_eq_true.mpr ⟨u, hu, by simp [heq, hj]⟩

/-- The tokens of a tree have the indices of those that it owns. -/
lemma toFinset_tokens (n : Node) : (n.tokens.map Token.index).toFinset = indices [n] := by
  ext i
  rw [List.mem_toFinset, List.mem_map, exists_mem_tokens_iff]
  simp [mem_indices, owned]

/-- A tree has as many tokens as indices. -/
lemma card_indices (n : Node) : (indices [n]).card = n.tokens.length := by
  have hnodup : (n.tokens.map Token.index).Nodup := by
    rw [tokens_eq_foldl]
    exact nodup_foldl_addToken List.nodup_nil
  rw [← toFinset_tokens, List.toFinset_card_of_nodup hnodup, List.length_map]

end Node

/-- Two sets that have at most one item in common: together they have one less if there is such an
item. -/
lemma card_union_add_toNat {s t : Finset Int} {b : Bool} (hb : b = true ↔ ∃ i ∈ t, i ∈ s)
    (hunique : ∀ i ∈ t, i ∈ s → ∀ j ∈ t, j ∈ s → i = j) :
    (s ∪ t).card + b.toNat = s.card + t.card := by
  rw [← Finset.card_union_add_card_inter]
  congr 1
  cases b with
  | true =>
      obtain ⟨i, hi, hi'⟩ := hb.mp rfl
      refine (Finset.card_eq_one.mpr ⟨i, ?_⟩).symm
      rw [Finset.eq_singleton_iff_unique_mem]
      refine ⟨Finset.mem_inter.mpr ⟨hi', hi⟩, fun j hj => ?_⟩
      obtain ⟨hj', hj⟩ := Finset.mem_inter.mp hj
      exact hunique j hj hj' i hi hi'
  | false =>
      refine (Finset.card_eq_zero.mpr ?_).symm
      rw [Finset.eq_empty_iff_forall_notMem]
      intro i hi
      obtain ⟨hi', hi⟩ := Finset.mem_inter.mp hi
      exact Bool.false_ne_true (hb.mpr ⟨i, hi, hi'⟩)

/-! ### Where tokens are taken from -/

/-- The units of a text in which no properties are chained and no mapping begins the first key of a
block mapping. -/
structure Plain (us : List (Lexeme × Token)) : Prop where
  stream : IsStream (us.map Prod.fst)
  numbered : Numbered us
  follows : (us.map Prod.fst).IsChain Follows
  unchained : Unchained (us.map Prod.fst)
  apart : ¬∃ mark u, BeginsFirstKey us mark u

/-- How a tree that has grown from the units `mid` behind the units `pre` comes by a token: it is
that of one of its units, or an empty scalar shows the last text in front. -/
inductive Taken (pre mid : List (Lexeme × Token)) (v : Node) (t : Token) : Prop
  | own {u : Lexeme × Token} (mem : u ∈ mid) (token : u.2 = t)
  | lent {u : Lexeme × Token} {n : Node} (last : LastText pre u) (token : u.2 = t)
      (mem : n ∈ v.depthFirst) (empty : n.isEmptyScalar = true) (shows : n.token = some t)

/-- The tree is a pair, and the token is that of the unit in front of it. -/
def IsLead (src : Source) (pre : List (Lexeme × Token)) (v : Node) (t : Token) : Prop :=
  ∃ front u, pre = front ++ [u] ∧ u.2 = t ∧ ∃ key back, PairAt src pre key back v

section Taken

variable {src : Source} {pre ps us mid back : List (Lexeme × Token)} {u key : Lexeme × Token}
variable {v c : Node} {vs : List Node} {t : Token}

/-- The units in front of a tree may be counted among its own. -/
lemma Taken.behind (h : Taken (pre ++ us) mid v t) : Taken pre (us ++ mid) v t := by
  cases h with
  | own mem token => exact .own (List.mem_append_right us mem) token
  | lent last token mem empty shows =>
      rcases last.of_append with hu | hlast
      · exact .own (List.mem_append_left mid hu) token
      · exact .lent hlast token mem empty shows

/-- Further units may be counted among those of a tree. -/
lemma Taken.append (h : Taken pre mid v t) (us : List (Lexeme × Token)) :
    Taken pre (mid ++ us) v t := by
  cases h with
  | own mem token => exact .own (List.mem_append_left us mem) token
  | lent last token mem empty shows => exact .lent last token mem empty shows

/-- A tree comes by the tokens of its children as these do. -/
lemma Taken.of_child (h : Taken pre mid c t) (hc : c ∈ v.children) : Taken pre mid v t := by
  cases h with
  | own mem token => exact .own mem token
  | lent last token mem empty shows =>
      refine .lent last token ?_ empty shows
      rw [Node.depthFirst_eq]
      exact List.mem_cons_of_mem v (List.mem_flatMap.mpr ⟨c, hc, mem⟩)

/-- If units are counted among those of a pair, the unit in front of it is one of them. -/
lemma IsLead.taken (h : IsLead src (pre ++ us) v t) (hne : us ≠ []) (c : Node) :
    Taken pre (us ++ mid) c t := by
  obtain ⟨front, u, hsplit, token, -⟩ := h
  obtain ⟨us, w, rfl⟩ := (List.eq_nil_or_concat us).resolve_left hne
  rw [List.concat_eq_append, ← List.append_assoc] at hsplit
  obtain rfl := List.singleton_inj.mp (List.append_inj_right' hsplit rfl)
  exact .own (by simp) token

/-- Trees behind units that may be counted among their own. -/
lemma taken_behind (h : Taken (pre ++ us) mid v t ∨ IsLead src (pre ++ us) v t) :
    Taken pre (us ++ mid) v t ∨ IsLead src pre v t := by
  rcases h with h | h
  · exact .inl h.behind
  · rcases eq_or_ne us [] with rfl | hne
    · rw [List.append_nil] at h
      exact .inr h
    · exact .inl (h.taken hne v)

/-- Children behind units of the tree. -/
lemma taken_below (h : Taken (pre ++ us) mid c t ∨ IsLead src (pre ++ us) c t) (hne : us ≠ [])
    (hc : c ∈ v.children) : Taken pre (us ++ mid) v t :=
  h.elim (fun h => h.behind.of_child hc) fun h => h.taken hne v

/-- A node that has a unit of its own shows it. -/
lemma Plain.token_eq (hsrc : Plain src.units) (h : DefinedBy src pre ps u back v) :
    v.token = some u.2 :=
  h.token_eq hsrc.stream hsrc.follows fun ⟨mark, hmark⟩ => hsrc.apart ⟨mark, u, hmark⟩

/-- A pair has no unit of its own. -/
lemma PairAt.not_isWhole (hsrc : Plain src.units) (h : PairAt src pre key back v) :
    ¬IsWhole src v := by
  rintro (⟨pre', ps, u, back', hv⟩ | ⟨pre', ps, back', hv⟩)
  · -- it would be the unit in front of the pair
    obtain ⟨front, lead, rfl, -, htext, htoken⟩ := h.exists_lead hsrc.stream hsrc.follows
    have hunits : src.units = front ++ lead :: key :: back := by rw [h.units]; simp
    have hmem : lead ∈ src.units := by simp [hunits]
    have heq := htoken.symm.trans (hsrc.token_eq hv)
    obtain rfl := hsrc.numbered.eq_of_token_eq hmem hv.mem (Option.some_inj.mp heq)
    have hle := hv.start_le hsrc.stream
    have hstart := h.start_eq
    have hstop := Compose.stop_le_of_mem hsrc.stream hunits (v := key) List.mem_cons_self
    simp only [Lexeme.isEmpty, decide_eq_false_iff_not] at htext
    omega
  · obtain ⟨info, rfl⟩ := hv.eq
    cases h.kind

/-- **Tokens are taken from units.** A tree of a forest has the tokens of the units that it has
grown from, and empty scalars in it may show the last text in front of these; a pair shows the unit
in front. The proof is by induction on the forest. -/
theorem Grown.taken (hsrc : Plain src.units) (h : Grown src pre mid vs) :
    ∀ v ∈ vs, ∀ t ∈ v.owned, Taken pre mid v t ∨ IsLead src pre v t := by
  induction h with
  | nil => simp
  | skip _ _ ih =>
      intro v hv t ht
      have hbehind := taken_behind (ih v hv t ht)
      exact hbehind
  | @unwritten pre ps back mid v vs h _ ih =>
      intro w hw t ht
      rcases List.mem_cons.mp hw with rfl | hw
      · have hchildren : w.children = [] := by
          obtain ⟨info, rfl⟩ := h.eq
          rfl
        rw [Node.owned_eq, hchildren, List.flatMap_nil, List.append_nil, Node.ownTokens,
          List.mem_append, h.bears.eq_of_unchained hsrc.unchained, Option.mem_toList] at ht
        rcases ht with ht | ht
        · obtain ⟨p, hp, htoken⟩ := List.mem_map.mp ht
          exact .inl (.own (List.mem_append_left mid hp) htoken)
        · obtain ⟨l, hlast⟩ := h.exists_lastText hsrc.stream ht
          have hempty : w.isEmptyScalar = true := by
            obtain ⟨info, rfl⟩ := h.eq
            rfl
          exact .inl (.lent hlast rfl (by simp [Node.depthFirst_eq w]) hempty ht)
      · exact taken_behind (ih w hw t ht)
  | @defined pre ps back mid mid' u v vs h _ _ ih ih' =>
      intro w hw t ht
      rcases List.mem_cons.mp hw with rfl | hw
      · refine .inl ?_
        rw [Node.owned_eq, List.mem_append, Node.ownTokens, List.mem_append, Option.mem_toList,
          h.bears.eq_of_unchained hsrc.unchained, hsrc.token_eq h] at ht
        rcases ht with (ht | ht) | ht
        · obtain ⟨p, hp, htoken⟩ := List.mem_map.mp ht
          exact .own (by simp [hp]) htoken
        · exact .own (u := u) (by simp) (Option.some_inj.mp ht)
        · obtain ⟨c, hc, ht⟩ := List.mem_flatMap.mp ht
          have hbelow := ih c hc t ht
          rw [List.append_assoc] at hbelow
          have htaken := (taken_below hbelow (by simp) hc).append mid'
          rwa [List.append_assoc ps, List.singleton_append] at htaken
      · exact taken_behind (ih' w hw t ht)
  | @pair pre back mid mid' key v vs h _ _ ih ih' =>
      intro w hw t ht
      rcases List.mem_cons.mp hw with rfl | hw
      · rw [Node.owned_eq, List.mem_append, Node.ownTokens, h.properties, List.nil_append,
          Option.mem_toList] at ht
        rcases ht with ht | ht
        · obtain ⟨front, lead, hpre, -, -, htoken⟩ := h.exists_lead hsrc.stream hsrc.follows
          exact .inr ⟨front, lead, hpre, Option.some_inj.mp (htoken.symm.trans ht), key, back, h⟩
        · obtain ⟨c, hc, ht⟩ := List.mem_flatMap.mp ht
          exact .inl ((taken_below (ih c hc t ht) (by simp) hc).append mid')
      · exact taken_behind (ih' w hw t ht)
  | @entry pre mid mid' v key value vs h _ _ ih ih' =>
      intro w hw t ht
      rcases List.mem_cons.mp hw with rfl | hw
      · obtain ⟨c, hc, ht⟩ := h.exists_owned ht
        rcases ih c (h.children_eq ▸ hc) t ht with htaken | ⟨-, -, -, -, _, _, hpair⟩
        · exact .inl ((htaken.of_child hc).append mid')
        · exact absurd (h.isWhole c hc) (hpair.not_isWhole hsrc)
      · exact taken_behind (ih' w hw t ht)

end Taken

/-! ### Forests -/

section Forests

variable {src : Source} {pre mid mid' back : List (Lexeme × Token)} {v key value : Node}
variable {vs : List Node} {seen : List Int}

/-- An entry has the tokens of its key and its value. -/
lemma IsEntry.indices_eq (h : IsEntry src v key value) :
    Node.indices [v] = Node.indices v.children := by
  rw [Node.indices_eq, Finset.union_eq_right]
  intro i hi
  obtain ⟨t, ht, rfl⟩ := List.mem_map.mp (List.mem_toFinset.mp hi)
  obtain ⟨c, hc, ht⟩ := h.exists_owned (Node.owned_eq v ▸ List.mem_append_left _ ht)
  exact Node.mem_indices.mpr ⟨c, hc, t, ht, rfl⟩

/-- The keys and values of entries are a forest that has grown from the same units, and has the same
tokens. -/
lemma Grown.parts (h : Grown src pre mid vs) (hvs : ∀ v ∈ vs, v.kind = .mappingEntry) :
    Grown src pre mid (vs.flatMap Node.children) ∧
      (∀ c ∈ vs.flatMap Node.children, IsWhole src c) ∧
        Node.indices vs = Node.indices (vs.flatMap Node.children) := by
  induction h with
  | nil => exact ⟨.nil, by simp, rfl⟩
  | skip hu _ ih =>
      obtain ⟨hgrown, hrest⟩ := ih hvs
      exact ⟨.skip hu hgrown, hrest⟩
  | unwritten h _ _ =>
      obtain ⟨info, rfl⟩ := h.eq
      cases hvs _ List.mem_cons_self
  | defined h _ _ _ _ =>
      have haccepted := h.accepted
      rw [hvs _ List.mem_cons_self] at haccepted
      cases haccepted
  | pair h _ _ _ _ =>
      have hkind := h.kind
      rw [hvs _ List.mem_cons_self] at hkind
      cases hkind
  | @entry _ _ _ v key value vs h parts _ _ ih =>
      obtain ⟨hgrown, hwhole, hindices⟩ := ih fun c hc => hvs c (List.mem_cons_of_mem v hc)
      rw [← h.children_eq] at parts
      rw [List.flatMap_cons]
      refine ⟨parts.append hgrown, fun c hc => ?_, ?_⟩
      · exact (List.mem_append.mp hc).elim (h.isWhole c) (hwhole c)
      · rw [Node.indices_append, ← hindices, ← h.indices_eq, ← Node.indices_append,
          List.singleton_append]

/-- A tree that is no pair comes by its tokens from its units and the last text in front of them. -/
lemma Grown.taken_tree (hsrc : Plain src.units) (h : Grown src pre mid [v]) (hv : IsWhole src v)
    {t : Token} (ht : t ∈ v.owned) : Taken pre mid v t :=
  (h.taken hsrc v (List.mem_singleton_self v) t ht).resolve_right fun ⟨_, _, _, _, _, _, hpair⟩ =>
    hpair.not_isWhole hsrc hv

/-- A tree adds its tokens to those that were counted, less one if an empty scalar in it shows one
of these. -/
lemma Grown.card_tree (hsrc : Plain src.units) (h : Grown src pre mid [v]) (hv : IsWhole src v)
    (hunits : src.units = pre ++ (mid ++ back)) (hseen : ∀ i ∈ seen, ∃ u ∈ pre, u.2.index = i) :
    (seen.toFinset ∪ Node.indices [v]).card + (v.echoes seen).toNat =
      seen.toFinset.card + v.tokens.length := by
  -- a token that was counted is not that of a unit of the tree
  have hshared : ∀ i ∈ Node.indices [v], i ∈ seen.toFinset → ∃ u n, LastText pre u ∧
      u.2.index = i ∧ n ∈ v.depthFirst ∧ n.isEmptyScalar = true ∧ n.token = some u.2 := by
    intro i hi hmem
    obtain ⟨w, hw, t, ht, rfl⟩ := Node.mem_indices.mp hi
    obtain rfl := List.mem_singleton.mp hw
    cases h.taken_tree hsrc hv ht with
    | own mem token =>
        obtain ⟨x, hx, hindex⟩ := hseen t.index (List.mem_toFinset.mp hmem)
        have hnum := hsrc.numbered
        rw [Numbered, hunits, List.pairwise_append] at hnum
        have hlt := hnum.2.2 x hx _ (List.mem_append_left back mem)
        rw [hindex, token] at hlt
        exact absurd hlt (Int.lt_irrefl _)
    | lent last token mem empty shows =>
        exact ⟨_, _, last, by rw [token], mem, empty, token ▸ shows⟩
  rw [← Node.card_indices]
  refine card_union_add_toNat ⟨fun hecho => ?_, ?_⟩ fun i hi hi' j hj hj' => ?_
  · simp only [Node.echoes, List.any_eq_true, Bool.and_eq_true, Option.any_eq_true] at hecho
    obtain ⟨n, hn, -, t, ht, hmem⟩ := hecho
    refine ⟨t.index, Node.mem_indices.mpr ⟨v, by simp, t, ?_, rfl⟩, by simpa using hmem⟩
    exact List.mem_flatMap.mpr ⟨n, hn, List.mem_append_right _ (by simp [ht])⟩
  · rintro ⟨i, hi, hmem⟩
    obtain ⟨u, n, -, hindex, hn, hempty, htoken⟩ := hshared i hi hmem
    simp only [Node.echoes, List.any_eq_true, Bool.and_eq_true, Option.any_eq_true]
    exact ⟨n, hn, hempty, u.2, htoken, by simpa [hindex] using hmem⟩
  · obtain ⟨u, -, hu, rfl, -⟩ := hshared i hi hi'
    obtain ⟨w, -, hw, rfl, -⟩ := hshared j hj hj'
    rw [hu.unique hw]

/-- The trees add their tokens to those that were counted in front of them, less one for each tree
that holds an empty scalar which shows a token that was counted, there or in an earlier tree. -/
def AddUp (src : Source) (pre mid : List (Lexeme × Token)) (vs : List Node) : Prop :=
  ∀ back seen, src.units = pre ++ (mid ++ back) → (∀ v ∈ vs, IsWhole src v) →
    (∀ i ∈ seen, ∃ u ∈ pre, u.2.index = i) →
      (seen.toFinset ∪ Node.indices vs).card + Node.countEchoes seen vs =
        seen.toFinset.card + (vs.map (·.tokens.length)).sum

/-- A tree may stand in front. -/
lemma AddUp.cons (hsrc : Plain src.units) (h : Grown src pre mid [v])
    (more : AddUp src (pre ++ mid) mid' vs) : AddUp src pre (mid ++ mid') (v :: vs) := by
  intro back seen hunits hvs hseen
  have hv := hvs v List.mem_cons_self
  have hsplit : src.units = pre ++ (mid ++ (mid' ++ back)) := by simpa using hunits
  have hstep := h.card_tree hsrc hv hsplit hseen
  have hmore := more back (seen ++ v.tokens.map Token.index) (by simpa using hunits)
    (fun w hw => hvs w (List.mem_cons_of_mem v hw)) fun i hi => ?_
  · rw [List.toFinset_append, Node.toFinset_tokens, Finset.union_assoc, ← Node.indices_append,
      List.singleton_append] at hmore
    rw [Node.countEchoes, List.map_cons, List.sum_cons]
    omega
  · rcases List.mem_append.mp hi with hi | hi
    · obtain ⟨u, hu, hindex⟩ := hseen i hi
      exact ⟨u, List.mem_append_left mid hu, hindex⟩
    · rw [← List.mem_toFinset, Node.toFinset_tokens, Node.mem_indices] at hi
      obtain ⟨w, hw, t, ht, rfl⟩ := hi
      obtain rfl := List.mem_singleton.mp hw
      cases h.taken_tree hsrc hv ht with
      | own mem token => exact ⟨_, List.mem_append_right pre mem, by rw [token]⟩
      | lent last token _ _ _ => exact ⟨_, List.mem_append_left mid last.mem, by rw [token]⟩

/-- **Trees share tokens through empty scalars only.** The tokens of a forest without pairs add up,
by induction on the forest. -/
theorem Grown.addUp (hsrc : Plain src.units) (h : Grown src pre mid vs) : AddUp src pre mid vs := by
  induction h with
  | nil => exact fun back seen _ _ _ => by simp [Node.countEchoes, Node.indices]
  | skip _ _ ih =>
      intro back seen hunits hvs hseen
      refine ih back seen (by simpa using hunits) hvs fun i hi => ?_
      obtain ⟨u, hu, hindex⟩ := hseen i hi
      exact ⟨u, List.mem_append_left _ hu, hindex⟩
  | unwritten h _ ih => exact .cons hsrc (.bare h) ih
  | defined h children _ _ ih =>
      have hone := Grown.defined h children .nil
      rw [List.append_nil] at hone
      exact .cons hsrc hone ih
  | pair h _ _ _ _ => exact fun _ _ _ hvs => absurd (hvs _ List.mem_cons_self) (h.not_isWhole hsrc)
  | entry h _ _ _ _ => exact fun _ _ _ hvs => absurd (hvs _ List.mem_cons_self) h.not_isWhole

/-- The tokens of a mapping that has grown from units add up, if the tokens of its own are different
ones of units in front of its entries. -/
lemma length_tokens_add (hsrc : Plain src.units) {m : Node} (h : Grown src pre mid m.children)
    (hentries : ∀ e ∈ m.children, e.kind = .mappingEntry) (hunits : src.units = pre ++ (mid ++ back))
    (hown : m.ownTokens.Sublist (pre.map Prod.snd)) :
    m.tokens.length + Node.countEchoes (m.ownTokens.map Token.index) m.parts =
      m.ownTokens.length + (m.parts.map (·.tokens.length)).sum := by
  obtain ⟨hgrown, hwhole, hindices⟩ := h.parts hentries
  have hnodup : (m.ownTokens.map Token.index).Nodup := by
    have hpre : (pre.map Prod.snd).Pairwise fun t u => t.index < u.index := by
      have hnum := hsrc.numbered
      rw [Numbered, hunits, List.pairwise_append] at hnum
      exact List.pairwise_map.mpr hnum.1
    exact List.pairwise_map.mpr ((hpre.sublist hown).imp fun hlt => Int.ne_of_lt hlt)
  have hsum := hgrown.addUp hsrc back (m.ownTokens.map Token.index) hunits hwhole fun i hi => by
    obtain ⟨t, ht, rfl⟩ := List.mem_map.mp hi
    obtain ⟨u, hu, rfl⟩ := List.mem_map.mp (hown.subset ht)
    exact ⟨u, hu, rfl⟩
  rwa [← hindices, ← Node.indices_eq, Node.card_indices, List.toFinset_card_of_nodup hnodup,
    List.length_map] at hsum

end Forests

/-! ### Texts that are accepted -/

/-- Mappings consist of entries. -/
lemma kind_of_mem_mapping {source : String} {d : Parsed} {m : Node} (h : parse source = .ok d)
    (hm : m ∈ d.documents.depthFirst) (hkind : m.kind = .mapping) :
    ∀ e ∈ m.children, e.kind = .mappingEntry := by
  obtain ⟨ls, ds, -, -, htree, hbodies, -⟩ := exists_settled_of_parse h
  rw [htree, Node.depthFirst_eq] at hm
  rcases List.mem_cons.mp hm with rfl | hm
  · cases hkind
  obtain ⟨c, hc, hm⟩ := List.mem_flatMap.mp hm
  obtain ⟨body, hbody⟩ := hbodies c hc
  rcases hbody.mem_depthFirst hm with rfl | hm
  · obtain ⟨info, rfl, -⟩ := hbody.eq
    cases hkind
  · have hshaped := (hbody.settled m hm).shaped
    cases m with
    | mapping info entries => exact hshaped
    | _ => cases hkind

/-- **The size of mappings.** In a text that is accepted, in which no properties are chained and no
mapping begins the first key of a block mapping, the tokens of a mapping are its own one, those of
its properties, and those of its keys and its values, less one for each key or value that holds an
empty scalar which shows a token that the mapping, or a key or a value in front, has already. -/
theorem tokens_length {source : String} {d : Parsed} (h : parse source = .ok d) :
    ∃ ls, Lexeme.scan source.toList = .ok ls ∧ (Unchained ls →
      (¬∃ mark u, BeginsFirstKey (unitsOf source.toList ls) mark u) →
        ∀ m ∈ d.documents.depthFirst, m.kind = .mapping →
          m.tokens.length + Node.countEchoes (m.ownTokens.map Token.index) m.parts =
            1 + m.info.properties.length + (m.parts.map (·.tokens.length)).sum) := by
  obtain ⟨ls, ds, hls, -, htree, hdocuments, hgrown⟩ := exists_grown_of_parse h
  refine ⟨ls, hls, fun hchain hapart m hm hkind => ?_⟩
  have hsrc : Plain (unitsOf source.toList ls) :=
    ⟨isStream_unitsOf hls, numbered_unitsOf _ _, isChain_unitsOf hls, by rwa [map_fst_unitsOf], hapart⟩
  have hentries := kind_of_mem_mapping h hm hkind
  rw [htree] at hm
  have hbody := mem_bodies hm (by simp [hkind]) (by simp [hkind]) hdocuments
  have hlength : ∀ {t}, m.token = some t → m.ownTokens.length = 1 + m.info.properties.length := by
    intro t ht
    rw [Node.ownTokens, ht, List.length_append, Nat.add_comm]
    rfl
  cases hgrown.rooted [] (by simp) m hbody with
  | unwritten h =>
      obtain ⟨info, rfl⟩ := h.eq
      cases hkind
  | entry _ h =>
      obtain ⟨info, rfl, -⟩ := h
      cases hkind
  | @defined pre ps mid back u h children =>
      have htoken := hsrc.token_eq h
      have hown : m.ownTokens = (ps ++ [u]).map Prod.snd := by
        rw [Node.ownTokens, h.bears.eq_of_unchained hsrc.unchained, htoken]
        simp
      rw [← hlength htoken]
      have hunits : unitsOf source.toList ls = (pre ++ ps ++ [u]) ++ (mid ++ back) := by
        simpa using h.units
      refine length_tokens_add hsrc children hentries hunits ?_
      rw [hown, List.append_assoc]
      exact (List.sublist_append_right pre (ps ++ [u])).map Prod.snd
  | @pair pre mid back key h children =>
      obtain ⟨front, lead, rfl, -, -, htoken⟩ := h.exists_lead hsrc.stream hsrc.follows
      have hown : m.ownTokens = [lead.2] := by
        rw [Node.ownTokens, h.properties, htoken]
        rfl
      rw [← hlength htoken]
      have hunits : unitsOf source.toList ls = (front ++ [lead] ++ [key]) ++ (mid ++ back) := by
        simpa using h.units
      refine length_tokens_add hsrc children hentries hunits ?_
      rw [hown, List.singleton_sublist]
      simp

/-- Two mappings: in the block mapping the empty value of the second key shows that key, in the flow
mapping the empty value of the first key shows that key, and the empty key and value behind the
question mark both show that. -/
theorem tokens_length_twoMappings :
    ∃ d, parse "m: &x {a, b: [c], ? }\n? n\n? o\n: p\n" = .ok d ∧
      ∃ ls, Lexeme.scan "m: &x {a, b: [c], ? }\n? n\n? o\n: p\n".toList = .ok ls ∧ Unchained ls ∧
        (¬∃ mark u,
          BeginsFirstKey (unitsOf "m: &x {a, b: [c], ? }\n? n\n? o\n: p\n".toList ls) mark u) ∧
        (d.documents.depthFirst.filter (·.kind = .mapping)).map (fun m =>
          Node.countEchoes (m.ownTokens.map Token.index) m.parts) = [1, 2] ∧
        ∀ m ∈ d.documents.depthFirst, m.kind = .mapping →
          m.tokens.length + Node.countEchoes (m.ownTokens.map Token.index) m.parts =
            1 + m.info.properties.length + (m.parts.map (·.tokens.length)).sum := by
  let s := "m: &x {a, b: [c], ? }\n? n\n? o\n: p\n"
  obtain ⟨d, hd, hcheck⟩ := Except.exists_ok_of_any (x := parse s) (p := fun d =>
    (Lexeme.scan s.toList).toOption.any fun ls => decide (Unchained ls) &&
      (decide (¬∃ mark u, BeginsFirstKey (unitsOf s.toList ls) mark u) &&
        decide ((d.documents.depthFirst.filter (·.kind = .mapping)).map (fun m =>
          Node.countEchoes (m.ownTokens.map Token.index) m.parts) = [1, 2]))) (by decide +kernel)
  obtain ⟨ls, hls, hall⟩ := tokens_length hd
  rw [hls] at hcheck
  simp only [Except.toOption, Option.any_some, Bool.and_eq_true, decide_eq_true_eq] at hcheck
  obtain ⟨hchain, hapart, hcount⟩ := hcheck
  exact ⟨d, hd, ls, hls, hchain, hapart, hcount, hall hchain hapart⟩

/-- A mapping with fewer tokens than its own one, its key and its value have: the empty value behind
a key with a question mark shows the key. -/
theorem tokens_length_lt :
    ∃ d, parse "? a\n" = .ok d ∧ ∃ ls, Lexeme.scan "? a\n".toList = .ok ls ∧ Unchained ls ∧
      (¬∃ mark u, BeginsFirstKey (unitsOf "? a\n".toList ls) mark u) ∧
        ∃ m ∈ d.documents.depthFirst, m.kind = .mapping ∧ m.tokens.length = 2 ∧
          1 + m.info.properties.length + (m.parts.map (·.tokens.length)).sum = 3 := by
  let s := "? a\n"
  have hpass : (Lexeme.scan s.toList).toOption.any (fun ls => (parse s).toOption.any fun d =>
      decide (Unchained ls) && (decide (¬∃ mark u, BeginsFirstKey (unitsOf s.toList ls) mark u) &&
        d.documents.depthFirst.any fun m => decide (m.kind = .mapping) &&
          (decide (m.tokens.length = 2) && decide (1 + m.info.properties.length +
            (m.parts.map (·.tokens.length)).sum = 3)))) = true := by
    decide +kernel
  obtain ⟨ls, hls, hpass⟩ := Except.exists_ok_of_any hpass
  obtain ⟨d, hd, hcheck⟩ := Except.exists_ok_of_any hpass
  simp only [Bool.and_eq_true, List.any_eq_true, decide_eq_true_eq] at hcheck
  obtain ⟨hchain, hapart, m, hm, hcheck⟩ := hcheck
  exact ⟨d, hd, ls, hls, hchain, hapart, m, hm, hcheck⟩

end YamlNavigator
