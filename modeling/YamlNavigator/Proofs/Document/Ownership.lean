import YamlNavigator.Proofs.Document.Aggregation
import YamlNavigator.Proofs.Document.Composition
import YamlNavigator.Proofs.Yaml.Derivation

/-!
The tokens that nodes own, and the units that these were made from.

* `TokenKind.isContent`: the kinds of scalars, aliases, anchors and tags;
* `Source.exists_dropWhile`: the units from an offset on, if the offset lies between two units;
* `Source.mem_leadingProperties`, `Source.firstAccepted?_eq_some`: the tokens of a node's properties
  and of its text are found among these units;
* `Node.owned`, `Node.mem_tokens`: the tokens that a tree owns, which are its tokens if no two of
  them have the same index;
* `Node.Complete`: no node of a tree misses a token of its span;
* `Held`: trees that own the tokens of the units that they were read from, and lie between the units
  before and behind; `Held.parent`: a node above trees that are held is held.
-/

namespace YamlNavigator

open Yaml Grammar

/-! ### Kinds of tokens -/

/-- The kinds of scalars, aliases, anchors and tags. -/
def TokenKind.isContent : TokenKind → Bool
  | .string | .singleQuotedString | .doubleQuotedString | .integer | .float | .bool | .null
  | .anchor | .reference | .tag => true
  | _ => false

/-- The tokens of scalars, aliases, anchors and tags are those of the units that belong to nodes. -/
lemma isContent_ofLexeme (l : Lexeme) :
    (TokenKind.ofLexeme l).isContent = l.content.isOwned := by
  cases hl : l.content with
  | scalar text style =>
      cases style with
      | plain =>
          simp only [TokenKind.ofLexeme, hl, TokenKind.ofPlain]
          cases PlainType.ofText text <;> rfl
      | _ => simp only [TokenKind.ofLexeme, hl, TokenKind.isContent, Content.isOwned]
  | key =>
      simp only [TokenKind.ofLexeme, hl]
      split <;> rfl
  | _ => simp only [TokenKind.ofLexeme, hl, TokenKind.isContent, Content.isOwned]

/-! ### Looking up tokens -/

namespace Source

variable {src : Source} {pre us : List (Lexeme × Token)} {offset : Nat}

/-- Units that start behind an offset are in front of no unit that starts before it. -/
lemma le_start_of_mem_dropWhile : ∀ {us : List (Lexeme × Token)}, InOrder (us.map Prod.fst) →
    (∀ u ∈ us, u.1.IsSound) → ∀ u ∈ us.dropWhile (·.1.start.index < offset),
      offset ≤ u.1.start.index
  | [], _, _, u, hu => by cases hu
  | v :: us, hord, hsound, u, hu => by
      rw [List.map_cons, InOrder, List.pairwise_cons] at hord
      by_cases hv : v.1.start.index < offset
      · rw [List.dropWhile_cons_of_pos (by simpa using hv)] at hu
        exact le_start_of_mem_dropWhile hord.2
          (fun w hw => hsound w (List.mem_cons_of_mem v hw)) u hu
      · rw [List.dropWhile_cons_of_neg (by simpa using hv)] at hu
        have hle : offset ≤ v.1.start.index := by omega
        rcases List.mem_cons.mp hu with rfl | hu
        · exact hle
        · have hstart := (hsound v List.mem_cons_self).start_le
          have hstop := hord.1 u.1 (List.mem_map_of_mem hu)
          exact Nat.le_trans hle (Nat.le_trans hstart hstop)

/-- The units from an offset on that lies between units: those behind it, and in front of them units
that take no text and belong to no node. -/
lemma exists_dropWhile (hL : IsStream (src.units.map Prod.fst)) (h : src.units = pre ++ us)
    (hpre : ∀ u ∈ pre, u.1.stop.index ≤ offset) (hus : ∀ u ∈ us, offset ≤ u.1.start.index) :
    ∃ zs, src.units.dropWhile (·.1.start.index < offset) = zs ++ us ∧
      ∀ z ∈ zs, z.1.isEmpty = true ∧ z.1.content.isOwned = false := by
  have hback : us.dropWhile (·.1.start.index < offset) = us := by
    cases us with
    | nil => rfl
    | cons u us =>
        have hu := hus u List.mem_cons_self
        exact List.dropWhile_cons_of_neg (by simpa using hu)
  refine ⟨pre.dropWhile (·.1.start.index < offset), ?_, fun z hz => ?_⟩
  · rw [h, List.dropWhile_append]
    split
    · next hnil => rw [hback, List.isEmpty_iff.mp hnil, List.nil_append]
    · rfl
  · have hmem : z ∈ pre := (List.dropWhile_suffix _).subset hz
    have hsound : ∀ u ∈ pre, u.1.IsSound := fun u hu =>
      hL.isSound u.1 (List.mem_map_of_mem (h ▸ List.mem_append_left us hu))
    have hord : InOrder (pre.map Prod.fst) := by
      have := hL.inOrder
      rw [h, List.map_append, InOrder, List.pairwise_append] at this
      exact this.1
    have hstart := le_start_of_mem_dropWhile hord hsound z hz
    have hle := Nat.le_trans (hpre z hmem) hstart
    refine ⟨by simpa [Lexeme.isEmpty] using hle, ?_⟩
    rw [← Bool.not_eq_true]
    intro howned
    have := (hsound z hmem).start_lt howned
    omega

/-- Properties that stand in front of a node, with nothing but units without text between them, are
its leading properties. -/
lemma mem_leadingProperties {u : Lexeme × Token} {r : List (Lexeme × Token)}
    (hu : u.1.isProperty = true) : ∀ {xs : List (Lexeme × Token)},
      (∀ x ∈ xs, x.1.isProperty = true ∨ x.1.isEmpty = true) → u ∈ xs →
        u.2 ∈ leadingProperties (xs ++ r)
  | [], _, hmem => by cases hmem
  | (l, t) :: xs, hxs, hmem => by
      have ih := mem_leadingProperties hu (r := r) fun x hx => hxs x (List.mem_cons_of_mem _ hx)
      rw [List.cons_append, leadingProperties]
      rcases List.mem_cons.mp hmem with rfl | hmem
      · rw [if_pos hu]
        exact List.mem_cons_self
      · split
        · exact List.mem_cons_of_mem t (ih hmem)
        · next hl =>
            rw [if_pos ((hxs (l, t) List.mem_cons_self).resolve_left hl)]
            exact ih hmem

/-- A unit of an accepted kind is found behind properties and units without text. -/
lemma firstAccepted?_eq_some {accepts : Content → Bool} {stop : Nat} {u : Lexeme × Token}
    {r : List (Lexeme × Token)} (hu : accepts u.1.content = true) (hstop : u.1.stop.index ≤ stop) :
    ∀ {xs : List (Lexeme × Token)}, (∀ x ∈ xs, accepts x.1.content = false ∧
      (x.1.isProperty = true ∨ x.1.isEmpty = true)) →
        firstAccepted? accepts stop (xs ++ u :: r) = some u.2
  | [], _ => by
      obtain ⟨l, t⟩ := u
      rw [List.nil_append, firstAccepted?, if_pos (by simp [hu, hstop])]
  | (l, t) :: xs, hxs => by
      obtain ⟨haccepts, hpass⟩ := hxs (l, t) List.mem_cons_self
      rw [List.cons_append, firstAccepted?, if_neg (by simp [haccepts]),
        if_pos (by simpa using hpass)]
      exact firstAccepted?_eq_some hu hstop fun x hx => hxs x (List.mem_cons_of_mem _ hx)

/-- The leading properties are tokens of units. -/
lemma exists_of_mem_leadingProperties {t : Token} : ∀ {us : List (Lexeme × Token)},
    t ∈ leadingProperties us → ∃ l, (l, t) ∈ us
  | [], h => by cases h
  | (l, u) :: us, h => by
      rw [leadingProperties] at h
      split at h
      · rcases List.mem_cons.mp h with rfl | h
        · exact ⟨l, List.mem_cons_self⟩
        · obtain ⟨k, hk⟩ := exists_of_mem_leadingProperties h
          exact ⟨k, List.mem_cons_of_mem _ hk⟩
      · split at h
        · obtain ⟨k, hk⟩ := exists_of_mem_leadingProperties h
          exact ⟨k, List.mem_cons_of_mem _ hk⟩
        · cases h

/-- A first accepted unit is one of the units. -/
lemma exists_of_firstAccepted? {accepts : Content → Bool} {stop : Nat} {t : Token} :
    ∀ {us : List (Lexeme × Token)}, firstAccepted? accepts stop us = some t → ∃ l, (l, t) ∈ us
  | [], h => by cases h
  | (l, u) :: us, h => by
      rw [firstAccepted?] at h
      split at h
      · cases h
        exact ⟨l, List.mem_cons_self⟩
      · split at h
        · obtain ⟨k, hk⟩ := exists_of_firstAccepted? h
          exact ⟨k, List.mem_cons_of_mem _ hk⟩
        · cases h

/-- The tokens of properties are tokens of units. -/
lemma exists_of_mem_propertyTokens {anchor tag : Option String} {t : Token}
    (h : t ∈ src.propertyTokens anchor tag offset) : ∃ l, (l, t) ∈ src.units := by
  rw [propertyTokens] at h
  split at h
  · cases h
  · obtain ⟨l, hl⟩ := exists_of_mem_leadingProperties h
    exact ⟨l, (List.dropWhile_suffix _).subset hl⟩

/-- A defining token is the token of a unit. -/
lemma exists_of_definingToken? {accepts : Content → Bool} {stop : Nat} {t : Token}
    (h : src.definingToken? accepts offset stop = some t) : ∃ l, (l, t) ∈ src.units := by
  rw [definingToken?] at h
  split at h
  · next u hu =>
      cases h
      obtain ⟨l, hl⟩ := exists_of_firstAccepted? hu
      exact ⟨l, (List.dropWhile_suffix _).subset hl⟩
  · obtain ⟨⟨l, u⟩, hu, rfl⟩ := Option.map_eq_some_iff.mp h
    have hmem := List.mem_of_find?_eq_some hu
    exact ⟨l, (List.takeWhile_prefix _).subset (List.mem_reverse.mp hmem)⟩

end Source

/-! ### Tokens of trees -/

namespace Node

/-- The nodes below a node of a tree are nodes of the tree. -/
lemma mem_depthFirst_trans {m n : Node} (hm : m ∈ n.depthFirst) (k : Node) :
    n ∈ k.depthFirst → m ∈ k.depthFirst := by
  induction k using children_induction with
  | step k ih =>
      intro hn
      rw [depthFirst_eq] at hn
      rcases List.mem_cons.mp hn with rfl | hn
      · exact hm
      · obtain ⟨c, hc, hn⟩ := List.mem_flatMap.mp hn
        rw [depthFirst_eq]
        exact List.mem_cons_of_mem k (List.mem_flatMap.mpr ⟨c, hc, ih c hc hn⟩)

/-- The tokens that the nodes of a tree own, in depth-first order. -/
def owned (n : Node) : List Token := n.depthFirst.flatMap ownTokens

/-- A tree owns the tokens of its root and those of the trees below. -/
lemma owned_eq (n : Node) : n.owned = n.ownTokens ++ n.children.flatMap owned := by
  rw [owned, depthFirst_eq, List.flatMap_cons, List.flatMap_assoc]
  rfl

/-- A tree owns the same tokens at other paths. -/
lemma owned_mapPaths (f : String → String) (n : Node) : (n.mapPaths f).owned = n.owned := by
  rw [owned, depthFirst_mapPaths, List.flatMap_map]
  refine List.flatMap_congr fun m _ => ?_
  rw [ownTokens, ownTokens, token, token, info_mapPaths]

/-- No token is found that was not added. -/
lemma mem_of_mem_foldl_addToken {u : Token} : ∀ {ts acc : List Token},
    u ∈ ts.foldl addToken acc → u ∈ acc ∨ u ∈ ts
  | [], acc, h => .inl h
  | t :: ts, acc, h => by
      rw [List.foldl_cons] at h
      rcases mem_of_mem_foldl_addToken h with h | h
      · rw [addToken] at h
        split at h
        · exact .inl h
        · rcases List.mem_append.mp h with h | h
          · exact .inl h
          · exact .inr (List.mem_cons.mpr (.inl (List.mem_singleton.mp h)))
      · exact .inr (List.mem_cons_of_mem t h)

/-- A tree owns its tokens. -/
lemma mem_owned_of_mem_tokens {n : Node} {t : Token} (h : t ∈ n.tokens) : t ∈ n.owned := by
  rw [tokens_eq_foldl] at h
  exact (mem_of_mem_foldl_addToken h).resolve_left List.not_mem_nil

/-- For a token that a tree owns there is one of its index among the tree's tokens. -/
lemma exists_mem_tokens {n : Node} {t : Token} (h : t ∈ n.owned) :
    ∃ u ∈ n.tokens, u.index = t.index :=
  exists_mem_tokens_iff.mpr ⟨t, h, rfl⟩

/-- A token that a tree owns is among its tokens, unless the tree owns another one of its index. -/
theorem mem_tokens {n : Node} {t : Token} (h : t ∈ n.owned)
    (hindex : ∀ u ∈ n.owned, u.index = t.index → u = t) : t ∈ n.tokens := by
  obtain ⟨u, hu, heq⟩ := exists_mem_tokens h
  rwa [← hindex u (mem_owned_of_mem_tokens hu) heq]

/-- No node of a tree misses a token: if a unit that belongs to nodes lies inside the span of a
node, the tree of that node owns its token. -/
def Complete (us : List (Lexeme × Token)) (n : Node) : Prop :=
  ∀ m ∈ n.depthFirst, ∀ u ∈ us, u.1.content.isOwned = true → m.start ≤ u.1.start.index →
    u.1.stop.index ≤ m.stop → u.2 ∈ m.owned

/-- A complete tree is complete at other paths. -/
lemma Complete.mapPaths {us : List (Lexeme × Token)} {n : Node} (h : n.Complete us)
    (f : String → String) : (n.mapPaths f).Complete us := by
  intro m hm u hu howned hstart hstop
  rw [depthFirst_mapPaths] at hm
  obtain ⟨k, hk, rfl⟩ := List.mem_map.mp hm
  rw [start, info_mapPaths] at hstart
  rw [stop, info_mapPaths] at hstop
  rw [owned_mapPaths]
  exact h k hk u hu howned hstart hstop

end Node

/-! ### Trees and the units that they were read from -/

/-- Trees that were read from the units `mid`: they lie behind the units `pre` and before the units
`back`, own the tokens of the units between and only tokens of units, and miss none in any span. -/
structure Held (src : Source) (pre mid back : List (Lexeme × Token)) (vs : List Node) : Prop where
  before : ∀ v ∈ vs, ∀ u ∈ pre, u.1.stop.index ≤ v.start
  behind : ∀ v ∈ vs, ∀ u ∈ back, v.stop ≤ u.1.start.index
  owned : ∀ u ∈ mid, u.1.content.isOwned = true → u.2 ∈ vs.flatMap Node.owned
  complete : ∀ v ∈ vs, v.Complete src.units
  sourced : ∀ v ∈ vs, ∀ t ∈ v.owned, ∃ l, (l, t) ∈ src.units

namespace Held

variable {src : Source} {pre mid mid' back : List (Lexeme × Token)} {vs vs' : List Node} {v : Node}

/-- No trees are read from no units. -/
lemma nil (src : Source) (pre back : List (Lexeme × Token)) : Held src pre [] back [] := by
  constructor <;> simp

/-- No trees are read from units that are structure. -/
lemma of_structure {cs : List (Lexeme × Token)} (hcs : ∀ u ∈ cs, u.1.content.isOwned = false) :
    Held src pre cs back [] where
  before v hv := by cases hv
  behind v hv := by cases hv
  owned u hu howned := by
    rw [hcs u hu] at howned
    cases howned
  complete v hv := by cases hv
  sourced v hv := by cases hv

/-- A unit that is structure may stand in front. -/
lemma skip {u : Lexeme × Token} (hu : u.1.content.isOwned = false)
    (h : Held src (pre ++ [u]) mid back vs) : Held src pre (u :: mid) back vs where
  before v hv w hw := h.before v hv w (List.mem_append_left _ hw)
  behind := h.behind
  owned w hw howned := by
    rcases List.mem_cons.mp hw with rfl | hw
    · rw [hu] at howned
      cases howned
    · exact h.owned w hw howned
  complete := h.complete
  sourced := h.sourced

/-- Trees that were read one behind another. -/
lemma append (h : Held src pre mid (mid' ++ back) vs) (h' : Held src (pre ++ mid) mid' back vs') :
    Held src pre (mid ++ mid') back (vs ++ vs') where
  before v hv u hu := by
    rcases List.mem_append.mp hv with hv | hv
    · exact h.before v hv u hu
    · exact h'.before v hv u (List.mem_append_left mid hu)
  behind v hv u hu := by
    rcases List.mem_append.mp hv with hv | hv
    · exact h.behind v hv u (List.mem_append_right mid' hu)
    · exact h'.behind v hv u hu
  owned u hu howned := by
    rw [List.flatMap_append, List.mem_append]
    rcases List.mem_append.mp hu with hu | hu
    · exact .inl (h.owned u hu howned)
    · exact .inr (h'.owned u hu howned)
  complete v hv := by
    rcases List.mem_append.mp hv with hv | hv
    · exact h.complete v hv
    · exact h'.complete v hv
  sourced v hv := by
    rcases List.mem_append.mp hv with hv | hv
    · exact h.sourced v hv
    · exact h'.sourced v hv

/-- A tree that was read in front of others. -/
lemma cons (h : Held src pre mid (mid' ++ back) [v]) (h' : Held src (pre ++ mid) mid' back vs) :
    Held src pre (mid ++ mid') back (v :: vs) :=
  h.append h'

/-- A tree that was read may be moved to other paths. -/
lemma mapPaths (h : Held src pre mid back [v]) (f : String → String) :
    Held src pre mid back [v.mapPaths f] where
  before w hw u hu := by
    rw [List.mem_singleton.mp hw, Node.start, Node.info_mapPaths]
    exact h.before v (List.mem_singleton_self v) u hu
  behind w hw u hu := by
    rw [List.mem_singleton.mp hw, Node.stop, Node.info_mapPaths]
    exact h.behind v (List.mem_singleton_self v) u hu
  owned u hu howned := by
    have hmem := h.owned u hu howned
    rw [List.flatMap_singleton] at hmem ⊢
    rwa [Node.owned_mapPaths]
  complete w hw := by
    rw [List.mem_singleton.mp hw]
    exact (h.complete v (List.mem_singleton_self v)).mapPaths f
  sourced w hw t ht := by
    rw [List.mem_singleton.mp hw, Node.owned_mapPaths] at ht
    exact h.sourced v (List.mem_singleton_self v) t ht

/-- A node above trees that were read, which owns the tokens of the units in front of them and lies
where the units lie. -/
lemma parent {ps : List (Lexeme × Token)} (hL : IsStream (src.units.map Prod.fst))
    (hunits : src.units = pre ++ (ps ++ mid ++ back)) (h : Held src (pre ++ ps) mid back v.children)
    (hbefore : ∀ u ∈ pre, u.1.stop.index ≤ v.start) (hbehind : ∀ u ∈ back, v.stop ≤ u.1.start.index)
    (howned : ∀ u ∈ ps, u.1.content.isOwned = true → u.2 ∈ v.ownTokens)
    (hsourced : ∀ t ∈ v.ownTokens, ∃ l, (l, t) ∈ src.units) :
    Held src pre (ps ++ mid) back [v] := by
  have hall : ∀ u ∈ ps ++ mid, u.1.content.isOwned = true → u.2 ∈ v.owned := by
    intro u hu hcontent
    rw [Node.owned_eq, List.mem_append]
    rcases List.mem_append.mp hu with hu | hu
    · exact .inl (howned u hu hcontent)
    · exact .inr (h.owned u hu hcontent)
  constructor
  · intro w hw
    rw [List.mem_singleton.mp hw]
    exact hbefore
  · intro w hw
    rw [List.mem_singleton.mp hw]
    exact hbehind
  · intro u hu hcontent
    rw [List.flatMap_singleton]
    exact hall u hu hcontent
  · intro w hw m hm u hu hcontent hstart hstop
    rw [List.mem_singleton.mp hw, Node.depthFirst_eq] at hm
    rcases List.mem_cons.mp hm with rfl | hm
    · -- units before the node end before it starts, units behind it start where it stops or later
      have hlt := (hL.isSound u.1 (List.mem_map_of_mem hu)).start_lt hcontent
      rw [hunits] at hu
      rcases List.mem_append.mp hu with hu | hu
      · have := hbefore u hu
        omega
      · rcases List.mem_append.mp hu with hu | hu
        · exact hall u hu hcontent
        · have := hbehind u hu
          omega
    · obtain ⟨c, hc, hm⟩ := List.mem_flatMap.mp hm
      exact h.complete c hc m hm u hu hcontent hstart hstop
  · intro w hw t ht
    rw [List.mem_singleton.mp hw, Node.owned_eq, List.mem_append] at ht
    rcases ht with ht | ht
    · exact hsourced t ht
    · obtain ⟨c, hc, ht⟩ := List.mem_flatMap.mp ht
      exact h.sourced c hc t ht

end Held

end YamlNavigator
