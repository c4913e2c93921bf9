import YamlNavigator.Proofs.Document.Growth
import YamlNavigator.Proofs.Document.Neighbours
import YamlNavigator.Proofs.Yaml.Marks

/-!
The units that open collections, and the tokens that collections show.

* `Opens`, `IsPair`: a collection and the unit of its own that opens it, or a pair of a flow
  sequence, which has none;
* `BeginsFirstKey`, `hasMappingKey_iff`: a mapping that stands at the start of a block mapping, as
  its first key, and that this can be decided;
* `DefinedBy.token_iff`: a collection shows the unit that opens it, unless it is a mapping that
  stands so; then it shows the mark of the block mapping;
* `Grown.openers`: the collections of a forest are opened by different units, in their order;
* `collections_opened`: the same for the texts that are accepted;
* `collections_sharing`: a text in which two collections show one token.
-/

namespace YamlNavigator

open Yaml Grammar

/-! ### Units without text -/

section Units

variable {us front back : List (Lexeme × Token)} {u w : Lexeme × Token}

/-- Units without text are points, or marks of keys without a question mark. -/
lemma isPoint_of_isEmpty {l : Lexeme} (h : l.IsSound) (hempty : l.isEmpty = true) :
    l.content.isPoint = true ∨ l.content = .key := by
  rw [Lexeme.IsSound] at h
  split at h
  · next hpoint => exact .inl hpoint
  · split at h
    · next hkey => exact .inr hkey
    · simp only [Lexeme.isEmpty, decide_eq_true_eq] at hempty
      omega

/-- The units without text that can define a node are the starts of block collections. -/
lemma NodeKind.eq_of_accepts {k : NodeKind} {l : Lexeme} (h : k.accepts l.content = true)
    (hsound : l.IsSound) (hempty : l.isEmpty = true) :
    k = .mapping ∧ l.content = .blockMappingStart ∨
      k = .sequence ∧ l.content = .blockSequenceStart := by
  have hpoint := isPoint_of_isEmpty hsound hempty
  revert h hpoint
  cases k <;> cases l.content <;>
    simp [accepts, isReferenceUnit, isScalarUnit, isSequenceUnit, isMappingUnit, Content.isPoint]

/-- The units of a text are followed as they ask. -/
lemma isChain_unitsOf {s : List Char} {ls : List Lexeme} (h : Lexeme.scan s = .ok ls) :
    ((unitsOf s ls).map Prod.fst).IsChain Follows := by
  rw [map_fst_unitsOf]
  exact isChain_follows_of_scan h

/-- Neighbours among such units follow one another as they ask. -/
lemma follows_of_isChain (hchain : (us.map Prod.fst).IsChain Follows)
    (hunits : us = front ++ u :: w :: back) : Follows u.1 w.1 := by
  rw [hunits, List.map_append, List.map_cons, List.map_cons,
    List.isChain_append_cons_cons] at hchain
  exact hchain.2.1

/-- Properties behind a unit that is none begin directly behind it, wherever they end. -/
lemma append_properties_inj {pre pre' ps ps' : List (Lexeme × Token)}
    (h : pre ++ ps = pre' ++ ps') (hps : ∀ p ∈ ps, p.1.isProperty = true)
    (hps' : ∀ p ∈ ps', p.1.isProperty = true)
    (hpre : ∀ w ∈ pre.getLast?, w.1.isProperty = false)
    (hpre' : ∀ w ∈ pre'.getLast?, w.1.isProperty = false) : pre = pre' ∧ ps = ps' := by
  -- what the one list of properties holds more than the other ends in a unit that is none
  have hnil : ∀ {pre as ps ps' : List (Lexeme × Token)}, ps = as ++ ps' →
      (∀ p ∈ ps, p.1.isProperty = true) → (∀ w ∈ (pre ++ as).getLast?, w.1.isProperty = false) →
      as = [] := by
    intro pre as ps ps' hsplit hps hlast
    rcases List.eq_nil_or_concat as with rfl | ⟨as, a, rfl⟩
    · rfl
    · have hprop := hps a (by simp [hsplit])
      rw [hlast a (by simp)] at hprop
      cases hprop
  rcases List.append_eq_append_iff.mp h with ⟨as, rfl, hsplit⟩ | ⟨as, rfl, hsplit⟩
  · obtain rfl := hnil hsplit hps hpre'
    exact ⟨by simp, by simpa using hsplit⟩
  · obtain rfl := hnil hsplit hps' hpre
    exact ⟨by simp, by simpa using hsplit.symm⟩

end Units

/-! ### Collections and their units -/

/-- Is the node a mapping or a sequence? -/
def Node.isCollection (n : Node) : Bool := n.kind = .mapping || n.kind = .sequence

/-- The unit opens the collection: it is one of its kind, it stands with the properties in front of
it behind a unit that leads to a node, the collection starts with the first of these, and all that
is in the collection starts behind it. -/
structure Opens (us : List (Lexeme × Token)) (n : Node) (u : Lexeme × Token) : Prop where
  accepted : n.kind.accepts u.1.content = true
  stands : ∃ pre ps back, us = pre ++ (ps ++ u :: back) ∧ LeadsNode pre ∧
    (∀ p ∈ ps, p.1.isProperty = true) ∧
      n.start = (front ((ps ++ u :: back).map Prod.fst)).start.index
  children : ∀ c ∈ n.children, u.1.stop.index ≤ c.start

/-- The node is a pair of a flow sequence: a mapping that starts with the mark of its key, and shows
the bracket or the comma in front of it. -/
structure IsPair (us : List (Lexeme × Token)) (n : Node) : Prop where
  kind : n.kind = .mapping
  stands : ∃ pre lead key back, us = pre ++ lead :: key :: back ∧
    leadsItem true lead.1.content = true ∧ key.1.content = .key ∧
      n.start = key.1.start.index ∧ n.token = some lead.2

/-- The unit `u`, which opens a mapping, begins with its properties the first key of a block
mapping, of which `mark` is the mark. The block mapping starts at the same place. -/
def BeginsFirstKey (us : List (Lexeme × Token)) (mark u : Lexeme × Token) : Prop :=
  isMappingUnit u.1.content = true ∧ ∃ pre key ps back, us = pre ++ mark :: key :: (ps ++ u :: back) ∧
    mark.1.content = .blockMappingStart ∧ (key.1.content = .key ∧ key.1.isEmpty = true) ∧
      ∀ p ∈ ps, p.1.isProperty = true

/-- Behind the properties at the front stands a unit that opens a mapping. -/
def opensMapping : List (Lexeme × Token) → Bool
  | [] => false
  | u :: us => isMappingUnit u.1.content || u.1.isProperty && opensMapping us

/-- Does a mapping begin the first key of a block mapping? -/
def hasMappingKey : List (Lexeme × Token) → Bool
  | mark :: key :: us =>
      mark.1.content = .blockMappingStart && (key.1.content = .key && key.1.isEmpty) &&
        opensMapping us || hasMappingKey (key :: us)
  | _ => false

lemma opensMapping_iff {us : List (Lexeme × Token)} : opensMapping us = true ↔
    ∃ ps u back, us = ps ++ u :: back ∧ isMappingUnit u.1.content = true ∧
      ∀ p ∈ ps, p.1.isProperty = true := by
  induction us with
  | nil => simp [opensMapping]
  | cons u us ih =>
      rw [opensMapping, Bool.or_eq_true, Bool.and_eq_true, ih]
      constructor
      · rintro (hu | ⟨hu, ps, w, back, rfl, hw, hps⟩)
        · exact ⟨[], u, us, rfl, hu, by simp⟩
        · exact ⟨u :: ps, w, back, rfl, hw, List.forall_mem_cons.mpr ⟨hu, hps⟩⟩
      · rintro ⟨ps, w, back, hsplit, hw, hps⟩
        cases ps with
        | nil => exact .inl (by rwa [(List.cons.inj hsplit).1])
        | cons p ps =>
            obtain ⟨rfl, rfl⟩ := List.cons.inj hsplit
            exact .inr ⟨hps u List.mem_cons_self, ps, w, back, rfl, hw,
              fun p hp => hps p (List.mem_cons_of_mem u hp)⟩

/-- Whether a mapping begins the first key of a block mapping can be decided. -/
lemma hasMappingKey_iff {us : List (Lexeme × Token)} :
    hasMappingKey us = true ↔ ∃ mark u, BeginsFirstKey us mark u := by
  induction us with
  | nil => simp [hasMappingKey, BeginsFirstKey]
  | cons mark us ih =>
      cases us with
      | nil => simp [hasMappingKey, BeginsFirstKey, List.cons_eq_append_iff]
      | cons key us =>
          simp only [hasMappingKey, Bool.or_eq_true, Bool.and_eq_true, decide_eq_true_eq,
            opensMapping_iff, ih]
          constructor
          · rintro (⟨⟨hmark, hkey⟩, ps, u, back, rfl, hu, hps⟩ |
              ⟨mark', u, hu, pre, k, ps, back, hsplit, hrest⟩)
            · exact ⟨mark, u, hu, [], key, ps, back, rfl, hmark, hkey, hps⟩
            · exact ⟨mark', u, hu, mark :: pre, k, ps, back, by rw [hsplit]; rfl, hrest⟩
          · rintro ⟨mark', u, hu, pre, k, ps, back, hsplit, hmark, hkey, hps⟩
            cases pre with
            | nil =>
                obtain ⟨rfl, hus⟩ := List.cons.inj hsplit
                obtain ⟨rfl, rfl⟩ := List.cons.inj hus
                exact .inl ⟨⟨hmark, hkey⟩, ps, u, back, rfl, hu, hps⟩
            | cons w pre =>
                have hus := (List.cons.inj hsplit).2
                exact .inr ⟨mark', u, hu, pre, k, ps, back, hus, hmark, hkey, hps⟩

instance (us : List (Lexeme × Token)) : Decidable (∃ mark u, BeginsFirstKey us mark u) :=
  decidable_of_iff _ hasMappingKey_iff

section Collections

variable {src : Source} {pre ps back mid : List (Lexeme × Token)} {u : Lexeme × Token} {v : Node}
variable {vs : List Node}

/-- Units that lead to nodes are no properties. -/
lemma LeadsNode.isProperty (h : LeadsNode pre) : ∀ w ∈ pre.getLast?, w.1.isProperty = false := by
  obtain ⟨front, lead, rfl, hlead⟩ := h
  intro w hw
  obtain rfl : lead = w := by simpa using hw
  revert hlead
  rw [Lexeme.isProperty]
  cases lead.1.content <;> simp [leadsNode]

/-- A node that shows another unit than its own is a mapping at the start of a block mapping, behind
the mark of that and the mark of its first key. -/
lemma DefinedBy.token_cases (hL : IsStream (src.units.map Prod.fst))
    (hchain : (src.units.map Prod.fst).IsChain Follows) (h : DefinedBy src pre ps u back v) :
    (v.token = some u.2 ∧
      ∀ z ∈ pre, v.start ≤ z.1.start.index → v.kind.accepts z.1.content = false) ∨
    v.kind = .mapping ∧ ∃ front mark key, pre = front ++ [mark, key] ∧
      mark.1.content = .blockMappingStart ∧ (key.1.content = .key ∧ key.1.isEmpty = true) ∧
        v.token = some mark.2 := by
  refine (h.token_or hL).imp_right ?_
  rintro ⟨front, z, zs, hpre, htoken, haccepted, hempty⟩
  have hsound : ∀ w ∈ z :: zs, w.1.IsSound := by
    intro w hw
    have hmem : w ∈ pre ++ (ps ++ u :: back) :=
      List.mem_append_left _ (by rw [hpre]; exact List.mem_append_right front hw)
    exact hL.isSound w.1 (List.mem_map_of_mem (by rwa [← h.units] at hmem))
  have hz := NodeKind.eq_of_accepts haccepted (hsound z List.mem_cons_self)
    (hempty z List.mem_cons_self).1
  obtain ⟨front', lead, hlast, hlead⟩ := h.lead
  cases zs with
  | nil =>
      -- the start of a block collection leads to no node
      obtain rfl : z = lead :=
        List.singleton_inj.mp (List.append_inj_right' (hpre.symm.trans hlast) rfl)
      rcases hz with ⟨-, hz⟩ | ⟨-, hz⟩ <;> rw [hz] at hlead <;> cases hlead
  | cons w zs =>
      have hwempty := (hempty w (by simp)).1
      have hwpoint := isPoint_of_isEmpty (hsound w (by simp)) hwempty
      have hfollows : Follows z.1 w.1 := follows_of_isChain hchain
        (show src.units = front ++ z :: w :: (zs ++ (ps ++ u :: back)) by rw [h.units, hpre]; simp)
      -- behind it stands no unit without text but the mark of a key
      obtain ⟨hkind, hz, hw⟩ : v.kind = .mapping ∧ z.1.content = .blockMappingStart ∧
          w.1.content = .key := by
        rcases hz with ⟨hkind, hz⟩ | ⟨-, hz⟩
        · rw [Follows, hz] at hfollows
          refine ⟨hkind, hz, hfollows.1.resolve_right fun hw => ?_⟩
          simp [hw, Content.isPoint] at hwpoint
        · rw [Follows, hz] at hfollows
          simp [hfollows.1, Content.isPoint] at hwpoint
      refine ⟨hkind, front, z, w, ?_, hz, ⟨hw, hwempty⟩, htoken⟩
      cases zs with
      | nil => exact hpre
      | cons x zs =>
          have hbehind : Follows w.1 x.1 := follows_of_isChain hchain
            (show src.units = (front ++ [z]) ++ w :: x :: (zs ++ (ps ++ u :: back)) by
              rw [h.units, hpre]; simp)
          rw [Follows, hw] at hbehind
          have htext := (hbehind hwempty).1
          rw [(hempty x (by simp)).1] at htext
          cases htext

/-- A mapping that begins the first key of a block mapping shows the mark of that. -/
lemma DefinedBy.token_of_firstKey (hL : IsStream (src.units.map Prod.fst))
    (hchain : (src.units.map Prod.fst).IsChain Follows) {front : List (Lexeme × Token)}
    {mark key : Lexeme × Token} (h : DefinedBy src (front ++ [mark, key]) ps u back v)
    (hmark : mark.1.content = .blockMappingStart) (hkey : key.1.content = .key)
    (hempty : key.1.isEmpty = true) (hkind : v.kind = .mapping) : v.token = some mark.2 := by
  rcases h.token_cases hL hchain with ⟨-, hnone⟩ | ⟨-, front', mark', key', hpre, -, -, htoken⟩
  · -- the mark stands at the start of the node
    exfalso
    obtain ⟨x, more, hx⟩ : ∃ x more, ps ++ u :: back = x :: more := by
      cases ps with
      | nil => exact ⟨u, back, rfl⟩
      | cons p ps => exact ⟨p, ps ++ u :: back, rfl⟩
    have hfirst : Follows mark.1 key.1 := follows_of_isChain hchain
      (show src.units = front ++ mark :: key :: (x :: more) by rw [h.units, hx]; simp)
    have hsecond : Follows key.1 x.1 := follows_of_isChain hchain
      (show src.units = (front ++ [mark]) ++ key :: x :: more by rw [h.units, hx]; simp)
    rw [Follows, hmark] at hfirst
    rw [Follows, hkey] at hsecond
    have hstart : v.start = mark.1.start.index := by
      rw [h.start_eq, hx, List.map_cons, front_cons, (hsecond hempty).2, hfirst.2]
    have haccepted := hnone mark (by simp) (Nat.le_of_eq hstart)
    rw [hkind, hmark] at haccepted
    cases haccepted
  · obtain ⟨-, heq⟩ := List.append_inj' hpre rfl
    obtain ⟨rfl, -⟩ := List.cons.inj heq
    exact htoken

/-- A node shows its unit if this does not begin the first key of a block mapping. -/
lemma DefinedBy.token_eq (hL : IsStream (src.units.map Prod.fst))
    (hchain : (src.units.map Prod.fst).IsChain Follows) (h : DefinedBy src pre ps u back v)
    (hnone : ¬∃ mark, BeginsFirstKey src.units mark u) : v.token = some u.2 := by
  rcases h.token_cases hL hchain with ⟨htoken, -⟩ | ⟨hkind, front, mark, key, hpre, hmark, hkey, -⟩
  · exact htoken
  · refine absurd ⟨mark, ?_, front, key, ps, back, ?_, hmark, hkey, h.bears.isProperty⟩ hnone
    · have haccepted := h.accepted
      rwa [hkind] at haccepted
    · rw [h.units, hpre]
      simp

/-- A collection shows the unit that opens it, unless this begins the first key of a block mapping;
then it shows the mark of that. -/
theorem DefinedBy.token_iff (hL : IsStream (src.units.map Prod.fst)) (hnum : Numbered src.units)
    (hchain : (src.units.map Prod.fst).IsChain Follows) (h : DefinedBy src pre ps u back v)
    (hkind : v.isCollection = true) :
    (v.token = some u.2 ↔ ¬∃ mark, BeginsFirstKey src.units mark u) ∧
      ∀ mark, BeginsFirstKey src.units mark u → v.token = some mark.2 := by
  have hshows : ∀ mark, BeginsFirstKey src.units mark u → v.token = some mark.2 := by
    rintro mark ⟨hu, pre', key, ps', back', hunits, hmark, ⟨hkey, hempty⟩, hps'⟩
    have hsplit : src.units = (pre' ++ [mark, key] ++ ps') ++ u :: back' := by simp [hunits]
    obtain ⟨hfront, -, -⟩ := hnum.split_unique rfl
      (show src.units = (pre ++ ps) ++ u :: back by rw [h.units]; simp) hsplit
    obtain ⟨rfl, rfl⟩ := append_properties_inj hfront h.bears.isProperty hps' h.lead.isProperty
      fun w hw => by
        obtain rfl : key = w := by simpa using hw
        simp [Lexeme.isProperty, hkey]
    refine h.token_of_firstKey hL hchain hmark hkey hempty ?_
    have haccepted := h.accepted
    revert hkind haccepted hu
    rw [Node.isCollection]
    cases v.kind <;> cases u.1.content <;>
      simp [NodeKind.accepts, isMappingUnit, isSequenceUnit]
  refine ⟨⟨fun htoken => ?_, fun hnone => ?_⟩, hshows⟩
  · rintro ⟨mark, hmark⟩
    have heq := htoken.symm.trans (hshows mark hmark)
    obtain ⟨-, front, key, ps', back', hunits, -⟩ := hmark
    -- the mark stands in front of the unit
    have hlt : mark.2.index < u.2.index := by
      rw [Numbered, hunits, List.pairwise_append, List.pairwise_cons] at hnum
      exact hnum.2.1.1 u (by simp)
    rw [Option.some_inj.mp heq] at hlt
    exact absurd hlt (Int.lt_irrefl _)
  · exact h.token_eq hL hchain hnone

/-- A pair shows the bracket or the comma in front of it, which has text. -/
lemma PairAt.exists_lead {key : Lexeme × Token} (hL : IsStream (src.units.map Prod.fst))
    (hchain : (src.units.map Prod.fst).IsChain Follows) (h : PairAt src pre key back v) :
    ∃ front lead, pre = front ++ [lead] ∧ leadsItem true lead.1.content = true ∧
      lead.1.isEmpty = false ∧ v.token = some lead.2 := by
  obtain ⟨front, lead, rfl, hlead⟩ := h.lead
  have hunits : src.units = front ++ lead :: key :: back := by rw [h.units]; simp
  have htext : lead.1.isEmpty = false := by
    refine Compose.isEmpty_eq_false hL (by simp [hunits]) ?_ ?_ <;> revert hlead <;>
      cases lead.1.content <;> simp [leadsItem, Content.isPoint]
  refine ⟨front, lead, rfl, hlead, htext, ?_⟩
  obtain ⟨hpre, hus⟩ := Compose.cut_front hL h.units (by simp)
  rw [List.map_cons, front_cons, ← h.start_eq] at hpre hus
  have hstands : Stands src (front ++ [lead]) (key :: back) v :=
    ⟨h.units, hpre, hus, .pair hlead h.content h.properties h.token⟩
  obtain ⟨htake, hdrop⟩ := hstands.look_up hL htext
  -- behind the mark of the key, text comes before any unit that opens a mapping
  have hnone : Source.firstAccepted? isMappingUnit key.1.stop.index (key :: back) = none := by
    rw [Option.eq_none_iff_forall_not_mem]
    intro t ht
    obtain ⟨xs, w, ys, hsplit, -, hmapping, hstop, hxs⟩ :=
      Source.exists_of_firstAccepted?_eq_some ht
    cases xs with
    | nil =>
        obtain ⟨rfl, -⟩ := List.cons.inj hsplit
        rw [h.content] at hmapping
        cases hmapping
    | cons x xs =>
        obtain ⟨rfl, hback⟩ := List.cons.inj hsplit
        have hempty : key.1.isEmpty = true := by
          simpa [Lexeme.isProperty, h.content] using hxs key List.mem_cons_self
        obtain ⟨y, more, rfl⟩ : ∃ y more, back = y :: more :=
          List.exists_cons_of_ne_nil (by rw [hback]; simp)
        have hfollows : Follows key.1 y.1 := follows_of_isChain hchain
          (show src.units = (front ++ [lead]) ++ key :: y :: more from h.units)
        rw [Follows, h.content] at hfollows
        have hy := (hfollows hempty).1
        have hkey := Compose.stop_le_of_mem hL h.units (show y ∈ y :: more from List.mem_cons_self)
        have hle : y.1.stop.index ≤ w.1.stop.index := by
          cases xs with
          | nil =>
              obtain ⟨rfl, -⟩ := List.cons.inj hback
              exact Nat.le_refl _
          | cons x xs =>
              obtain ⟨rfl, rfl⟩ := List.cons.inj hback
              have hw := Compose.stop_le_of_mem hL
                (show src.units = (front ++ [lead] ++ [key]) ++ y :: (xs ++ w :: ys) by
                  rw [h.units]; simp) (show w ∈ xs ++ w :: ys by simp)
              have := (hL.isSound w.1 (List.mem_map_of_mem (by rw [h.units]; simp))).start_le
              omega
        simp only [Lexeme.isEmpty, decide_eq_false_iff_not] at hy
        omega
  have hstop := hpre lead (by simp)
  have hkey := (hL.isSound key.1 (List.mem_map_of_mem (by simp [hunits]))).start_le
  rw [h.token, Source.definingToken?, htake, hdrop, hnone]
  simp only [List.reverse_append, List.reverse_singleton, List.singleton_append, List.find?_cons]
  rw [h.start_eq] at hstop
  simp [htext, Nat.le_trans hstop hkey]

/-- A pair of a flow sequence stands so among the units. -/
lemma PairAt.isPair {key : Lexeme × Token} (hL : IsStream (src.units.map Prod.fst))
    (hchain : (src.units.map Prod.fst).IsChain Follows) (h : PairAt src pre key back v) :
    IsPair src.units v := by
  obtain ⟨front, lead, hpre, hlead, -, htoken⟩ := h.exists_lead hL hchain
  exact ⟨h.kind, front, lead, key, back, by rw [h.units, hpre]; simp, hlead, h.content, h.start_eq,
    htoken⟩

/-- What is to be known of a collection and of the unit that opens it, if there is one. -/
def Opened (us : List (Lexeme × Token)) (o : Node × Option (Lexeme × Token)) : Prop :=
  match o.2 with
  | some u => Opens us o.1 u ∧ (o.1.token = some u.2 ↔ ¬∃ mark, BeginsFirstKey us mark u) ∧
      ∀ mark, BeginsFirstKey us mark u → o.1.token = some mark.2
  | none => IsPair us o.1

/-- The collections of a forest: its first root or not, those below that, and those of the other
trees, each with the unit that opens it. -/
lemma map_fst_openers {own os os' : List (Node × Option (Lexeme × Token))}
    (hown : own.map Prod.fst = [v].filter Node.isCollection)
    (hos : os.map Prod.fst = (v.children.flatMap Node.depthFirst).filter Node.isCollection)
    (hos' : os'.map Prod.fst = (vs.flatMap Node.depthFirst).filter Node.isCollection) :
    (own ++ (os ++ os')).map Prod.fst =
      ((v :: vs).flatMap Node.depthFirst).filter Node.isCollection := by
  rw [Node.filter_flatMap_cons, List.map_append, List.map_append, hown, hos, hos']

/-- **Collections are opened by different units.** The collections of a forest that are no pairs are
opened by units of the forest, each by another one, in their order, by induction on the forest. -/
theorem Grown.openers (hL : IsStream (src.units.map Prod.fst)) (hnum : Numbered src.units)
    (hchain : (src.units.map Prod.fst).IsChain Follows) (h : Grown src pre mid vs) :
    ∃ os : List (Node × Option (Lexeme × Token)),
      os.map Prod.fst = (vs.flatMap Node.depthFirst).filter Node.isCollection ∧
        (os.filterMap Prod.snd).Sublist mid ∧ ∀ o ∈ os, Opened src.units o := by
  induction h with
  | nil => exact ⟨[], rfl, .slnil, by simp⟩
  | skip _ _ ih =>
      obtain ⟨os, hos, hsub, hopened⟩ := ih
      exact ⟨os, hos, hsub.cons _, hopened⟩
  | @unwritten _ ps _ mid _ _ h _ ih =>
      obtain ⟨os, hos, hsub, hopened⟩ := ih
      obtain ⟨info, rfl⟩ := h.eq
      exact ⟨[] ++ ([] ++ os), map_fst_openers rfl rfl hos,
        hsub.trans (List.sublist_append_right ps mid), hopened⟩
  | @defined pre ps back mid mid' u v vs h children _ ih ih' =>
      obtain ⟨os, hos, hsub, hopened⟩ := ih
      obtain ⟨os', hos', hsub', hopened'⟩ := ih'
      have hbelow : (u :: (os ++ os').filterMap Prod.snd).Sublist (ps ++ u :: mid ++ mid') := by
        rw [List.filterMap_append, List.append_assoc, List.cons_append]
        exact ((hsub.append hsub').cons_cons u).trans (List.sublist_append_right ps _)
      have hall := List.forall_mem_append.mpr ⟨hopened, hopened'⟩
      by_cases hcollection : v.isCollection = true
      · have hopens : Opens src.units v u :=
          ⟨h.accepted, ⟨pre, ps, back, h.units, h.lead, h.bears.isProperty, h.start_eq⟩,
            fun c hc => children.stop_le hL c hc u (by simp)⟩
        refine ⟨[(v, some u)] ++ (os ++ os'), map_fst_openers ?_ hos hos', hbelow,
          List.forall_mem_cons.mpr ⟨⟨hopens, h.token_iff hL hnum hchain hcollection⟩, hall⟩⟩
        rw [List.filter_cons_of_pos hcollection]
        rfl
      · refine ⟨[] ++ (os ++ os'), map_fst_openers ?_ hos hos',
          (List.sublist_cons_self u _).trans hbelow, hall⟩
        rw [List.filter_cons_of_neg hcollection]
        rfl
  | @pair pre back mid mid' key v vs h _ _ ih ih' =>
      obtain ⟨os, hos, hsub, hopened⟩ := ih
      obtain ⟨os', hos', hsub', hopened'⟩ := ih'
      have hall := List.forall_mem_append.mpr ⟨hopened, hopened'⟩
      refine ⟨[(v, none)] ++ (os ++ os'), map_fst_openers ?_ hos hos', ?_,
        List.forall_mem_cons.mpr ⟨h.isPair hL hchain, hall⟩⟩
      · rw [List.filter_cons_of_pos (by simp [Node.isCollection, h.kind])]
        rfl
      · rw [List.singleton_append, List.filterMap_cons_none rfl, List.filterMap_append]
        exact (hsub.append hsub').cons key
  | entry h _ _ ih ih' =>
      obtain ⟨os, hos, hsub, hopened⟩ := ih
      obtain ⟨os', hos', hsub', hopened'⟩ := ih'
      obtain ⟨info, rfl, -⟩ := h
      have hall := List.forall_mem_append.mpr ⟨hopened, hopened'⟩
      refine ⟨[] ++ (os ++ os'), map_fst_openers rfl hos hos', ?_, hall⟩
      rw [List.nil_append, List.filterMap_append]
      exact hsub.append hsub'

end Collections

/-! ### Texts that are accepted -/

/-- **Collections show the units that open them.** In a text that is accepted, every mapping and
every sequence is a pair of a flow sequence, or there is a unit of its own that opens it: its brace
or its bracket, the mark of its block, or its first hyphen. The units of all collections in
depth-first order stand in the order of the text, so each opens one collection. A collection shows
the token of its unit if and only if this does not begin the first key of a block mapping; else it
shows the token of the mark of that block mapping. Two collections with units of their own show the
same token for no other reason. -/
theorem collections_opened {source : String} {d : Parsed} (h : parse source = .ok d) :
    ∃ ls, Lexeme.scan source.toList = .ok ls ∧ ∃ os : List (Node × Option (Lexeme × Token)),
      os.map Prod.fst = d.documents.depthFirst.filter Node.isCollection ∧
        (os.filterMap Prod.snd).Sublist (unitsOf source.toList ls) ∧
        (∀ n, (n, none) ∈ os → IsPair (unitsOf source.toList ls) n) ∧
        (∀ n u, (n, some u) ∈ os → Opens (unitsOf source.toList ls) n u ∧
          (n.token = some u.2 ↔ ¬∃ mark, BeginsFirstKey (unitsOf source.toList ls) mark u) ∧
            ∀ mark, BeginsFirstKey (unitsOf source.toList ls) mark u → n.token = some mark.2) ∧
        ∀ n m u w, (n, some u) ∈ os → (m, some w) ∈ os → n.token = m.token → u = w ∨
          ∃ mark, BeginsFirstKey (unitsOf source.toList ls) mark u ∨
            BeginsFirstKey (unitsOf source.toList ls) mark w := by
  obtain ⟨ls, ds, hls, -, htree, hdocuments, hgrown⟩ := exists_grown_of_parse h
  have hL := isStream_unitsOf hls
  have hchain := isChain_unitsOf hls
  have hnum := numbered_unitsOf source.toList ls
  obtain ⟨os, hos, hsub, hopened⟩ := hgrown.openers hL hnum hchain
  refine ⟨ls, hls, os, ?_, hsub, fun n hn => hopened _ hn, fun n u hn => hopened _ hn,
    fun n m u w hn hm htoken => ?_⟩
  · rw [hos, htree, filter_depthFirst_documentSetOf (fun m hm => ?_) hdocuments]
    simp only [Node.isCollection, Bool.or_eq_true, decide_eq_true_eq] at hm
    rcases hm with hm | hm <;> simp [hm]
  · refine or_iff_not_imp_right.mpr fun hnone => ?_
    have hown : ∀ {n u}, (n, some u) ∈ os →
        ¬(∃ mark, BeginsFirstKey (unitsOf source.toList ls) mark u) → n.token = some u.2 :=
      fun hn => (hopened _ hn).2.1.mpr
    have hu := hown hn fun ⟨mark, hmark⟩ => hnone ⟨mark, .inl hmark⟩
    have hw := hown hm fun ⟨mark, hmark⟩ => hnone ⟨mark, .inr hmark⟩
    have hmem : ∀ {n u}, (n, some u) ∈ os → u ∈ unitsOf source.toList ls := fun hn =>
      hsub.subset (List.mem_filterMap.mpr ⟨_, hn, rfl⟩)
    rw [hu, hw] at htoken
    exact hnum.eq_of_token_eq (hmem hn) (hmem hm) (Option.some_inj.mp htoken)

/-- A sequence without an indent, a pair in a flow sequence, and a flow mapping as the first key of
a block mapping: six collections, five of them opened by units of their own. -/
theorem collections_opened_flowKey :
    ∃ d, parse "a:\n- [b: c]\n- &x {d: e}: f\n" = .ok d ∧
      ∃ ls, Lexeme.scan "a:\n- [b: c]\n- &x {d: e}: f\n".toList = .ok ls ∧
        ∃ os : List (Node × Option (Lexeme × Token)),
          os.map Prod.fst = d.documents.depthFirst.filter Node.isCollection ∧ os.length = 6 ∧
            ∀ n u, (n, some u) ∈ os →
              Opens (unitsOf "a:\n- [b: c]\n- &x {d: e}: f\n".toList ls) n u ∧
                (n.token = some u.2 ↔ ¬∃ mark,
                  BeginsFirstKey (unitsOf "a:\n- [b: c]\n- &x {d: e}: f\n".toList ls) mark u) := by
  obtain ⟨d, hd, hcheck⟩ := Except.exists_ok_of_any
    (x := parse "a:\n- [b: c]\n- &x {d: e}: f\n")
    (p := fun d => (d.documents.depthFirst.filter Node.isCollection).length == 6)
    (by decide +kernel)
  obtain ⟨ls, hls, os, hos, -, -, hopened, -⟩ := collections_opened hd
  refine ⟨d, hd, ls, hls, os, hos, ?_, fun n u hn => ⟨(hopened n u hn).1, (hopened n u hn).2.1⟩⟩
  rw [← List.length_map Prod.fst, hos]
  simpa using hcheck

/-- A flow mapping that is the first key of a block mapping shows the mark of that, which is its own
token as well, and not its brace. -/
theorem collections_sharing :
    ∃ d, parse "{a: b}: c\n" = .ok d ∧
      ∃ ls, Lexeme.scan "{a: b}: c\n".toList = .ok ls ∧
        ∃ m ∈ d.documents.depthFirst, ∃ n ∈ d.documents.depthFirst,
          m.isCollection = true ∧ n.isCollection = true ∧ n.stop < m.stop ∧ m.token = n.token ∧
            ∃ u ∈ unitsOf "{a: b}: c\n".toList ls, u.1.content = .flowMappingStart ∧
              n.start = u.1.start.index ∧ n.token ≠ some u.2 := by
  let s := "{a: b}: c\n"
  have hpass : (Lexeme.scan s.toList).toOption.any (fun ls => (parse s).toOption.any fun d =>
      d.documents.depthFirst.any fun m => d.documents.depthFirst.any fun n =>
        m.isCollection && (n.isCollection && (decide (n.stop < m.stop) &&
          (decide (m.token = n.token) && (unitsOf s.toList ls).any fun u =>
            decide (u.1.content = .flowMappingStart) && (decide (n.start = u.1.start.index) &&
              decide (n.token ≠ some u.2)))))) = true := by
    decide +kernel
  obtain ⟨ls, hls, hpass⟩ := Except.exists_ok_of_any hpass
  obtain ⟨d, hd, hcheck⟩ := Except.exists_ok_of_any hpass
  simp only [Bool.and_eq_true, List.any_eq_true, decide_eq_true_eq] at hcheck
  obtain ⟨m, hm, n, hn, hcheck⟩ := hcheck
  exact ⟨d, hd, ls, hls, m, hm, n, hn, hcheck⟩

end YamlNavigator
