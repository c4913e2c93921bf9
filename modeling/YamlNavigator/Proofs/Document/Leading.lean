import YamlNavigator.Proofs.Document.Collecting

/-!
How a node begins, and the unit that leads to it.

* `Begins`, `Stands`: what a node carries was looked up from the units that it begins with, behind
  the units in front of it;
* `Unchained`: no property follows another across units without text;
* `Stands.owns_front`: a node owns the first unit behind the unit in front of it, or that unit;
* `Borrows`, `Stands.front_or_borrows`: what else a node owns stands in front of it;
* `Bears`, `Bears.eq_of_unchained`: the properties that are written for a node, and that it has no
  others if no properties are chained.
-/

namespace YamlNavigator

open Yaml Grammar

/-! ### Looking up tokens -/

namespace Source

variable {src : Source} {pre us : List (Lexeme × Token)} {offset : Nat}

/-- The units from an offset on are those behind it and units without text in front of them. -/
lemma exists_takeWhile (hL : IsStream (src.units.map Prod.fst)) (h : src.units = pre ++ us)
    (hpre : ∀ u ∈ pre, u.1.stop.index ≤ offset) (hus : ∀ u ∈ us, offset ≤ u.1.start.index) :
    ∃ front zs, pre = front ++ zs ∧
      src.units.takeWhile (·.1.start.index < offset) = front ∧
      src.units.dropWhile (·.1.start.index < offset) = zs ++ us ∧
      ∀ z ∈ zs, z.1.isEmpty = true ∧ z.1.content.isOwned = false := by
  obtain ⟨zs, hdrop, hzs⟩ := exists_dropWhile hL h hpre hus
  have hsplit := List.takeWhile_append_dropWhile
    (l := src.units) (p := fun u : Lexeme × Token => decide (u.1.start.index < offset))
  rw [hdrop, ← List.append_assoc] at hsplit
  have hfront := List.append_cancel_right (hsplit.trans h)
  exact ⟨_, zs, hfront.symm, rfl, hdrop, hzs⟩

/-- A first accepted unit stands behind properties and units without text. -/
lemma exists_of_firstAccepted?_eq_some {accepts : Content → Bool} {stop : Nat} {t : Token} :
    ∀ {us : List (Lexeme × Token)}, firstAccepted? accepts stop us = some t →
      ∃ xs u ys, us = xs ++ u :: ys ∧ u.2 = t ∧ accepts u.1.content = true ∧
        u.1.stop.index ≤ stop ∧ ∀ x ∈ xs, x.1.isProperty = true ∨ x.1.isEmpty = true
  | [], h => by cases h
  | (l, t') :: us, h => by
      rw [firstAccepted?] at h
      split at h
      · next hl =>
          cases h
          simp only [Bool.and_eq_true, decide_eq_true_eq] at hl
          exact ⟨[], (l, t), us, rfl, rfl, hl.1, hl.2, by simp⟩
      · split at h
        · next hl =>
            obtain ⟨xs, u, ys, rfl, hu, haccepts, hstop, hxs⟩ := exists_of_firstAccepted?_eq_some h
            refine ⟨(l, t') :: xs, u, ys, rfl, hu, haccepts, hstop, fun x hx => ?_⟩
            rcases List.mem_cons.mp hx with rfl | hx
            · simpa using hl
            · exact hxs x hx
        · cases h

/-- A leading property stands behind properties and units without text. -/
lemma exists_of_mem_leadingProperties_split {t : Token} : ∀ {us : List (Lexeme × Token)},
    t ∈ leadingProperties us → ∃ xs u ys, us = xs ++ u :: ys ∧ u.2 = t ∧ u.1.isProperty = true ∧
      ∀ x ∈ xs, x.1.isProperty = true ∨ x.1.isEmpty = true
  | [], h => by cases h
  | (l, t') :: us, h => by
      -- a property or a unit without text may stand in front
      have hcons : (l.isProperty = true ∨ l.isEmpty = true) → t ∈ leadingProperties us →
          ∃ xs u ys, (l, t') :: us = xs ++ u :: ys ∧ u.2 = t ∧ u.1.isProperty = true ∧
            ∀ x ∈ xs, x.1.isProperty = true ∨ x.1.isEmpty = true := by
        intro hl hmem
        obtain ⟨xs, u, ys, rfl, hu, hprop, hxs⟩ := exists_of_mem_leadingProperties_split hmem
        refine ⟨(l, t') :: xs, u, ys, rfl, hu, hprop, fun x hx => ?_⟩
        rcases List.mem_cons.mp hx with rfl | hx
        · exact hl
        · exact hxs x hx
      rw [leadingProperties] at h
      split at h
      · next hl =>
          rcases List.mem_cons.mp h with rfl | h
          · exact ⟨[], (l, t), us, rfl, rfl, hl, by simp⟩
          · exact hcons (.inl hl) h
      · split at h
        · next hl => exact hcons (.inr hl) h
        · cases h

/-- Units without text are passed over when properties are looked up. -/
lemma leadingProperties_append_of_isEmpty : ∀ {zs : List (Lexeme × Token)},
    (∀ z ∈ zs, z.1.isEmpty = true ∧ z.1.content.isOwned = false) →
      leadingProperties (zs ++ us) = leadingProperties us
  | [], _ => rfl
  | (l, t) :: zs, h => by
      obtain ⟨hempty, howned⟩ := h (l, t) List.mem_cons_self
      have hprop : l.isProperty = false := by
        rw [Lexeme.isProperty]
        revert howned
        cases l.content <;> simp [Content.isOwned]
      rw [List.cons_append, leadingProperties, if_neg (by simp [hprop]), if_pos hempty]
      exact leadingProperties_append_of_isEmpty fun z hz => h z (List.mem_cons_of_mem _ hz)

/-- Properties at the front are leading properties. -/
lemma leadingProperties_append : ∀ {ps : List (Lexeme × Token)},
    (∀ p ∈ ps, p.1.isProperty = true) →
      leadingProperties (ps ++ us) = ps.map Prod.snd ++ leadingProperties us
  | [], _ => rfl
  | (l, t) :: ps, h => by
      rw [List.cons_append, leadingProperties, if_pos (h (l, t) List.mem_cons_self),
        leadingProperties_append fun p hp => h p (List.mem_cons_of_mem _ hp), List.map_cons,
        List.cons_append]

/-- Leading properties are found at the front, or behind units without text. -/
lemma leadingProperties_eq_nil_or : ∀ us : List (Lexeme × Token), leadingProperties us = [] ∨
    ∃ es q ys, us = es ++ q :: ys ∧ q.1.isProperty = true ∧ ∀ e ∈ es, e.1.isEmpty = true
  | [] => .inl rfl
  | (l, t) :: us => by
      rw [leadingProperties]
      split
      · next hl => exact .inr ⟨[], (l, t), us, rfl, hl, by simp⟩
      · split
        · next hl =>
            rcases leadingProperties_eq_nil_or us with h | ⟨es, q, ys, rfl, hq, hes⟩
            · exact .inl h
            · refine .inr ⟨(l, t) :: es, q, ys, rfl, hq, fun e he => ?_⟩
              rcases List.mem_cons.mp he with rfl | he
              · exact hl
              · exact hes e he
        · exact .inl rfl

end Source

/-- No property follows another across units without text: properties directly behind one another
belong to one node, properties with structure between them to different ones. -/
def Unchained (ls : List Lexeme) : Prop :=
  ∀ front p es q back, ls = front ++ p :: (es ++ q :: back) → p.isProperty = true →
    q.isProperty = true → (∀ e ∈ es, e.isEmpty = true) → es = []

/-- How a node that begins behind the units `pre` is given its properties: the units `ps` are
written for it, and those that follow them across units without text are found with them. -/
inductive Bears (src : Source) (pre ps us : List (Lexeme × Token)) (v : Node) : Prop
  | none (empty : ps = []) (eq : v.info.properties = [])
  | some (ne : ps ≠ []) (units : src.units = pre ++ (ps ++ us))
      (before : ∀ u ∈ pre, u.1.stop.index ≤ v.start)
      (behind : ∀ u ∈ ps ++ us, v.start ≤ u.1.start.index)
      (isProperty : ∀ p ∈ ps, p.1.isProperty = true) (clear : Clear (us.map Prod.fst))
      (eq : v.info.properties = ps.map Prod.snd ++ Source.leadingProperties us)

namespace Bears

variable {src : Source} {pre ps us : List (Lexeme × Token)} {v : Node}

/-- The properties of a node that are looked up by its offset are given so. -/
lemma of_announces {anchor tag : Option String} (hL : IsStream (src.units.map Prod.fst))
    (hunits : src.units = pre ++ (ps ++ us)) (hpre : ∀ u ∈ pre, u.1.stop.index ≤ v.start)
    (hus : ∀ u ∈ ps ++ us, v.start ≤ u.1.start.index)
    (hprops : Announces (ps.map Prod.fst) anchor tag) (hclear : Clear (us.map Prod.fst))
    (hv : v.info.properties = src.propertyTokens anchor tag v.start) : Bears src pre ps us v := by
  by_cases hps : ps = []
  · obtain ⟨rfl, rfl⟩ := hprops.isNone (by rw [hps, List.map_nil])
    exact .none hps hv
  · have hisProperty : ∀ p ∈ ps, p.1.isProperty = true := fun p hp =>
      hprops.isProperty p.1 (List.mem_map_of_mem hp)
    refine .some hps hunits hpre hus hisProperty hclear ?_
    have hsome := hprops.isSome (by simp [hps])
    obtain ⟨front, zs, -, -, hdrop, hzs⟩ := Source.exists_takeWhile hL hunits hpre hus
    rw [hv, Source.propertyTokens,
      if_neg (by rcases hsome with h | h <;> simp [Option.isSome_iff_ne_none.mp h]), hdrop,
      Source.leadingProperties_append_of_isEmpty hzs, Source.leadingProperties_append hisProperty]

/-- The units that are written for a node are properties. -/
lemma isProperty (h : Bears src pre ps us v) : ∀ p ∈ ps, p.1.isProperty = true := by
  cases h with
  | none empty eq => simp [empty]
  | some ne units before behind isProperty clear eq => exact isProperty

/-- If no properties are chained, nothing else is found with those that are written for a node. -/
lemma eq_of_unchained (h : Bears src pre ps us v) (hchain : Unchained (src.units.map Prod.fst)) :
    v.info.properties = ps.map Prod.snd := by
  cases h with
  | none empty eq => rw [eq, empty, List.map_nil]
  | some ne units before behind isProperty clear eq =>
      obtain ⟨qs, p, rfl⟩ := (List.eq_nil_or_concat ps).resolve_left ne
      rw [List.concat_eq_append] at *
      -- what follows across units without text would be chained to the last property
      have hnone : Source.leadingProperties us = [] := by
        rcases Source.leadingProperties_eq_nil_or us with h | ⟨es, q, ys, rfl, hq, hes⟩
        · exact h
        · have hnil : es.map Prod.fst = [] := by
            refine hchain ((pre ++ qs).map Prod.fst) p.1 (es.map Prod.fst) q.1 (ys.map Prod.fst)
              (by simp [units]) (isProperty p (by simp)) hq fun e he => ?_
            obtain ⟨e', he', rfl⟩ := List.mem_map.mp he
            exact hes e' he'
          obtain rfl : es = [] := List.map_eq_nil_iff.mp hnil
          rw [Clear] at clear
          simp [hq] at clear
      rw [eq, hnone, List.append_nil]

/-- The properties of a node are written from its start on. If no properties are chained, they are
among those that are written for it. -/
lemma exists_of_mem (h : Bears src pre ps us v) {t : Token} (ht : t ∈ v.info.properties) :
    ∃ l, (l, t) ∈ src.units ∧ l.isProperty = true ∧ v.start ≤ l.start.index ∧
      (Unchained (src.units.map Prod.fst) → (l, t) ∈ ps) := by
  have hunchained := h.eq_of_unchained
  cases h with
  | none empty eq =>
      rw [eq] at ht
      cases ht
  | some ne units before behind isProperty clear eq =>
      by_cases hps : t ∈ ps.map Prod.snd
      · obtain ⟨⟨l, t⟩, hu, rfl⟩ := List.mem_map.mp hps
        exact ⟨l, by simp [units, hu], isProperty _ hu, behind _ (List.mem_append_left us hu),
          fun _ => hu⟩
      · rw [eq] at ht
        obtain ⟨xs, ⟨l, t⟩, ys, rfl, rfl, hprop, -⟩ :=
          Source.exists_of_mem_leadingProperties_split ((List.mem_append.mp ht).resolve_left hps)
        refine ⟨l, by simp [units], hprop, behind (l, t) (by simp), fun hchain => absurd ?_ hps⟩
        rw [← hunchained hchain, eq]
        exact ht

end Bears

/-! ### How a node begins -/

namespace Node

variable (f : String → String) (n : Node)

@[simp]
lemma start_mapPaths : (n.mapPaths f).start = n.start := by rw [start, info_mapPaths, start]

@[simp]
lemma stop_mapPaths : (n.mapPaths f).stop = n.stop := by rw [stop, info_mapPaths, stop]

@[simp]
lemma token_mapPaths : (n.mapPaths f).token = n.token := by rw [token, info_mapPaths, token]

@[simp]
lemma properties_mapPaths : (n.mapPaths f).info.properties = n.info.properties := by
  rw [info_mapPaths]

end Node

/-- A node is given the same properties at another path. -/
lemma Bears.mapPaths {src : Source} {pre ps us : List (Lexeme × Token)} {v : Node}
    (h : Bears src pre ps us v) (f : String → String) : Bears src pre ps us (v.mapPaths f) := by
  cases h with
  | none empty eq => exact .none empty (by simpa using eq)
  | some ne units before behind isProperty clear eq =>
      exact .some ne units (by simpa using before) (by simpa using behind) isProperty clear
        (by simpa using eq)

/-- The selections of units that define nodes written in a text. -/
def Selects (accepts : Content → Bool) : Prop :=
  accepts = isReferenceUnit ∨ accepts = isScalarUnit ∨ accepts = isSequenceUnit ∨
    accepts = isMappingUnit

/-- A unit that defines a node is no property and not the end of the stream. -/
lemma Selects.content {accepts : Content → Bool} (h : Selects accepts) {l : Lexeme}
    (hl : accepts l.content = true) :
    l.isProperty = false ∧ l.content ≠ .streamEnd ∧ l.content ≠ .key := by
  rw [Lexeme.isProperty]
  revert hl
  rcases h with rfl | rfl | rfl | rfl <;> cases l.content <;>
    simp [isReferenceUnit, isScalarUnit, isSequenceUnit, isMappingUnit]

/-- Nothing is written for the node: it has no properties, and the token that it shows is looked up
in front of it. -/
structure IsBlank (src : Source) (v : Node) : Prop where
  properties : v.info.properties = []
  token : v.token = src.definingToken? isScalarUnit v.start v.start

/-- The units between which a node begins, those before it and those from it on, and how what it
carries was looked up from there. -/
inductive Begins (src : Source) (v : Node) :
    List (Lexeme × Token) → List (Lexeme × Token) → Prop
  | blank {pre us : List (Lexeme × Token)} (h : IsBlank src v) : Begins src v pre us
  | bare {pre ps us : List (Lexeme × Token)} {u : Lexeme × Token} {anchor tag : Option String}
      (props : Announces ((ps ++ [u]).map Prod.fst) anchor tag)
      (properties : v.info.properties = src.propertyTokens anchor tag v.start)
      (token : v.token = src.definingToken? isScalarUnit v.start u.1.stop.index) :
      Begins src v pre (ps ++ u :: us)
  | unit {pre ps us : List (Lexeme × Token)} {u : Lexeme × Token} {anchor tag : Option String}
      {accepts : Content → Bool} {limit : Nat} (props : Announces (ps.map Prod.fst) anchor tag)
      (selects : Selects accepts) (accepted : accepts u.1.content = true)
      (le : u.1.stop.index ≤ limit)
      (properties : v.info.properties = src.propertyTokens anchor tag v.start)
      (token : v.token = src.definingToken? accepts v.start limit) :
      Begins src v pre (ps ++ u :: us)
  | pair {front us : List (Lexeme × Token)} {lead key : Lexeme × Token}
      (leads : leadsItem true lead.1.content = true) (h : key.1.content = .key)
      (properties : v.info.properties = [])
      (token : v.token = src.definingToken? isMappingUnit v.start key.1.stop.index) :
      Begins src v (front ++ [lead]) (key :: us)

/-- A node stands behind the units `pre`, and the other units are behind its beginning. -/
structure Stands (src : Source) (pre us : List (Lexeme × Token)) (v : Node) : Prop where
  units : src.units = pre ++ us
  before : ∀ u ∈ pre, u.1.stop.index ≤ v.start
  behind : ∀ u ∈ us, v.start ≤ u.1.start.index
  begins : Begins src v pre us

namespace Stands

variable {src : Source} {pre us front : List (Lexeme × Token)} {v : Node} {lead : Lexeme × Token}

/-- The node may be moved to another path. -/
lemma mapPaths (h : Stands src pre us v) (f : String → String) :
    Stands src pre us (v.mapPaths f) := by
  refine ⟨h.units, by simpa using h.before, by simpa using h.behind, ?_⟩
  cases h.begins with
  | blank h => exact .blank ⟨by simpa using h.properties, by simpa using h.token⟩
  | bare props properties token =>
      exact .bare props (by simpa using properties) (by simpa using token)
  | unit props selects accepted le properties token =>
      exact .unit props selects accepted le (by simpa using properties) (by simpa using token)
  | pair leads hkey properties token =>
      exact .pair leads hkey (by simpa using properties) (by simpa using token)

/-- If the unit in front of a node takes text, the tokens of the node are looked up from the units
behind it, and in the units up to it. -/
lemma look_up (hL : IsStream (src.units.map Prod.fst)) (h : Stands src (front ++ [lead]) us v)
    (hlead : lead.1.isEmpty = false) :
    src.units.takeWhile (·.1.start.index < v.start) = front ++ [lead] ∧
      src.units.dropWhile (·.1.start.index < v.start) = us := by
  obtain ⟨front', zs, hsplit, htake, hdrop, hzs⟩ :=
    Source.exists_takeWhile hL h.units h.before h.behind
  rcases List.eq_nil_or_concat zs with rfl | ⟨zs, z, rfl⟩
  · rw [List.append_nil] at hsplit
    exact ⟨by rw [hsplit, htake], hdrop⟩
  · rw [List.concat_eq_append, ← List.append_assoc] at hsplit
    have hz : [lead] = [z] := List.append_inj_right' hsplit rfl
    have hempty := (hzs z (by simp)).1
    rw [← List.singleton_inj.mp hz, hlead] at hempty
    cases hempty

/-- A scalar is written in no text that ends where it starts. -/
lemma lt_stop_of_isScalarUnit (hL : IsStream (src.units.map Prod.fst)) {u : Lexeme × Token}
    (hu : u ∈ src.units) (hscalar : isScalarUnit u.1.content = true) :
    u.1.start.index < u.1.stop.index :=
  (hL.isSound u.1 (List.mem_map_of_mem hu)).start_lt (Compose.isOwned_of_isScalarUnit u.1 hscalar).1

/-- A node for which nothing is written shows the unit in front of it, if that takes text. -/
lemma token_of_isBlank (hL : IsStream (src.units.map Prod.fst))
    (h : Stands src (front ++ [lead]) us v) (hlead : lead.1.isEmpty = false)
    (hblank : IsBlank src v) : v.token = some lead.2 := by
  obtain ⟨htake, hdrop⟩ := h.look_up hL hlead
  have hnone : Source.firstAccepted? isScalarUnit v.start us = none := by
    rw [Option.eq_none_iff_forall_not_mem]
    intro t ht
    obtain ⟨xs, u, ys, rfl, -, hscalar, hstop, -⟩ := Source.exists_of_firstAccepted?_eq_some ht
    have hlt := lt_stop_of_isScalarUnit hL (u := u) (by simp [h.units]) hscalar
    have := h.behind u (by simp)
    omega
  have hstop := h.before lead (by simp)
  rw [hblank.token, Source.definingToken?, htake, hdrop, hnone]
  simp [hlead, hstop]

/-- A node owns the first unit behind the unit in front of it, or that one, if it takes text and
leads to no pair. -/
theorem owns_front (hL : IsStream (src.units.map Prod.fst))
    (h : Stands src (front ++ [lead]) us v) (hlead : lead.1.isEmpty = false)
    (hpair : leadsItem true lead.1.content = false) :
    lead.2 ∈ v.ownTokens ∨
      ∃ u us', us = u :: us' ∧ u.2 ∈ v.ownTokens ∧ u.1.content ≠ .streamEnd := by
  obtain ⟨-, hdrop⟩ := h.look_up hL hlead
  have hbegins := h.begins
  -- the first of its properties, if it has some
  have hprops : ∀ {ps us' anchor tag}, us = ps ++ us' → ps ≠ [] →
      Announces (ps.map Prod.fst) anchor tag →
      v.info.properties = src.propertyTokens anchor tag v.start →
      ∃ u us', us = u :: us' ∧ u.2 ∈ v.ownTokens ∧ u.1.content ≠ .streamEnd := by
    intro ps us' anchor tag hus hne hannounces hproperties
    obtain ⟨p, ps, rfl⟩ := List.exists_cons_of_ne_nil hne
    have hp := hannounces.isProperty p.1 (by simp)
    refine ⟨p, ps ++ us', hus, List.mem_append_left _ ?_, ?_⟩
    · rw [hproperties, Source.propertyTokens, if_neg, hdrop, hus]
      · rw [List.cons_append, Source.leadingProperties, if_pos hp]
        exact List.mem_cons_self
      · rcases hannounces.isSome (by simp) with h | h <;>
          simp [Option.isSome_iff_ne_none.mp h]
    · intro hend
      rw [Lexeme.isProperty, hend] at hp
      cases hp
  generalize hpre : front ++ [lead] = pre at hbegins
  cases hbegins with
  | blank hblank =>
      left
      rw [Node.ownTokens, h.token_of_isBlank hL hlead hblank]
      simp
  | @bare _ ps us' u anchor tag hannounces properties token =>
      exact .inr (hprops (List.append_cons ps u us') (by simp) hannounces properties)
  | @unit _ ps us' u anchor tag accepts limit hannounces selects accepted le properties token =>
      right
      rcases List.eq_nil_or_concat ps with rfl | ⟨qs, p, rfl⟩
      · refine ⟨u, us', rfl, List.mem_append_right _ ?_, (selects.content accepted).2.1⟩
        rw [token, Source.definingToken?, hdrop, List.nil_append]
        have hfirst : Source.firstAccepted? accepts limit ([] ++ u :: us') = some u.2 :=
          Source.firstAccepted?_eq_some accepted le (by simp)
        rw [List.nil_append] at hfirst
        simp [hfirst]
      · exact hprops rfl (by simp) hannounces properties
  | pair leads _ _ _ =>
      have heq := List.singleton_inj.mp (List.append_inj_right' hpre rfl)
      rw [← heq, hpair] at leads
      cases leads

end Stands

/-! ### Tokens in front of a node -/

/-- Every token stands behind those of the units before it. -/
def Numbered (us : List (Lexeme × Token)) : Prop :=
  us.Pairwise fun u w => u.2.index < w.2.index

/-- A token has one place among numbered units. -/
lemma Numbered.split_unique {u w : Lexeme × Token} (hindex : u.2.index = w.2.index) :
    ∀ {us front front' back back' : List (Lexeme × Token)}, Numbered us →
      us = front ++ u :: back → us = front' ++ w :: back' →
        front = front' ∧ u = w ∧ back = back'
  | [], front, front', back, back', _, h, _ => by cases front <;> cases h
  | x :: us, front, front', back, back', hnum, h, h' => by
      rw [Numbered, List.pairwise_cons] at hnum
      cases front with
      | nil =>
          obtain ⟨rfl, rfl⟩ := List.cons.inj h
          cases front' with
          | nil =>
              obtain ⟨rfl, rfl⟩ := List.cons.inj h'
              exact ⟨rfl, rfl, rfl⟩
          | cons y front' =>
              obtain ⟨rfl, rfl⟩ := List.cons.inj h'
              have := hnum.1 w (by simp)
              omega
      | cons z front =>
          obtain ⟨rfl, rfl⟩ := List.cons.inj h
          cases front' with
          | nil =>
              obtain ⟨rfl, hus⟩ := List.cons.inj h'
              have := hnum.1 u (by simp)
              omega
          | cons y front' =>
              obtain ⟨rfl, hus⟩ := List.cons.inj h'
              obtain ⟨rfl, hw, hback⟩ := split_unique hindex hnum.2 rfl hus
              exact ⟨rfl, hw, hback⟩

/-- Numbered units with the same token are the same. -/
lemma Numbered.eq_of_token_eq {us : List (Lexeme × Token)} {u w : Lexeme × Token} (hnum : Numbered us)
    (hu : u ∈ us) (hw : w ∈ us) (h : u.2 = w.2) : u = w := by
  obtain ⟨front, back, hsplit⟩ := List.append_of_mem hu
  obtain ⟨front', back', hsplit'⟩ := List.append_of_mem hw
  exact (hnum.split_unique (congrArg Token.index h) hsplit hsplit').2.1

/-- The unit `u` of the units `us` stands in front of the node, which owns its token all the same:
it takes text, or it is the mark of a collection whose first key begins, like the node, with the
mark of such a collection. -/
structure Borrows (us : List (Lexeme × Token)) (u : Lexeme × Token) (v : Node) : Prop where
  owns : u.2 ∈ v.ownTokens
  stop_le : u.1.stop.index ≤ v.start
  text_or_key : u.1.isEmpty = false ∨
    ∃ front zs w back, us = front ++ u :: (zs ++ w :: back) ∧
      (∀ z ∈ zs, z.1.isProperty = true ∨ z.1.isEmpty = true) ∧ (∃ k ∈ zs, k.1.content = .key) ∧
        (isMappingUnit u.1.content = true ∧ isMappingUnit w.1.content = true ∨
          isSequenceUnit u.1.content = true ∧ isSequenceUnit w.1.content = true)

/-- The end of the stream is not borrowed. -/
lemma Borrows.content_ne {us : List (Lexeme × Token)} {u : Lexeme × Token} {v : Node}
    (hL : IsStream (us.map Prod.fst)) (hu : u ∈ us) (h : Borrows us u v) :
    u.1.content ≠ .streamEnd := by
  intro hend
  rcases h.text_or_key with htext | ⟨-, -, w, -, -, -, -, ⟨hu, -⟩ | ⟨hu, -⟩⟩
  · have hsound := hL.isSound u.1 (List.mem_map_of_mem hu)
    have hpoint : u.1.content.isPoint = true := by rw [hend]; rfl
    rw [Lexeme.IsSound, if_pos hpoint] at hsound
    simp [Lexeme.isEmpty, hsound] at htext
  · rw [hend] at hu
    cases hu
  · rw [hend] at hu
    cases hu

/-- The unit `u` and the units `zs` behind it stand without text at the start of a node behind the
units `pre`. -/
structure PassedOver (pre : List (Lexeme × Token)) (u : Lexeme × Token)
    (zs : List (Lexeme × Token)) : Prop where
  isSuffix : u :: zs <:+ pre
  isEmpty : ∀ z ∈ u :: zs, z.1.isEmpty = true
  isOwned : ∀ z ∈ u :: zs, z.1.content.isOwned = false

/-- The last unit in front of the node is passed over too. -/
lemma PassedOver.mem_of_concat {pre zs : List (Lexeme × Token)} {u z : Lexeme × Token}
    (h : PassedOver (pre ++ [z]) u zs) : z ∈ u :: zs := by
  obtain ⟨before, hbefore⟩ := h.isSuffix
  have hlast := congrArg List.getLast? hbefore
  rw [List.getLast?_append_of_ne_nil _ (List.cons_ne_nil u zs), List.getLast?_concat] at hlast
  exact List.mem_of_getLast? hlast

namespace Stands

variable {src : Source} {pre us front back : List (Lexeme × Token)} {v : Node}
variable {t u : Lexeme × Token}

/-- The tokens of a node's properties were looked up from its start. -/
lemma exists_propertyTokens (h : Stands src pre us v) :
    ∃ anchor tag, v.info.properties = src.propertyTokens anchor tag v.start := by
  cases h.begins with
  | blank hblank => exact ⟨none, none, hblank.properties⟩
  | bare _ properties _ => exact ⟨_, _, properties⟩
  | unit _ _ _ _ properties _ => exact ⟨_, _, properties⟩
  | pair _ _ properties _ => exact ⟨none, none, properties⟩

/-- A node for which nothing is written borrows what it owns. -/
lemma borrows_of_isBlank (hL : IsStream (src.units.map Prod.fst)) (hnum : Numbered src.units)
    (h : Stands src pre us v) (hblank : IsBlank src v) (hu : u ∈ src.units)
    (howns : u.2 ∈ v.ownTokens) : Borrows src.units u v := by
  have htoken : v.token = some u.2 := by
    simpa [Node.ownTokens, hblank.properties] using howns
  rw [hblank.token, Source.definingToken?] at htoken
  split at htoken
  · next x hx =>
      -- no scalar ends where it starts
      obtain ⟨xs, w, ys, hfound, -, hscalar, hstop, -⟩ :=
        Source.exists_of_firstAccepted?_eq_some hx
      obtain ⟨zs, hdrop, hzs⟩ := Source.exists_dropWhile hL h.units h.before h.behind
      have hdropped : w ∈ src.units.dropWhile (·.1.start.index < v.start) := by
        rw [hfound]
        simp
      have hmem := (List.dropWhile_suffix _).subset hdropped
      rw [hdrop] at hdropped
      have hlt := lt_stop_of_isScalarUnit hL hmem hscalar
      rcases List.mem_append.mp hdropped with hw | hw
      · have hempty := (hzs w hw).1
        simp only [Lexeme.isEmpty, decide_eq_true_eq] at hempty
        omega
      · have := h.behind w hw
        omega
  · obtain ⟨w, hw, hindex⟩ := Option.map_eq_some_iff.mp htoken
    have hmem := (List.takeWhile_prefix _).subset (List.mem_reverse.mp (List.mem_of_find?_eq_some hw))
    obtain ⟨htext, hstop⟩ : w.1.isEmpty = false ∧ w.1.stop.index ≤ v.start := by
      simpa using List.find?_some hw
    obtain rfl := hnum.eq_of_token_eq hmem hu hindex
    exact ⟨howns, hstop, .inl htext⟩

section Front

variable (hL : IsStream (src.units.map Prod.fst)) (hnum : Numbered src.units)
variable (hunits : src.units = front ++ t :: u :: back) (ht : t.1.isEmpty = false)
variable (htprop : t.1.isProperty = false) (h : Stands src pre us v)

include hnum hunits ht htprop

/-- A unit that a node finds behind units `xs` without text or properties is the first one behind
the unit `t` in front of it, if that is neither: the node begins with it, or passes it over. -/
lemma front_of_found {before zs xs ys : List (Lexeme × Token)} {w : Lexeme × Token}
    (hsplit : src.units = before ++ (zs ++ us))
    (hzs : ∀ z ∈ zs, z.1.isEmpty = true ∧ z.1.content.isOwned = false)
    (hfound : zs ++ us = xs ++ w :: ys) (hw : w.2 = u.2)
    (hxs : ∀ y ∈ xs, y.1.isProperty = true ∨ y.1.isEmpty = true) :
    w = u ∧ ((before ++ zs = front ++ [t] ∧ us = u :: back) ∨
      ∃ zs', PassedOver (before ++ zs) u zs') := by
  obtain ⟨hfront, rfl, rfl⟩ := hnum.split_unique (congrArg Token.index hw)
    (show src.units = (before ++ xs) ++ w :: ys by rw [hsplit, hfound, List.append_assoc])
    (show src.units = (front ++ [t]) ++ u :: back by rw [hunits, List.append_cons])
  refine ⟨rfl, ?_⟩
  rcases List.eq_nil_or_concat xs with rfl | ⟨xs, x, rfl⟩
  · rw [List.append_nil] at hfront
    cases zs with
    | nil => exact .inl ⟨by rw [List.append_nil, hfront], hfound⟩
    | cons z zs =>
        obtain ⟨rfl, -⟩ := List.cons.inj hfound
        exact .inr ⟨zs, List.suffix_append _ _, fun x hx => (hzs x hx).1, fun x hx => (hzs x hx).2⟩
  · -- `t` does not stand among the units `xs`
    rw [List.concat_eq_append, ← List.append_assoc] at hfront
    obtain rfl : x = t := List.singleton_inj.mp (List.append_inj_right' hfront rfl)
    have hx := hxs x (by simp)
    rw [ht, htprop] at hx
    simp at hx

include hL h

/-- A node begins with a property behind `t`. -/
lemma front_of_property (hu : u.2 ∈ v.info.properties) : pre = front ++ [t] ∧ us = u :: back := by
  obtain ⟨before, zs, hpre, -, hdrop, hzs⟩ := Source.exists_takeWhile hL h.units h.before h.behind
  have hsplit : src.units = before ++ (zs ++ us) := by rw [h.units, hpre, List.append_assoc]
  obtain ⟨anchor, tag, hproperties⟩ := h.exists_propertyTokens
  rw [hproperties, Source.propertyTokens] at hu
  split at hu
  · cases hu
  · rw [hdrop] at hu
    obtain ⟨xs, w, ys, hfound, hw, hproperty, hxs⟩ :=
      Source.exists_of_mem_leadingProperties_split hu
    obtain ⟨rfl, hfront | ⟨zs', hpassed⟩⟩ :=
      front_of_found hnum hunits ht htprop hsplit hzs hfound hw hxs
    · exact hpre ▸ hfront
    · -- properties are not passed over
      have howned := hpassed.isOwned w List.mem_cons_self
      rw [Lexeme.isProperty] at hproperty
      revert howned hproperty
      cases w.1.content <;> simp [Content.isOwned]

/-- If a node shows the unit behind `t`, it begins with that unit, borrows it or passes it over. -/
lemma front_of_token {accepts : Content → Bool} {limit : Nat}
    (hlookup : v.token = src.definingToken? accepts v.start limit) (hu : v.token = some u.2) :
    (pre = front ++ [t] ∧ us = u :: back) ∨ Borrows src.units u v ∨
      accepts u.1.content = true ∧ ∃ zs, PassedOver pre u zs := by
  obtain ⟨before, zs, hpre, htake, hdrop, hzs⟩ :=
    Source.exists_takeWhile hL h.units h.before h.behind
  have hsplit : src.units = before ++ (zs ++ us) := by rw [h.units, hpre, List.append_assoc]
  have howns : u.2 ∈ v.ownTokens := by simp [Node.ownTokens, hu]
  rw [hlookup, Source.definingToken?, htake, hdrop] at hu
  split at hu
  · next x hx =>
      cases hu
      obtain ⟨xs, w, ys, hfound, hw, haccepts, -, hxs⟩ := Source.exists_of_firstAccepted?_eq_some hx
      obtain ⟨rfl, hfront | hpassed⟩ := front_of_found hnum hunits ht htprop hsplit hzs hfound hw hxs
      · exact .inl (hpre ▸ hfront)
      · exact .inr (.inr ⟨haccepts, hpre ▸ hpassed⟩)
  · obtain ⟨w, hw, hindex⟩ := Option.map_eq_some_iff.mp hu
    have hmem := List.mem_reverse.mp (List.mem_of_find?_eq_some hw)
    obtain ⟨htext, -⟩ : w.1.isEmpty = false ∧ w.1.stop.index ≤ limit := by
      simpa using List.find?_some hw
    obtain rfl : w = u := hnum.eq_of_token_eq (by simp [hsplit, hmem]) (by simp [hunits]) hindex
    exact .inr (.inl ⟨howns, h.before w (by simp [hpre, hmem]), .inl htext⟩)

end Front

/-- A node with a unit of its kind borrows a mark of that kind which it passes over: behind such a
mark stands the mark of a key. -/
lemma borrows_of_passedOver {zs ps us' : List (Lexeme × Token)} {w : Lexeme × Token}
    {accepts : Content → Bool} {anchor tag : Option String} (h : Stands src pre (ps ++ w :: us') v)
    (hlast : ∀ z ∈ pre.getLast?, z.1.isEmpty = true → z.1.content = .key)
    (hprops : Announces (ps.map Prod.fst) anchor tag) (hselects : Selects accepts)
    (hw : accepts w.1.content = true) (hu : accepts u.1.content = true)
    (hpassed : PassedOver pre u zs) (howns : u.2 ∈ v.ownTokens) : Borrows src.units u v := by
  obtain ⟨before, rfl⟩ := hpassed.isSuffix
  have howned := hpassed.isOwned u List.mem_cons_self
  refine ⟨howns, h.before u (by simp), .inr ⟨before, zs ++ ps, w, us', by simp [h.units],
    fun z hz => ?_, ?_, ?_⟩⟩
  · rcases List.mem_append.mp hz with hz | hz
    · exact .inr (hpassed.isEmpty z (List.mem_cons_of_mem u hz))
    · exact .inl (hprops.isProperty z.1 (List.mem_map_of_mem hz))
  · rcases List.eq_nil_or_concat zs with rfl | ⟨qs, z, rfl⟩
    · have hkey := hlast u (by simp) (hpassed.isEmpty u List.mem_cons_self)
      exact absurd hkey (hselects.content hu).2.2
    · rw [List.concat_eq_append] at hpassed hlast
      rw [← List.cons_append, ← List.append_assoc, List.getLast?_concat] at hlast
      exact ⟨z, by simp, hlast z rfl (hpassed.isEmpty z (by simp))⟩
  · rcases hselects with rfl | rfl | rfl | rfl
    · rw [(Compose.isOwned_of_isReferenceUnit u.1 hu).1] at howned
      cases howned
    · rw [(Compose.isOwned_of_isScalarUnit u.1 hu).1] at howned
      cases howned
    · exact .inr ⟨hu, hw⟩
    · exact .inl ⟨hu, hw⟩

/-- If a node owns the unit `u` behind a unit `t` with text that is no property, then `t` is the
unit in front of the node, or the node borrows `u` from in front of it. -/
theorem front_or_borrows (hL : IsStream (src.units.map Prod.fst)) (hnum : Numbered src.units)
    (hunits : src.units = front ++ t :: u :: back) (ht : t.1.isEmpty = false)
    (htprop : t.1.isProperty = false) (h : Stands src pre us v)
    (hlast : ∀ z ∈ pre.getLast?, z.1.isEmpty = true → z.1.content = .key)
    (hu : u.2 ∈ v.ownTokens) :
    (pre = front ++ [t] ∧ us = u :: back) ∨ Borrows src.units u v := by
  rcases List.mem_append.mp hu with hprop | htoken
  · exact .inl (front_of_property hL hnum hunits ht htprop h hprop)
  have htoken : v.token = some u.2 := by simpa using htoken
  -- scalars are never passed over
  have hscalar : ∀ {limit}, v.token = src.definingToken? isScalarUnit v.start limit →
      (pre = front ++ [t] ∧ us = u :: back) ∨ Borrows src.units u v := by
    intro limit hlookup
    rcases front_of_token hL hnum hunits ht htprop h hlookup htoken with
      hfront | hborrows | ⟨haccepts, zs, hpassed⟩
    · exact .inl hfront
    · exact .inr hborrows
    · have howned := hpassed.isOwned u List.mem_cons_self
      rw [(Compose.isOwned_of_isScalarUnit u.1 haccepts).1] at howned
      cases howned
  cases h.begins with
  | blank hblank => exact hscalar hblank.token
  | bare _ _ token => exact hscalar token
  | unit props selects accepted _ _ token =>
      rcases front_of_token hL hnum hunits ht htprop h token htoken with
        hfront | hborrows | ⟨haccepts, zs, hpassed⟩
      · exact .inl hfront
      · exact .inr hborrows
      · exact .inr (borrows_of_passedOver h hlast props selects accepted haccepts hpassed hu)
  | @pair _ _ lead key leads _ _ token =>
      rcases front_of_token hL hnum hunits ht htprop h token htoken with
        hfront | hborrows | ⟨-, zs, hpassed⟩
      · exact .inl hfront
      · exact .inr hborrows
      · -- in front of a pair stands text
        have hempty := hpassed.isEmpty lead hpassed.mem_of_concat
        have hsound := hL.isSound lead.1 (List.mem_map_of_mem (by simp [h.units]))
        rw [Lexeme.IsSound] at hsound
        revert hsound leads
        cases hcontent : lead.1.content <;>
          simp [leadsItem, Content.isPoint] <;> simp [Lexeme.isEmpty] at hempty <;> omega

end Stands

end YamlNavigator
