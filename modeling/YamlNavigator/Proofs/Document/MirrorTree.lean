import YamlNavigator.Proofs.Document.MirrorTokens
import YamlNavigator.Proofs.Document.Route
import YamlNavigator.Proofs.Yaml.MirrorGrammar

/-!
The tree of a text and that of its spelling.

* `Source.Twins`: a text and its spelling, each with its units; `Source.Twins.rel_definingToken?`,
  `Source.Twins.forall₂_propertyTokens`: the tokens that are found for a node correspond;
* `Spelling.Alike`: texts that are the same, or that both hold a line feed;
* `Node.Corresponds`, `Node.Twins`: trees of one shape, and those of a text and of its spelling;
* `Compose.mirrored`, `Compose.stream_twins`: moved events compose corresponding trees;
* `parse_text`: a text and its spelling are read alike.
-/

namespace YamlNavigator

open Text Yaml

/-! ### Related lists -/

section Related

variable {α β : Type} {R : α → β → Prop} {p : α → Bool} {q : β → Bool} {as : List α} {bs : List β}

/-- What a class leaves of related lists is related. -/
lemma forall₂_dropWhile (h : List.Forall₂ R as bs) (hpq : ∀ a b, R a b → q b = p a) :
    List.Forall₂ R (as.dropWhile p) (bs.dropWhile q) := by
  induction h with
  | nil => exact .nil
  | @cons a b as bs hab hrest ih =>
      rw [List.dropWhile_cons, List.dropWhile_cons, hpq a b hab]
      split
      · exact ih
      · exact .cons hab hrest

/-- What a class takes of related lists is related. -/
lemma forall₂_takeWhile (h : List.Forall₂ R as bs) (hpq : ∀ a b, R a b → q b = p a) :
    List.Forall₂ R (as.takeWhile p) (bs.takeWhile q) := by
  induction h with
  | nil => exact .nil
  | @cons a b as bs hab _ ih =>
      rw [List.takeWhile_cons, List.takeWhile_cons, hpq a b hab]
      split
      · exact .cons hab ih
      · exact .nil

/-- The first items of a class in related lists are related. -/
lemma rel_find? (h : List.Forall₂ R as bs) (hpq : ∀ a b, R a b → q b = p a) :
    Option.Rel R (as.find? p) (bs.find? q) := by
  induction h with
  | nil => exact .none
  | @cons a b as bs hab _ ih =>
      rw [List.find?_cons, List.find?_cons, hpq a b hab]
      split
      · exact .some hab
      · exact ih

/-- Related lists hold related items at the same places. -/
lemma rel_getElem? (h : List.Forall₂ R as bs) (i : Nat) : Option.Rel R as[i]? bs[i]? := by
  induction h generalizing i with
  | nil => exact .none
  | cons hab _ ih =>
      cases i with
      | zero => exact .some hab
      | succ i => exact ih i

/-- Related items of two lists, each an item of its list. -/
lemma forall₂_mem (h : List.Forall₂ R as bs) :
    List.Forall₂ (fun a b => R a b ∧ a ∈ as ∧ b ∈ bs) as bs := by
  induction h with
  | nil => exact .nil
  | @cons a b as bs hab _ ih =>
      refine .cons ⟨hab, List.mem_cons_self, List.mem_cons_self⟩ (ih.imp fun c d hcd => ?_)
      exact ⟨hcd.1, List.mem_cons_of_mem a hcd.2.1, List.mem_cons_of_mem b hcd.2.2⟩

/-- Related options are mapped to related options. -/
lemma rel_optionMap {γ δ : Type} {P : γ → δ → Prop} {f : α → γ} {g : β → δ} {a : Option α}
    {b : Option β} (h : Option.Rel R a b) (hfg : ∀ a b, R a b → P (f a) (g b)) :
    Option.Rel P (a.map f) (b.map g) := by
  cases h with
  | some hab => exact .some (hfg _ _ hab)
  | none => exact .none

end Related

/-! ### Tokens of a node -/

namespace Source

/-- A text and its spelling, each with its units: the start of the stream, and the others in its
order. -/
structure Twins (w : Spelling) (s : List Char) (src src' : Source) : Prop where
  text : src.text = s
  text_spelled : src'.text = w.text s
  units : ∃ u u' us us', src.units = u :: us ∧ src'.units = u' :: us' ∧ u'.1 = u.1 ∧
    u.1.content = .streamStart ∧ u.1.isEmpty = true ∧
    (∀ v ∈ us, u.1.start.index ≤ v.1.start.index) ∧ List.Forall₂ (UnitTwins w s) us us'

variable {w : Spelling} {s : List Char} {src src' : Source} {accepts : Content → Bool}
variable {us us' : List (Lexeme × Token)} {u : Lexeme × Token}

/-- The first accepted units among moved units are the moved ones. -/
lemma rel_firstAccepted? (h : List.Forall₂ (UnitTwins w s) us us') (stop : Nat) :
    Option.Rel (Token.Twins w s) (firstAccepted? accepts stop us)
      (firstAccepted? accepts (w.offset s stop) us') := by
  induction h with
  | nil => exact .none
  | @cons u u' us us' hu _ ih =>
      obtain ⟨l, t⟩ := u
      obtain ⟨l', t'⟩ := u'
      obtain ⟨rfl, ht⟩ := hu
      have hstop : (accepts l.content && decide ((l.mapMarks (Mark.spelled w s)).stop.index ≤
          w.offset s stop)) = (accepts l.content && decide (l.stop.index ≤ stop)) :=
        congrArg (accepts l.content && ·) (decide_eq_decide.mpr Spelling.offset_le_iff)
      have hskip : ((l.mapMarks (Mark.spelled w s)).isProperty ||
          (l.mapMarks (Mark.spelled w s)).isEmpty) = (l.isProperty || l.isEmpty) := by
        rw [isEmpty_spelled]
        rfl
      rw [firstAccepted?, firstAccepted?, Grammar.content_mapMarks, hstop, hskip]
      split
      · exact .some ht
      · split
        · exact ih
        · exact .none

/-- The properties at the front of moved units are the moved ones. -/
lemma forall₂_leadingProperties (h : List.Forall₂ (UnitTwins w s) us us') :
    List.Forall₂ (Token.Twins w s) (leadingProperties us) (leadingProperties us') := by
  induction h with
  | nil => exact .nil
  | @cons u u' us us' hu _ ih =>
      obtain ⟨l, t⟩ := u
      obtain ⟨l', t'⟩ := u'
      obtain ⟨rfl, ht⟩ := hu
      have hproperty : (l.mapMarks (Mark.spelled w s)).isProperty = l.isProperty := rfl
      rw [leadingProperties, leadingProperties, hproperty, isEmpty_spelled]
      split
      · exact .cons ht ih
      · split
        · exact ih
        · exact .nil

/-- Whether a unit starts before an offset does not change when both are moved. -/
lemma startsBefore_twins (start : Nat) (u u' : Lexeme × Token) (h : UnitTwins w s u u') :
    decide (u'.1.start.index < w.offset s start) = decide (u.1.start.index < start) := by
  rw [h.lexeme]
  exact decide_eq_decide.mpr Spelling.offset_lt_iff

/-- The units from an offset on, with a unit in front of all others or without it. -/
lemma dropWhile_cons_cases (hle : ∀ v ∈ us, u.1.start.index ≤ v.1.start.index) (start : Nat) :
    (u :: us).dropWhile (·.1.start.index < start) = us.dropWhile (·.1.start.index < start) ∨
      (u :: us).dropWhile (·.1.start.index < start) =
        u :: us.dropWhile (·.1.start.index < start) := by
  by_cases hu : u.1.start.index < start
  · exact .inl (List.dropWhile_cons_of_pos (by simpa using hu))
  · rw [List.dropWhile_cons_of_neg (by simpa using hu)]
    refine .inr (congrArg (u :: ·) ?_)
    cases us with
    | nil => rfl
    | cons v us =>
        have hv := hle v List.mem_cons_self
        rw [List.dropWhile_cons_of_neg (by simp; omega)]

/-- A unit without text in front of all others is no defining token, if its kind is not accepted. -/
lemma definingToken?_cons {text : List Char} (haccepts : accepts u.1.content = false)
    (hempty : u.1.isEmpty = true) (hle : ∀ v ∈ us, u.1.start.index ≤ v.1.start.index)
    (start stop : Nat) : definingToken? ⟨text, u :: us⟩ accepts start stop =
      definingToken? ⟨text, us⟩ accepts start stop := by
  have hfirst : ∀ vs : List (Lexeme × Token),
      firstAccepted? accepts stop (u :: vs) = firstAccepted? accepts stop vs := fun vs => by
    obtain ⟨l, t⟩ := u
    rw [firstAccepted?, haccepts, hempty, Bool.false_and, Bool.or_true, if_neg (by simp),
      if_pos rfl]
  have hdrop : firstAccepted? accepts stop ((u :: us).dropWhile (·.1.start.index < start)) =
      firstAccepted? accepts stop (us.dropWhile (·.1.start.index < start)) := by
    rcases dropWhile_cons_cases hle start with h | h
    · rw [h]
    · rw [h, hfirst]
  have htake : ((u :: us).takeWhile (·.1.start.index < start)).reverse.find? (fun v =>
      !v.1.isEmpty && decide (v.1.stop.index ≤ stop)) =
        (us.takeWhile (·.1.start.index < start)).reverse.find? fun v =>
          !v.1.isEmpty && decide (v.1.stop.index ≤ stop) := by
    by_cases hu : u.1.start.index < start
    · rw [List.takeWhile_cons_of_pos (by simpa using hu), List.reverse_cons, List.find?_append,
        List.find?_singleton, hempty]
      simp
    · rw [List.takeWhile_cons_of_neg (by simpa using hu)]
      cases us with
      | nil => rfl
      | cons v us =>
          have hv := hle v List.mem_cons_self
          rw [List.takeWhile_cons_of_neg (by simp; omega)]
  simp only [definingToken?, hdrop, htake]

/-- A unit without text in front of all others that is no property announces nothing. -/
lemma propertyTokens_cons {text : List Char} (hproperty : u.1.isProperty = false)
    (hempty : u.1.isEmpty = true) (hle : ∀ v ∈ us, u.1.start.index ≤ v.1.start.index)
    (anchor tag : Option String) (start : Nat) :
    propertyTokens ⟨text, u :: us⟩ anchor tag start =
      propertyTokens ⟨text, us⟩ anchor tag start := by
  have hfirst : ∀ vs : List (Lexeme × Token),
      leadingProperties (u :: vs) = leadingProperties vs := fun vs => by
    obtain ⟨l, t⟩ := u
    rw [leadingProperties, hproperty, hempty, if_neg (by simp), if_pos rfl]
  have hdrop : leadingProperties ((u :: us).dropWhile (·.1.start.index < start)) =
      leadingProperties (us.dropWhile (·.1.start.index < start)) := by
    rcases dropWhile_cons_cases hle start with h | h
    · rw [h]
    · rw [h, hfirst]
  simp only [propertyTokens, hdrop]

namespace Twins

/-- In front of the moved units stands what stands in front of the units. -/
lemma le_moved (h : List.Forall₂ (UnitTwins w s) us us') {n : Nat}
    (hle : ∀ v ∈ us, n ≤ v.1.start.index) : ∀ v ∈ us', n ≤ v.1.start.index := by
  induction h with
  | nil => exact fun v hv => by cases hv
  | @cons v v' us us' hv _ ih =>
      intro k hk
      rcases List.mem_cons.mp hk with rfl | hk
      · rw [hv.lexeme]
        exact Nat.le_trans (hle v List.mem_cons_self) (Spelling.le_offset s v.1.start.index)
      · exact ih (fun k hk => hle k (List.mem_cons_of_mem v hk)) k hk

/-- The defining tokens of a node and of the moved node correspond. -/
lemma rel_definingToken? (h : Twins w s src src') (haccepts : accepts .streamStart = false)
    (start stop : Nat) : Option.Rel (Token.Twins w s) (src.definingToken? accepts start stop)
      (src'.definingToken? accepts (w.offset s start) (w.offset s stop)) := by
  obtain ⟨u, u', us, us', hunits, hunits', hu', hu, hempty, hle, hus⟩ := h.units
  have hle' := le_moved hus hle
  rw [← hu'] at hle'
  obtain ⟨text, units⟩ := src
  obtain ⟨text', units'⟩ := src'
  obtain rfl : units = u :: us := hunits
  obtain rfl : units' = u' :: us' := hunits'
  rw [definingToken?_cons (by rw [hu, haccepts]) hempty hle,
    definingToken?_cons (by rw [hu', hu, haccepts]) (by rw [hu', hempty]) hle']
  have hfirst : Option.Rel (Token.Twins w s)
      (firstAccepted? accepts stop (us.dropWhile (·.1.start.index < start)))
      (firstAccepted? accepts (w.offset s stop)
        (us'.dropWhile (·.1.start.index < w.offset s start))) :=
    rel_firstAccepted? (forall₂_dropWhile hus (startsBefore_twins start)) stop
  have hlast := rel_find? (List.rel_reverse (forall₂_takeWhile hus (startsBefore_twins start)))
    (p := fun v => !v.1.isEmpty && decide (v.1.stop.index ≤ stop))
    (q := fun v => !v.1.isEmpty && decide (v.1.stop.index ≤ w.offset s stop)) fun v v' hv => by
      rw [hv.lexeme, isEmpty_spelled]
      exact congrArg (_ && ·) (decide_eq_decide.mpr Spelling.offset_le_iff)
  have hlast := rel_optionMap hlast fun _ _ hv => hv.token
  rw [definingToken?, definingToken?]
  generalize firstAccepted? accepts stop _ = found at hfirst ⊢
  generalize firstAccepted? accepts (w.offset s stop) _ = found' at hfirst ⊢
  cases hfirst with
  | some ht => exact .some ht
  | none => exact hlast

/-- The tokens of the properties of a node and of the moved node correspond. -/
lemma forall₂_propertyTokens (h : Twins w s src src') (anchor tag : Option String) (start : Nat) :
    List.Forall₂ (Token.Twins w s) (src.propertyTokens anchor tag start)
      (src'.propertyTokens anchor tag (w.offset s start)) := by
  obtain ⟨u, u', us, us', hunits, hunits', hu', hu, hempty, hle, hus⟩ := h.units
  have hle' := le_moved hus hle
  rw [← hu'] at hle'
  have hproperty : u.1.isProperty = false := by rw [Lexeme.isProperty, hu]
  obtain ⟨text, units⟩ := src
  obtain ⟨text', units'⟩ := src'
  obtain rfl : units = u :: us := hunits
  obtain rfl : units' = u' :: us' := hunits'
  rw [propertyTokens_cons hproperty hempty hle,
    propertyTokens_cons (by rw [hu', hproperty]) (by rw [hu', hempty]) hle', propertyTokens,
    propertyTokens]
  split
  · exact .nil
  · exact forall₂_leadingProperties (forall₂_dropWhile hus (startsBefore_twins start))

end Twins

end Source

/-! ### Paths -/

namespace Spelling

variable {w : Spelling} {p p' q q' : List Char}

/-- Texts that are the same, or, with carriage returns in front of line feeds, both hold a line
feed. -/
def Alike (w : Spelling) (p p' : List Char) : Prop :=
  p' = p ∨ (w.returns = true ∧ '\n' ∈ p ∧ '\n' ∈ p')

lemma alike_refl (w : Spelling) (p : List Char) : w.Alike p p := .inl rfl

/-- Texts that are put together from such texts. -/
lemma Alike.append (h : w.Alike p p') (h' : w.Alike q q') : w.Alike (p ++ q) (p' ++ q') := by
  rcases h with rfl | ⟨hreturns, hp, hp'⟩
  · rcases h' with rfl | ⟨hreturns, hq, hq'⟩
    · exact .inl rfl
    · exact .inr ⟨hreturns, List.mem_append_right _ hq, List.mem_append_right _ hq'⟩
  · exact .inr ⟨hreturns, List.mem_append_left _ hp, List.mem_append_left _ hp'⟩

/-- A part of a text and its spelling. -/
lemma alike_body (w : Spelling) (s : List Char) : w.Alike s (w.body s) := by
  by_cases hs : '\n' ∈ s
  · cases hreturns : w.returns with
    | true => exact .inr ⟨hreturns, hs, mem_body_of_mem hs⟩
    | false => exact .inl (body_of_returns_eq_false hreturns s)
  · exact .inl (body_of_not_mem hs)

end Spelling

/-! ### Trees -/

namespace Node

/-- Trees of one shape with a relation between the nodes at each place. -/
inductive Corresponds (R : Node → Node → Prop) : Node → Node → Prop
  | mk {n n' : Node} (root : R n n')
      (children : List.Forall₂ (Corresponds R) n.children n'.children) : Corresponds R n n'

/-- A node of a text at a path, and that of its spelling: they are of one kind and hold the same
values; their extents and tokens correspond, and so do the ends of their paths behind those of the
trees that they belong to. -/
structure Twin (w : Spelling) (s : List Char) (path path' : String) (n n' : Node) : Prop where
  kind : n'.kind = n.kind
  value : n'.value? = n.value?
  anchor : n'.info.anchor = n.info.anchor
  start : n'.start = w.offset s n.start
  stop : n'.stop = w.offset s n.stop
  token : Option.Rel (Token.Twins w s) n.token n'.token
  properties : List.Forall₂ (Token.Twins w s) n.info.properties n'.info.properties
  ending : ∃ p p', n.path.toList = path.toList ++ p ∧ n'.path.toList = path'.toList ++ p' ∧
    w.Alike p p'

/-- Trees of a text at a path, and of its spelling. -/
abbrev Twins (w : Spelling) (s : List Char) (path path' : String) : Node → Node → Prop :=
  Corresponds (Twin w s path path')

variable {R R' : Node → Node → Prop} {n n' : Node}

/-- What passes from the children of two nodes to the nodes holds of corresponding trees. -/
lemma Corresponds.induction (motive : Node → Node → Prop)
    (step : ∀ n n', R n n' → List.Forall₂ (Corresponds R) n.children n'.children →
      List.Forall₂ motive n.children n'.children → motive n n') (h : Corresponds R n n') :
    motive n n' := by
  induction n using children_induction generalizing n' with
  | step n ih =>
      obtain ⟨hroot, hchildren⟩ := h
      have hmotive : ∀ c ∈ n.children, ∀ c', Corresponds R c c' → motive c c' :=
        fun c hc c' => ih c hc
      exact step n n' hroot hchildren
        (((List.forall₂_and_left _ _).mpr ⟨hmotive, hchildren⟩).imp fun c c' hc => hc.1 c' hc.2)

/-- A weaker relation between the nodes of two trees. -/
lemma Corresponds.mono (h : Corresponds R n n') (hR : ∀ m m', R m m' → R' m m') :
    Corresponds R' n n' :=
  Corresponds.induction (Corresponds R') (fun _ _ hroot _ hchildren => ⟨hR _ _ hroot, hchildren⟩) h

/-- Corresponding trees at changed paths. -/
lemma Corresponds.mapPaths {f f' : String → String} (h : Corresponds R n n')
    (hR : ∀ m m', R m m' → R' (m.mapPaths f) (m'.mapPaths f')) :
    Corresponds R' (n.mapPaths f) (n'.mapPaths f') := by
  refine Corresponds.induction (fun m m' => Corresponds R' (m.mapPaths f) (m'.mapPaths f'))
    (fun m m' hroot _ hchildren => ⟨hR m m' hroot, ?_⟩) h
  rw [children_mapPaths, children_mapPaths, List.forall₂_map_left_iff, List.forall₂_map_right_iff]
  exact hchildren

/-- The nodes of corresponding trees correspond in their order. -/
lemma Corresponds.depthFirst (h : Corresponds R n n') :
    List.Forall₂ (Corresponds R) n.depthFirst n'.depthFirst := by
  refine Corresponds.induction (fun m m' => List.Forall₂ (Corresponds R) m.depthFirst m'.depthFirst)
    (fun m m' hroot hchildren hbelow => ?_) h
  rw [depthFirst_eq, depthFirst_eq]
  refine .cons ⟨hroot, hchildren⟩ ?_
  clear hchildren
  generalize m.children = cs at hbelow
  generalize m'.children = cs' at hbelow
  induction hbelow with
  | nil => exact .nil
  | cons hc _ ih => exact List.rel_append hc ih

variable {w : Spelling} {s : List Char} {path path' target target' : String}

/-- The root of a tree that is seen from a path further up. -/
lemma Twin.base (h : Twin w s target target' n n') {q q' : List Char}
    (hpath : target.toList = path.toList ++ q) (hpath' : target'.toList = path'.toList ++ q')
    (hq : w.Alike q q') : Twin w s path path' n n' := by
  obtain ⟨p, p', hp, hp', hpp'⟩ := h.ending
  refine { h with ending := ⟨q ++ p, q' ++ p', ?_, ?_, hq.append hpp'⟩ }
  · rw [hp, hpath, List.append_assoc]
  · rw [hp', hpath', List.append_assoc]

/-- A tree that is moved from one path to another. -/
lemma Twins.reroot (h : Twins w s path path' n n') :
    Twins w s target target' (n.mapPaths (Compose.reroot path target))
      (n'.mapPaths (Compose.reroot path' target')) := by
  refine Corresponds.mapPaths h fun m m' hm => ?_
  obtain ⟨p, p', hp, hp', hpp'⟩ := hm.ending
  -- only the paths are changed
  have hpath : ∀ {path target : String} {k : Node} {q : List Char},
      k.path.toList = path.toList ++ q →
        (k.mapPaths (Compose.reroot path target)).path.toList = target.toList ++ q := by
    intro path target k q hk
    rw [Node.path, info_mapPaths, Compose.reroot, String.toList_append, String.toList_ofList]
    show _ ++ k.path.toList.drop _ = _
    rw [hk, ← String.length_toList, List.drop_left]
  have hkind : ∀ (f : String → String) (k : Node),
      (k.mapPaths f).kind = k.kind ∧ (k.mapPaths f).value? = k.value? := fun f k => by
    cases k <;> exact ⟨rfl, rfl⟩
  refine ⟨?_, ?_, ?_, ?_, ?_, ?_, ?_, p, p', hpath hp, hpath hp', hpp'⟩
  · rw [(hkind _ m).1, (hkind _ m').1, hm.kind]
  · rw [(hkind _ m).2, (hkind _ m').2, hm.value]
  · rw [info_mapPaths, info_mapPaths]
    exact hm.anchor
  · rw [Node.start, Node.start, info_mapPaths, info_mapPaths]
    exact hm.start
  · rw [Node.stop, Node.stop, info_mapPaths, info_mapPaths]
    exact hm.stop
  · rw [Node.token, Node.token, info_mapPaths, info_mapPaths]
    exact hm.token
  · rw [info_mapPaths, info_mapPaths]
    exact hm.properties

end Node

/-! ### Composing -/

namespace Compose

open Node

variable {w : Spelling} {s : List Char} {src src' : Source} {path path' : String} {e : Event}

/-- What is written for a key that is a collection, or nothing, is read off the text. -/
lemma keySegment_of_kind (src : Source) (a : Anchors) {n : Node} (hscalar : n.kind ≠ .scalar)
    (hreference : n.kind ≠ .reference) :
    keySegment src a n = String.ofList (strip (src.slice n.start n.stop)) := by
  cases n with
  | scalar i v => exact absurd rfl hscalar
  | reference i v => exact absurd rfl hreference
  | _ => rfl

/-- The segments of a key and of the moved key are alike: only the text of a collection is spelled
in another way. -/
lemma alike_keySegment (hsrc : src.Twins w s src') (a : Anchors) {n n' : Node}
    (h : Twin w s path path' n n') :
    w.Alike (keySegment src a n).toList (keySegment src' a n').toList := by
  have hkind := h.kind
  have hvalue := h.value
  by_cases hscalar : n.kind = .scalar
  · rw [hscalar] at hkind
    cases n <;> cases hscalar
    cases n' <;> cases hkind
    obtain rfl := hvalue
    exact .inl rfl
  by_cases hreference : n.kind = .reference
  · rw [hreference] at hkind
    cases n <;> cases hreference
    cases n' <;> cases hkind
    obtain rfl := hvalue
    exact .inl rfl
  rw [keySegment_of_kind src a hscalar hreference, keySegment_of_kind src' a (hkind ▸ hscalar)
    (hkind ▸ hreference), String.toList_ofList, String.toList_ofList, Source.slice, Source.slice,
    hsrc.text, hsrc.text_spelled, h.start, h.stop, Spelling.slice_text, Spelling.strip_body]
  exact w.alike_body _

/-- Nodes that carry what is found at an event, and at the moved event, are twins. -/
lemma twin_of_info (hsrc : src.Twins w s src') {accepts : Content → Bool}
    (haccepts : accepts .streamStart = false) {anchor tag : Option String} {stop stop' : Nat}
    (hstop : stop' = w.offset s stop) {n n' : Node} (hkind : n'.kind = n.kind)
    (hvalue : n'.value? = n.value?) (hn : n.info = nodeInfo src accepts path anchor tag e stop)
    (hn' : n'.info =
      nodeInfo src' accepts path' anchor tag (e.mapMarks (Mark.spelled w s)) stop') :
    Twin w s path path' n n' where
  kind := hkind
  value := hvalue
  anchor := by rw [hn, hn']; rfl
  start := by rw [Node.start, Node.start, hn, hn']; rfl
  stop := by rw [Node.stop, Node.stop, hn, hn']; exact hstop
  token := by
    rw [Node.token, Node.token, hn, hn']
    exact hsrc.rel_definingToken? haccepts e.start.index e.stop.index
  properties := by
    rw [hn, hn']
    exact hsrc.forall₂_propertyTokens anchor tag e.start.index
  ending := by
    refine ⟨[], [], ?_, ?_, w.alike_refl []⟩
    · rw [Node.path, hn, List.append_nil]
      rfl
    · rw [Node.path, hn', List.append_nil]
      rfl

/-- A collection and the moved collection stop at places that correspond. -/
lemma collectionStop_twins (flow : Bool) {c c' : Contents} (hstop : c'.stop = w.offset s c.stop)
    (hnodes : List.Forall₂ (Twins w s path path') c.nodes c'.nodes) :
    collectionStop flow c' = w.offset s (collectionStop flow c) := by
  have hmax : ∀ {ns ns' : List Node}, List.Forall₂ (Twins w s path path') ns ns' → ∀ m : Nat,
      ns'.foldl (fun m n => max m n.stop) (w.offset s m) =
        w.offset s (ns.foldl (fun m n => max m n.stop) m) := by
    intro ns ns' h
    induction h with
    | nil => exact fun _ => rfl
    | @cons n n' ns ns' hn _ ih =>
        intro m
        obtain ⟨hroot, -⟩ := hn
        rw [List.foldl_cons, List.foldl_cons, hroot.stop, ← Spelling.offset_max, ih]
  obtain ⟨nodes, stop⟩ := c
  obtain ⟨nodes', stop'⟩ := c'
  obtain rfl : stop' = w.offset s stop := hstop
  rw [collectionStop, collectionStop]
  cases hnodes with
  | nil =>
      rw [List.isEmpty_nil, Bool.or_true]
      rfl
  | @cons n n' ns ns' hn hns =>
      obtain ⟨hroot, -⟩ := hn
      rw [List.isEmpty_cons, List.isEmpty_cons, apply_ite (w.offset s), List.foldl_cons,
        List.foldl_cons, hroot.stop, Nat.zero_max, Nat.zero_max, hmax hns]

/-- An entry is defined by its key and spans the key and the value. -/
lemma twins_entryOf {k k' v v' : Node} (hk : Twins w s path path' k k')
    (hv : Twins w s path path' v v') :
    Twins w s path path' (entryOf path k v) (entryOf path' k' v') := by
  obtain ⟨hkey, -⟩ := id hk
  obtain ⟨hvalue, -⟩ := id hv
  refine ⟨⟨rfl, rfl, rfl, hkey.start, ?_, hkey.token, .nil, [], [], ?_, ?_, w.alike_refl []⟩,
    .cons hk (.cons hv .nil)⟩
  · show max k'.stop v'.stop = w.offset s (max k.stop v.stop)
    rw [hkey.stop, hvalue.stop, Spelling.offset_max]
  · exact (List.append_nil _).symm
  · exact (List.append_nil _).symm

/-- What is composed of events and of the moved events: the values are related, and the anchors are
the same. -/
structure ComposedTwins (w : Spelling) (s : List Char) {α : Type} (R : α → α → Prop)
    (c c' : Composed α) : Prop where
  value : R c.value c'.value
  anchors : c'.anchors = c.anchors
  rest : c'.rest = c.rest.map (Event.mapMarks (Mark.spelled w s))

/-- The contents of a collection and of the moved collection. -/
structure ContentsTwins (w : Spelling) (s : List Char) (path path' : String) (c c' : Contents) :
    Prop where
  nodes : List.Forall₂ (Twins w s path path') c.nodes c'.nodes
  stop : c'.stop = w.offset s c.stop

/-- What is composed within a bound is composed of the moved events as well. -/
structure Mirrored (w : Spelling) (s : List Char) (src src' : Source) (n : Nat) : Prop where
  node : ∀ {a path es c} (path'), node src n a path es = .ok c →
    ∃ c', node src' n a path' (es.map (Event.mapMarks (Mark.spelled w s))) = .ok c' ∧
      ComposedTwins w s (Twins w s path path') c c'
  items : ∀ {a path index es c} (path'), items src n a path index es = .ok c →
    ∃ c', items src' n a path' index (es.map (Event.mapMarks (Mark.spelled w s))) = .ok c' ∧
      ComposedTwins w s (ContentsTwins w s path path') c c'
  entries : ∀ {a path es c} (path'), entries src n a path es = .ok c →
    ∃ c', entries src' n a path' (es.map (Event.mapMarks (Mark.spelled w s))) = .ok c' ∧
      ComposedTwins w s (ContentsTwins w s path path') c c'

namespace Mirrored

variable {n : Nat} {a : Anchors} {es : List Event}

/-- Nothing is composed in no steps. -/
lemma zero (w : Spelling) (s : List Char) (src src' : Source) : Mirrored w s src src' 0 := by
  constructor <;> intros <;> rename_i h <;> cases h

/-- A node. -/
lemma node_succ (hsrc : src.Twins w s src') (ih : Mirrored w s src src' n) {c : Composed Node}
    (path' : String) (h : Compose.node src (n + 1) a path es = .ok c) :
    ∃ c', Compose.node src' (n + 1) a path' (es.map (Event.mapMarks (Mark.spelled w s))) = .ok c' ∧
      ComposedTwins w s (Twins w s path path') c c' := by
  obtain ⟨k, e, rest, hk, rfl, hrun⟩ := run_of_node h
  cases hk
  have hstep : (e.mapMarks (Mark.spelled w s)).step = e.step := rfl
  rw [List.map_cons, Compose.node, hstep]
  cases hrun with
  | reference step =>
      rw [step]
      refine ⟨_, rfl, ⟨⟨twin_of_info hsrc rfl rfl rfl rfl rfl rfl, ?_⟩, rfl, rfl⟩⟩
      exact .nil
  | scalar step =>
      rw [step]
      refine ⟨_, rfl, ⟨⟨twin_of_info hsrc rfl rfl rfl rfl rfl rfl, ?_⟩, rfl, rfl⟩⟩
      exact .nil
  | @sequence _ _ flow _ step hitems =>
      obtain ⟨c', hc', hcontents, hanchors, hrest⟩ := ih.items path' hitems
      rw [step]
      dsimp only
      rw [hc']
      have hstop := collectionStop_twins flow hcontents.stop hcontents.nodes
      refine ⟨_, rfl, ⟨⟨twin_of_info hsrc rfl hstop rfl rfl rfl rfl, hcontents.nodes⟩, ?_, hrest⟩⟩
      exact congrArg (Anchors.define · _ none) hanchors
  | @mapping _ _ flow _ step hentries =>
      obtain ⟨c', hc', hcontents, hanchors, hrest⟩ := ih.entries path' hentries
      rw [step]
      dsimp only
      rw [hc']
      have hstop := collectionStop_twins flow hcontents.stop hcontents.nodes
      refine ⟨_, rfl, ⟨⟨twin_of_info hsrc rfl hstop rfl rfl rfl rfl, hcontents.nodes⟩, ?_, hrest⟩⟩
      exact congrArg (Anchors.define · _ none) hanchors

/-- The items of a sequence. -/
lemma items_succ (ih : Mirrored w s src src' n) {index : Nat} {c : Composed Contents}
    (path' : String) (h : Compose.items src (n + 1) a path index es = .ok c) :
    ∃ c', Compose.items src' (n + 1) a path' index (es.map (Event.mapMarks (Mark.spelled w s))) =
      .ok c' ∧ ComposedTwins w s (ContentsTwins w s path path') c c' := by
  obtain ⟨k, e, rest, hk, rfl, hrun⟩ := run_of_items h
  cases hk
  have hstep : (e.mapMarks (Mark.spelled w s)).step = e.step := rfl
  rw [List.map_cons, Compose.items, hstep]
  cases hrun with
  | done step =>
      rw [if_pos step]
      exact ⟨_, rfl, ⟨.nil, rfl⟩, rfl, rfl⟩
  | item step hnode hitems =>
      rw [if_neg step, ← List.map_cons]
      obtain ⟨item', hnode', hitem⟩ := ih.node (itemPath path' index) hnode
      obtain ⟨more', hitems', hmore⟩ := ih.items path' hitems
      rw [← hitem.anchors, ← hitem.rest] at hitems'
      refine ⟨_, Except.bind_eq_ok_iff.mpr ⟨item', hnode',
        Except.bind_eq_ok_iff.mpr ⟨more', hitems', rfl⟩⟩, ⟨.cons ?_ hmore.value.nodes,
          hmore.value.stop⟩, hmore.anchors, hmore.rest⟩
      exact hitem.value.mono fun m m' hm =>
        hm.base (toList_itemPath path index) (toList_itemPath path' index) (w.alike_refl _)

/-- The entries of a mapping: the tree of a key is moved below the path of its entry. -/
lemma entries_succ (hsrc : src.Twins w s src') (ih : Mirrored w s src src' n)
    {c : Composed Contents} (path' : String) (h : Compose.entries src (n + 1) a path es = .ok c) :
    ∃ c', Compose.entries src' (n + 1) a path' (es.map (Event.mapMarks (Mark.spelled w s))) =
      .ok c' ∧ ComposedTwins w s (ContentsTwins w s path path') c c' := by
  obtain ⟨k, e, rest, hk, rfl, hrun⟩ := run_of_entries h
  cases hk
  have hstep : (e.mapMarks (Mark.spelled w s)).step = e.step := rfl
  rw [List.map_cons, Compose.entries, hstep]
  cases hrun with
  | done step =>
      rw [if_pos step]
      exact ⟨_, rfl, ⟨.nil, rfl⟩, rfl, rfl⟩
  | @entry key value more target step hkey htarget hvalue hentries =>
      rw [if_neg step, ← List.map_cons]
      obtain ⟨key', hkey', hkeys⟩ := ih.node path' hkey
      obtain ⟨hroot, -⟩ := id hkeys.value
      have hsegment := alike_keySegment hsrc key.anchors hroot
      obtain ⟨target', htarget'⟩ : ∃ target', target' =
        entryPath path' (keySegment src' key'.anchors key'.value) := ⟨_, rfl⟩
      obtain ⟨value', hvalue', hvalues⟩ := ih.node target' hvalue
      obtain ⟨more', hentries', hmore⟩ := ih.entries path' hentries
      rw [← hkeys.anchors, ← hkeys.rest, htarget'] at hvalue'
      rw [← hvalues.anchors, ← hvalues.rest] at hentries'
      have hpath : target.toList = path.toList ++ (Crossing.key _).path :=
        htarget ▸ toList_entryPath path _
      have hpath' : target'.toList = path'.toList ++ (Crossing.key _).path :=
        htarget' ▸ toList_entryPath path' _
      rw [hkeys.anchors] at hpath'
      refine ⟨_, Except.bind_eq_ok_iff.mpr ⟨key', hkey', Except.bind_eq_ok_iff.mpr ⟨value', hvalue',
        Except.bind_eq_ok_iff.mpr ⟨more', hentries', rfl⟩⟩⟩, ⟨.cons ?_ hmore.value.nodes,
          hmore.value.stop⟩, hmore.anchors, hmore.rest⟩
      rw [← htarget']
      exact (twins_entryOf hkeys.value.reroot hvalues.value).mono fun m m' hm =>
        hm.base hpath hpath' ((w.alike_refl ['.']).append hsegment)

end Mirrored

/-- **Moved events compose corresponding trees.** -/
theorem mirrored (hsrc : src.Twins w s src') (n : Nat) : Mirrored w s src src' n := by
  induction n with
  | zero => exact Mirrored.zero w s src src'
  | succ n ih => exact ⟨ih.node_succ hsrc, ih.items_succ, ih.entries_succ hsrc⟩

/-- The bound on nested calls depends on the number of events only. -/
lemma bound_map (f : Mark → Mark) (es : List Event) :
    bound (es.map (Event.mapMarks f)) = bound es := by
  rw [bound, bound, List.length_map]

/-- A document and the moved document. -/
lemma document_twins (hsrc : src.Twins w s src') {first last : Event} {es behind : List Event}
    {d : Node} {body : Composed Node} (h : DocumentRun src first es d behind body last) :
    ∃ d', document src' (first.mapMarks (Mark.spelled w s))
        (es.map (Event.mapMarks (Mark.spelled w s))) =
          .ok (d', behind.map (Event.mapMarks (Mark.spelled w s))) ∧ Twins w s "" "" d d' := by
  obtain ⟨hbody, hrest, rfl⟩ := h
  obtain ⟨body', hbody', htwins⟩ := (mirrored hsrc _).node rootPath hbody
  rw [← bound_map (Mark.spelled w s)] at hbody'
  have hrest' := htwins.rest
  rw [hrest, List.map_cons] at hrest'
  refine ⟨_, document_of_body hbody' hrest', ?_⟩
  have hroot : Twins w s "" "" body.value body'.value := htwins.value.mono fun m m' hm =>
    hm.base rfl rfl (w.alike_refl rootPath.toList)
  refine ⟨⟨rfl, rfl, rfl, rfl, rfl, ?_, .nil, [], [], rfl, rfl, w.alike_refl []⟩, .cons hroot .nil⟩
  obtain ⟨hbodies, -⟩ := id hroot
  show Option.Rel _ (documentToken src first last body.value) (documentToken src' _ _ body'.value)
  have hstep : (first.mapMarks (Mark.spelled w s)).step = first.step := rfl
  rw [documentToken, documentToken, hstep]
  split
  · exact hsrc.rel_definingToken? rfl first.start.index last.stop.index
  · exact hbodies.token

/-- The documents of a stream and those of the moved stream. -/
lemma documents_twins (hsrc : src.Twins w s src') : ∀ {n : Nat} {es behind : List Event}
    {ds : List Node}, documents src n es = .ok (ds, behind) →
      ∃ ds', documents src' n (es.map (Event.mapMarks (Mark.spelled w s))) =
          .ok (ds', behind.map (Event.mapMarks (Mark.spelled w s))) ∧
        List.Forall₂ (Twins w s "" "") ds ds'
  | n, es, behind, ds, h => by
      have hmap : ∀ e : Event, (e.mapMarks (Mark.spelled w s)).step = e.step := fun _ => rfl
      obtain ⟨k, e, rest, rfl, rfl, ⟨hstep, rfl, rfl⟩ |
        ⟨hstep, d, more, ds', body, last, rfl, hrun, hds⟩⟩ := run_of_documents h
      · rw [List.map_cons, documents, if_pos (hmap e ▸ hstep)]
        exact ⟨_, rfl, .nil⟩
      · obtain ⟨d', hd', hdocument⟩ := document_twins hsrc hrun
        obtain ⟨ds'', hds', hdocuments⟩ := documents_twins hsrc hds
        rw [List.map_cons, documents, if_neg (hmap e ▸ hstep)]
        exact ⟨d' :: ds'', Except.bind_eq_ok_iff.mpr ⟨_, hd',
          Except.bind_eq_ok_iff.mpr ⟨_, hds', rfl⟩⟩, .cons hdocument hdocuments⟩

/-- The trees of a stream and of the moved stream: sets of documents that correspond. -/
theorem stream_twins (hsrc : src.Twins w s src') {es behind : List Event} {tree : Node}
    (h : stream src es = .ok (tree, behind)) :
    ∃ ds ds', tree = .documentSetOf ds ∧
      stream src' (Event.moveAll (Mark.spelled w s) es) =
        .ok (.documentSetOf ds', behind.map (Event.mapMarks (Mark.spelled w s))) ∧
      List.Forall₂ (Twins w s "" "") ds ds' := by
  obtain ⟨ds, hds, htree⟩ := stream_eq_ok h
  obtain ⟨ds', hds', htwins⟩ := documents_twins hsrc hds
  refine ⟨ds, ds', htree, Except.bind_eq_ok_iff.mpr ⟨(ds', _), ?_, rfl⟩, htwins⟩
  cases es with
  | nil => exact hds'
  | cons e es =>
      have hbound : bound (Event.moveAll (Mark.spelled w s) (e :: es)) = bound (e :: es) := by
        rw [bound, bound, Event.moveAll, List.length_cons, List.length_map, List.length_cons]
      rw [hbound]
      exact hds'

end Compose

/-! ### Reading -/

/-- The stages of reading a text are all that is needed to read it. -/
lemma parse_of_stages {s : List Char} {ls : List Lexeme} {es rest : List Event} {tree : Node}
    (hls : Lexeme.scan s = .ok ls) (hes : Event.ofLexemes ls = .ok es)
    (htree : Compose.stream ⟨s, unitsOf s ls⟩ es = .ok (tree, rest)) :
    parse (String.ofList s) = .ok ⟨String.ofList s, Stream.ofTiles (.ofText s) (tiles s ls), tree,
      Stream.isIndexed_ofTiles _ _⟩ := by
  simp only [parse, String.toList_ofList, Except.bind_eq_ok_iff, Except.mapError_eq_ok_iff,
    Except.pure_eq_ok_iff, Prod.exists]
  exact ⟨ls, hls, es, hes, tree, rest, htree, rfl⟩

/-- **A text and its spelling are read alike.** If a text is accepted, so is its spelling. The
tokens of the spelled text are that of the byte order mark, if one is put in front, and tokens that
hold the spellings of the tokens of the text; and the trees of the documents correspond. -/
theorem parse_text {w : Spelling} {source : String} {d : Parsed} (hs : w.Suits source.toList)
    (h : parse source = .ok d) :
    ∃ d' ds ds' ts', parse (String.ofList (w.text source.toList)) = .ok d' ∧
      d.documents = .documentSetOf ds ∧ d'.documents = .documentSetOf ds' ∧
      List.Forall₂ (Node.Twins w source.toList "" "") ds ds' ∧
      d'.tokens.tokens.toList = tokensFrom (.ofText (w.text source.toList)) 0
        (List.replicate w.front.length Tile.mark) ++ ts' ∧
      TokensSpelled w d.tokens.tokens.toList ts' ∧ ts'.head?.map Token.kind = some .other := by
  obtain ⟨ls, es, rest, hls, hes, htree, htokens, -⟩ := exists_stages_of_parse h
  have hcover := cover_of_scan hls
  obtain ⟨u, u', us, us', hunits, hunits', hu', hu, hempty, hus⟩ := units_text hs hcover
  have hsrc : Source.Twins w source.toList ⟨source.toList, unitsOf source.toList ls⟩
      ⟨w.text source.toList, unitsOf (w.text source.toList)
        (Lexeme.moveAll (Mark.spelled w source.toList) ls)⟩ := by
    refine ⟨rfl, rfl, u, u', us, us', hunits, hunits', hu', hu, hempty, fun v hv => ?_, hus⟩
    have hfst := map_fst_unitsOf source.toList ls
    rw [hunits, List.map_cons] at hfst
    have hord := hcover.inOrder
    rw [← hfst, InOrder, List.pairwise_cons] at hord
    have hsound := (hcover.isSound u.1 (hfst ▸ List.mem_cons_self)).start_le
    exact Nat.le_trans hsound (hord.1 v.1 (List.mem_map_of_mem hv))
  obtain ⟨ds, ds', hds, htree', htwins⟩ := Compose.stream_twins hsrc htree
  obtain ⟨ts', hts', htokens', hfirst⟩ := tokens_text hs hcover
  refine ⟨_, ds, ds', ts', parse_of_stages (scan_text hs hls) (ofLexemes_text hls hes) htree', hds,
    rfl, htwins, hts', ?_, hfirst⟩
  rw [htokens]
  exact htokens'

end YamlNavigator
