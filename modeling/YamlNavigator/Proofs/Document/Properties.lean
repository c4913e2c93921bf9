import Mathlib.Data.List.Pairwise
import YamlNavigator.Proofs.Document.Neighbours

/-!
The anchors and tags of a text, and the nodes that they belong to.

* `isUnchained`, `isUnchained_iff`: whether properties are chained can be decided;
* `map_snd_filter_unitsOf`, `namedBy_unitsOf`: the tokens of some kinds are those of the units that
  have such tokens, and so are those of properties;
* `Node.Apart`, `Names.unchained`: of chained properties one belongs to two nodes;
* `properties_belong`: which anchors and tags of a text are the properties of its nodes;
* `properties_chained`: a text in which two nodes have an anchor in common.
-/

namespace YamlNavigator

open Yaml Grammar

/-! ### Chained properties -/

/-- No property stands at the front or behind units without text there. -/
def isClear : List Lexeme → Bool
  | [] => true
  | l :: ls => !l.isProperty && (!l.isEmpty || isClear ls)

/-- No property stands behind units without text at the front. -/
def isApart : List Lexeme → Bool
  | [] => true
  | l :: ls => !l.isEmpty || isClear ls

/-- No property follows another across units without text. -/
def isUnchained : List Lexeme → Bool
  | [] => true
  | p :: ls => (!p.isProperty || isApart ls) && isUnchained ls

variable {ls : List Lexeme}

/-- A unit without text may stand in front of units at whose front no property stands. -/
lemma clear_behind_iff {l : Lexeme} (h : isClear ls = true ↔
    ∀ es q back, ls = es ++ q :: back → (∀ e ∈ es, e.isEmpty = true) → q.isProperty = false) :
    (!l.isEmpty || isClear ls) = true ↔ ∀ es q back, ls = es ++ q :: back →
      (∀ e ∈ l :: es, e.isEmpty = true) → q.isProperty = false := by
  rw [Bool.or_eq_true, Bool.not_eq_true', h]
  constructor
  · intro h es q back heq hes
    have hempty := hes l List.mem_cons_self
    exact h.resolve_left (by simp [hempty]) es q back heq fun e he =>
      hes e (List.mem_cons_of_mem l he)
  · refine fun h => or_iff_not_imp_left.mpr fun hempty => ?_
    rw [Bool.not_eq_false] at hempty
    refine fun es q back heq hes => h es q back heq fun e he => ?_
    rcases List.mem_cons.mp he with rfl | he
    · exact hempty
    · exact hes e he

lemma isClear_iff : isClear ls = true ↔
    ∀ es q back, ls = es ++ q :: back → (∀ e ∈ es, e.isEmpty = true) → q.isProperty = false := by
  induction ls with
  | nil => simp [isClear]
  | cons l ls ih =>
      rw [isClear, Bool.and_eq_true, Bool.not_eq_true', clear_behind_iff ih]
      constructor
      · rintro ⟨hl, hls⟩ es q back heq hes
        cases es with
        | nil =>
            obtain ⟨rfl, -⟩ := List.cons.inj heq
            exact hl
        | cons e es =>
            obtain ⟨rfl, hback⟩ := List.cons.inj heq
            exact hls es q back hback hes
      · intro h
        exact ⟨h [] l ls rfl (by simp), fun es q back heq => h (l :: es) q back (by rw [heq]; rfl)⟩

lemma isApart_iff : isApart ls = true ↔ ∀ e es q back, ls = e :: es ++ q :: back →
    (∀ x ∈ e :: es, x.isEmpty = true) → q.isProperty = false := by
  cases ls with
  | nil => simp [isApart]
  | cons l ls =>
      rw [isApart, clear_behind_iff isClear_iff]
      constructor
      · rintro h e es q back heq
        obtain ⟨rfl, hback⟩ := List.cons.inj heq
        exact h es q back hback
      · exact fun h es q back heq => h l es q back (by rw [heq]; rfl)

/-- Whether properties are chained can be decided. -/
lemma isUnchained_iff : isUnchained ls = true ↔ Unchained ls := by
  induction ls with
  | nil => simp [isUnchained, Unchained]
  | cons p ls ih =>
      rw [isUnchained, Bool.and_eq_true, ih, Bool.or_eq_true, Bool.not_eq_true', isApart_iff]
      constructor
      · rintro ⟨hp, hls⟩ front p' es q back heq hp' hq hes
        cases front with
        | cons x front =>
            obtain ⟨rfl, hback⟩ := List.cons.inj heq
            exact hls front p' es q back hback hp' hq hes
        | nil =>
            obtain ⟨rfl, hback⟩ := List.cons.inj heq
            cases es with
            | nil => rfl
            | cons e es =>
                have hq' := hp.resolve_left (by simp [hp']) e es q back hback hes
                rw [hq] at hq'
                cases hq'
      · intro h
        refine ⟨or_iff_not_imp_left.mpr fun hp => ?_,
          fun front p' es q back heq => h (p :: front) p' es q back (by rw [heq]; rfl)⟩
        rw [Bool.not_eq_false] at hp
        intro e es q back heq hes
        rw [← Bool.not_eq_true]
        intro hq
        cases h [] p (e :: es) q back (by rw [heq]; rfl) hp hq hes

instance : DecidablePred Unchained := fun _ => decidable_of_iff _ isUnchained_iff

/-! ### Properties among tokens -/

/-- Is the kind that of an anchor or a tag? -/
def TokenKind.isProperty : TokenKind → Bool
  | anchor | tag => true
  | _ => false

/-- The tokens of properties are anchors and tags. -/
lemma isProperty_ofLexeme (l : Lexeme) : (TokenKind.ofLexeme l).isProperty = l.isProperty := by
  cases hl : l.content with
  | scalar text style =>
      cases style with
      | plain =>
          simp only [TokenKind.ofLexeme, Lexeme.isProperty, hl, TokenKind.ofPlain]
          cases PlainType.ofText text <;> rfl
      | _ => simp [TokenKind.ofLexeme, Lexeme.isProperty, hl, TokenKind.isProperty]
  | key =>
      simp only [TokenKind.ofLexeme, Lexeme.isProperty, hl]
      split <;> rfl
  | _ => simp [TokenKind.ofLexeme, Lexeme.isProperty, hl, TokenKind.isProperty]

/-- The tokens of some kinds are those of the units that have such tokens, if comments and white
space are not of these kinds. -/
lemma map_snd_filter_unitsOf {s : List Char} (h : Lexeme.Cover s ls) {p : TokenKind → Bool}
    {q : Lexeme → Bool} (hpq : ∀ l, p (.ofLexeme l) = q l) (hcomment : p .comment = false)
    (hother : p .other = false) : ((unitsOf s ls).filter (q ·.1)).map Prod.snd =
      (Stream.ofTiles (LineTable.ofText s) (tiles s ls)).tokens.toList.filter (p ·.kind) := by
  have key : ∀ (table : LineTable) (ts : List Tile) (n : Nat), (∀ t ∈ ts, t.Shows s) →
      ((unitsFrom table n ts).filter (q ·.1)).map Prod.snd =
        ((ts.zipIdx n).map fun p => p.1.token table p.2).filter (p ·.kind) := by
    intro table ts
    induction ts with
    | nil => exact fun _ _ => rfl
    | cons t ts ih =>
        intro n hts
        have hmore := ih (n + 1) fun x hx => hts x (List.mem_cons_of_mem t hx)
        have ht := hts t List.mem_cons_self
        rw [List.zipIdx_cons, List.map_cons]
        rw [Tile.Shows] at ht
        cases hl : t.lexeme with
        | none =>
            rw [hl] at ht
            have hkind : p t.kind = false := by
              rcases ht with ht | ht
              · rw [ht, hcomment]
              · rw [ht, hother]
            rw [List.filter_cons_of_neg (by simp [Tile.token, hkind]), ← hmore, unitsFrom,
              List.zipIdx_cons, List.filterMap_cons_none (by simp [hl]), unitsFrom]
        | some l =>
            rw [hl] at ht
            have hkind : p t.kind = q l := by rw [ht.1, hpq]
            rw [unitsFrom_cons hl]
            cases hq : q l with
            | false =>
                rw [List.filter_cons_of_neg (by simp [hq]),
                  List.filter_cons_of_neg (by simp [Tile.token, hkind, hq]), hmore]
            | true =>
                rw [List.filter_cons_of_pos (by simp [hq]),
                  List.filter_cons_of_pos (by simp [Tile.token, hkind, hq]), List.map_cons, hmore]
  exact key _ _ 0 fun t ht => shows_of_mem_tiles h ht

/-- The properties among the units of a text are the anchors and tags among its tokens. -/
lemma namedBy_unitsOf {s : List Char} (h : Lexeme.Cover s ls) : namedBy (unitsOf s ls) =
    (Stream.ofTiles (LineTable.ofText s) (tiles s ls)).tokens.toList.filter (·.kind.isProperty) :=
  map_snd_filter_unitsOf h isProperty_ofLexeme rfl rfl

/-- The tokens of an indexed stream have different indices. -/
lemma Stream.IsIndexed.pairwise {s : Stream} (h : s.IsIndexed) :
    s.tokens.toList.Pairwise fun t u => t.index ≠ u.index := by
  rw [List.pairwise_iff_getElem]
  intro i j hi hj hij heq
  rw [h i _ (by simp), h j _ (by simp)] at heq
  omega

/-! ### Properties that nodes have in common -/

/-- Two nodes have no property in common. -/
def Node.Apart (n m : Node) : Prop :=
  ∀ t ∈ n.info.properties, ∀ u ∈ m.info.properties, t.index ≠ u.index

instance : DecidableRel Node.Apart := fun n m =>
  inferInstanceAs (Decidable (∀ t ∈ n.info.properties, ∀ u ∈ m.info.properties, t.index ≠ u.index))

instance : Std.Symm Node.Apart where
  symm _ _ h t ht u hu := (h u hu t ht).symm

section Chained

variable {src : Source} {front es back : List (Lexeme × Token)} {p e q : Lexeme × Token}
variable {v : Node} {vs : List Node}

/-- A property that is written for a node is one of its properties, and stands behind its start. -/
lemma WrittenFor.mem (h : WrittenFor src p v) :
    p.2 ∈ v.info.properties ∧ v.start ≤ p.1.start.index := by
  obtain ⟨pre, ps, us, hp, hbears, -⟩ := h
  cases hbears with
  | none empty eq =>
      rw [empty] at hp
      cases hp
  | some ne units before behind isProperty clear eq =>
      rw [eq]
      exact ⟨List.mem_append_left _ (List.mem_map_of_mem hp),
        behind p (List.mem_append_left us hp)⟩

/-- A node has a property that is chained to one that is written for it. -/
lemma WrittenFor.mem_of_chained (hL : IsStream (src.units.map Prod.fst)) (hnum : Numbered src.units)
    (hunits : src.units = front ++ p :: (e :: es ++ q :: back))
    (hes : ∀ x ∈ e :: es, x.1.isEmpty = true) (hq : q.1.isProperty = true)
    (h : WrittenFor src p v) : q.2 ∈ v.info.properties := by
  obtain ⟨pre, ps, us, hp, hbears, -⟩ := h
  cases hbears with
  | none empty eq =>
      rw [empty] at hp
      cases hp
  | some ne units before behind isProperty clear eq =>
      obtain ⟨xs, ys, rfl⟩ := List.append_of_mem hp
      obtain ⟨-, -, hback⟩ := hnum.split_unique rfl hunits
        (show src.units = (pre ++ xs) ++ p :: (ys ++ us) by simp [units])
      -- the properties that are written for the node end in front of the units without text
      obtain rfl : ys = [] := by
        cases ys with
        | nil => rfl
        | cons y ys =>
            obtain ⟨rfl, -⟩ := List.cons.inj hback
            have htext := isEmpty_of_isProperty hL (u := e) (by simp [units])
              (isProperty e (by simp))
            rw [hes e List.mem_cons_self] at htext
            cases htext
      rw [List.nil_append] at hback
      have hempty : ∀ x ∈ e :: es, x.1.isEmpty = true ∧ x.1.content.isOwned = false := by
        intro x hx
        have hmem : x ∈ src.units := by
          rw [hunits]
          exact List.mem_append_right _ (List.mem_cons_of_mem _ (List.mem_append_left _ hx))
        have hsound := hL.isSound x.1 (List.mem_map_of_mem hmem)
        have hle : x.1.stop.index ≤ x.1.start.index := by simpa [Lexeme.isEmpty] using hes x hx
        refine ⟨hes x hx, Bool.eq_false_iff.mpr fun howned => ?_⟩
        have := hsound.start_lt howned
        omega
      rw [eq, ← hback, Source.leadingProperties_append_of_isEmpty hempty, Source.leadingProperties,
        if_pos hq]
      simp

/-- A property that is chained to another is written for a node that starts behind that one. -/
lemma WrittenFor.stop_le_of_chained (hL : IsStream (src.units.map Prod.fst))
    (hnum : Numbered src.units) (hunits : src.units = front ++ p :: (e :: es ++ q :: back))
    (hes : ∀ x ∈ e :: es, x.1.isEmpty = true) (h : WrittenFor src q v) :
    p.1.stop.index ≤ v.start := by
  obtain ⟨pre, ps, us, hq, hbears, -⟩ := h
  cases hbears with
  | none empty eq =>
      rw [empty] at hq
      cases hq
  | some ne units before behind isProperty clear eq =>
      obtain ⟨xs, ys, rfl⟩ := List.append_of_mem hq
      obtain ⟨hfront, -, -⟩ := hnum.split_unique rfl
        (show src.units = (front ++ p :: (e :: es)) ++ q :: back by simp [hunits])
        (show src.units = (pre ++ xs) ++ q :: (ys ++ us) by simp [units])
      rcases List.eq_nil_or_concat xs with rfl | ⟨xs, x, rfl⟩
      · exact before p (by rw [← List.append_nil pre, ← hfront]; simp)
      · -- the unit in front of the property has no text
        obtain ⟨zs, z, hzs⟩ := (List.eq_nil_or_concat (e :: es)).resolve_left (by simp)
        rw [hzs, List.concat_eq_append, List.concat_eq_append, ← List.cons_append,
          ← List.append_assoc, ← List.append_assoc] at hfront
        obtain rfl := List.singleton_inj.mp (List.append_inj_right' hfront rfl)
        have htext := isEmpty_of_isProperty hL (u := z) (by simp [units]) (isProperty z (by simp))
        rw [hes z (by rw [hzs]; simp)] at htext
        cases htext

/-- If no two nodes have a property in common, no properties are chained. -/
lemma Names.unchained (hL : IsStream (src.units.map Prod.fst)) (hnum : Numbered src.units)
    (h : Names src src.units vs) (hpair : (vs.flatMap Node.depthFirst).Pairwise Node.Apart) :
    Unchained (src.units.map Prod.fst) := by
  intro front p es q back hsplit hp hq hes
  obtain ⟨front, us, hunits, rfl, hus⟩ := List.map_eq_append_iff.mp hsplit
  obtain ⟨p, us', rfl, rfl, hus'⟩ := List.map_eq_cons_iff.mp hus
  obtain ⟨es, us'', rfl, rfl, hus''⟩ := List.map_eq_append_iff.mp hus'
  obtain ⟨q, back, rfl, rfl, rfl⟩ := List.map_eq_cons_iff.mp hus''
  cases es with
  | nil => rfl
  | cons e es =>
      have hempty : ∀ x ∈ e :: es, x.1.isEmpty = true := fun x hx =>
        hes x.1 (List.mem_map_of_mem hx)
      obtain ⟨v, hv, n, hn, hforp⟩ := h.each p (by simp [hunits]) hp
      obtain ⟨w, hw, m, hm, hforq⟩ := h.each q (by simp [hunits]) hq
      -- the node of the one property starts in front of that of the other, and both have the other
      have hne : n ≠ m := by
        rintro rfl
        have hstart := hforp.mem.2
        have hstop := hforq.stop_le_of_chained hL hnum hunits hempty
        have htext := isEmpty_of_isProperty hL (u := p) (by simp [hunits]) hp
        simp only [Lexeme.isEmpty, decide_eq_false_iff_not] at htext
        omega
      have hapart : n.Apart m := hpair.forall (List.mem_flatMap.mpr ⟨v, hv, hn⟩)
        (List.mem_flatMap.mpr ⟨w, hw, hm⟩) hne
      exact absurd rfl
        (hapart q.2 (hforp.mem_of_chained hL hnum hunits hempty hq) q.2 hforq.mem.1)

end Chained

/-! ### Texts that are accepted -/

/-- **Properties belong to the nodes that they are written for.** In a text that is accepted, the
properties of a node are anchors and tags that are written from its start on, and every anchor and
tag of the text is a property of a node in whose span it is written. No two nodes have a property in
common if and only if no properties are chained; then the properties of all nodes in depth-first
order are the anchors and tags of the text in their order, and all are written in the spans of their
nodes. -/
theorem properties_belong {source : String} {d : Parsed} (h : parse source = .ok d) :
    ∃ ls, Lexeme.scan source.toList = .ok ls ∧
      (∀ n ∈ d.documents.depthFirst, ∀ t ∈ n.info.properties, t.kind.isProperty = true ∧
        ∃ l, (l, t) ∈ unitsOf source.toList ls ∧ n.start ≤ l.start.index ∧
          (Unchained ls → l.stop.index ≤ n.stop)) ∧
      (∀ t ∈ d.tokens.tokens, t.kind.isProperty = true → ∃ n ∈ d.documents.depthFirst,
        t ∈ n.info.properties ∧ ∃ l, (l, t) ∈ unitsOf source.toList ls ∧
          n.start ≤ l.start.index ∧ l.stop.index ≤ n.stop) ∧
      (d.documents.depthFirst.Pairwise Node.Apart ↔ Unchained ls) ∧
      (Unchained ls →
        d.documents.allProperties = d.tokens.tokens.toList.filter (·.kind.isProperty)) := by
  obtain ⟨ls, ds, hls, htokens, htree, hbodies, hnames⟩ := exists_settled_of_parse h
  have hcover := cover_of_scan hls
  have hnamed : namedBy (unitsOf source.toList ls) =
      d.tokens.tokens.toList.filter (·.kind.isProperty) := by rw [namedBy_unitsOf hcover, htokens]
  have hL : IsStream ((unitsOf source.toList ls).map Prod.fst) := by
    rw [map_fst_unitsOf]
    exact isStream_of_cover hcover
  have hfst := map_fst_unitsOf source.toList ls
  have hroot : d.documents.depthFirst = .documentSetOf ds :: ds.flatMap Node.depthFirst := by
    rw [htree, Node.depthFirst_eq]
    rfl
  have hall : Unchained ls →
      d.documents.allProperties = d.tokens.tokens.toList.filter (·.kind.isProperty) := by
    intro hchain
    rw [htree, Node.allProperties_eq, ← hnamed, ← hnames.all (by rwa [hfst])]
    rfl
  refine ⟨ls, hls, fun n hn t ht => ?_, fun t ht hkind => ?_, ⟨fun hpair => ?_, fun hchain => ?_⟩,
    hall⟩
  · -- neither the set of the documents nor a document has properties
    rw [hroot] at hn
    rcases List.mem_cons.mp hn with rfl | hn
    · cases ht
    obtain ⟨c, hc, hn⟩ := List.mem_flatMap.mp hn
    obtain ⟨body, hbody⟩ := hbodies c hc
    rcases hbody.mem_depthFirst hn with rfl | hn
    · obtain ⟨info, rfl, -, hinfo⟩ := hbody.eq
      rw [Node.info, hinfo] at ht
      cases ht
    · obtain ⟨l, hl, hprop, hstart, hstop⟩ := (hbody.settled n hn).within t ht
      have hmem : t ∈ namedBy (unitsOf source.toList ls) :=
        List.mem_map.mpr ⟨(l, t), List.mem_filter.mpr ⟨hl, hprop⟩, rfl⟩
      rw [hnamed] at hmem
      exact ⟨(List.mem_filter.mp hmem).2, l, hl, hstart, fun hchain => hstop (by rwa [hfst])⟩
  · have hmem : t ∈ d.tokens.tokens.toList.filter (·.kind.isProperty) :=
      List.mem_filter.mpr ⟨Array.mem_def.mp ht, hkind⟩
    rw [← hnamed] at hmem
    obtain ⟨⟨l, t⟩, hu, rfl⟩ := List.mem_map.mp hmem
    obtain ⟨hl, hprop⟩ := List.mem_filter.mp hu
    obtain ⟨c, hc, n, hn, hfor⟩ := hnames.each (l, t) hl hprop
    obtain ⟨hown, hstart⟩ := hfor.mem
    obtain ⟨-, -, -, -, -, hstop⟩ := hfor
    refine ⟨n, ?_, hown, l, hl, hstart, hstop⟩
    rw [hroot]
    exact List.mem_cons_of_mem _ (List.mem_flatMap.mpr ⟨c, hc, hn⟩)
  · rw [hroot] at hpair
    have hchain := hnames.unchained hL (numbered_unitsOf _ _) (List.pairwise_cons.mp hpair).2
    rwa [hfst] at hchain
  · -- the indices of all properties are different
    have hpair : d.documents.allProperties.Pairwise fun t u => t.index ≠ u.index := by
      rw [hall hchain]
      exact d.isIndexed.pairwise.filter _
    exact (List.pairwise_flatMap.mp hpair).2

/-- The anchor of a value, the tag of a key and the anchor of an item belong to three nodes. -/
theorem properties_belong_threeNodes :
    ∃ d, parse "a: &x 1\n!t b: [&y c, *x]\n" = .ok d ∧
      ∃ ls, Lexeme.scan "a: &x 1\n!t b: [&y c, *x]\n".toList = .ok ls ∧ Unchained ls ∧
        d.documents.allProperties.length = 3 ∧ d.documents.depthFirst.Pairwise Node.Apart := by
  let s := "a: &x 1\n!t b: [&y c, *x]\n"
  obtain ⟨d, hd, hcheck⟩ := Except.exists_ok_of_any (x := parse s) (p := fun d =>
    isUnchained ((Lexeme.scan s.toList).toOption.getD []) &&
      d.documents.allProperties.length == 3) (by decide +kernel)
  obtain ⟨ls, hls, -, -, hdisjoint, -⟩ := properties_belong hd
  rw [hls, Bool.and_eq_true, beq_iff_eq] at hcheck
  have hchain : Unchained ls := isUnchained_iff.mp hcheck.1
  exact ⟨d, hd, ls, hls, hchain, hcheck.2, hdisjoint.mpr hchain⟩

/-- The anchor of a key is a property of the empty value in front of it as well if no text stands
between the anchors of the two. A query for that value highlights the anchor, which is written
behind the value. -/
theorem properties_chained :
    ∃ d, parse "a: &x\n&y b: 1\n" = .ok d ∧
      ∃ ls, Lexeme.scan "a: &x\n&y b: 1\n".toList = .ok ls ∧ ¬ Unchained ls ∧
        ¬ d.documents.depthFirst.Pairwise Node.Apart ∧
        ∃ f ∈ (d.documents.query "a").nodes, ∃ u ∈ unitsOf "a: &x\n&y b: 1\n".toList ls,
          u.1.isProperty = true ∧ f.node.stop ≤ u.1.start.index ∧
            (d.documents.query "a").highlights u.2 = true := by
  let s := "a: &x\n&y b: 1\n"
  have hpass : (Lexeme.scan s.toList).toOption.any (fun ls => (parse s).toOption.any fun d =>
      !isUnchained ls &&
        (!decide (d.documents.depthFirst.Pairwise Node.Apart) &&
          (d.documents.query "a").nodes.any fun f => (unitsOf s.toList ls).any fun u =>
            u.1.isProperty && (decide (f.node.stop ≤ u.1.start.index) &&
              (d.documents.query "a").highlights u.2))) = true := by
    decide +kernel
  obtain ⟨ls, hls, hpass⟩ := Except.exists_ok_of_any hpass
  obtain ⟨d, hd, hcheck⟩ := Except.exists_ok_of_any hpass
  simp only [Bool.and_eq_true, Bool.not_eq_true', decide_eq_false_iff_not, List.any_eq_true,
    decide_eq_true_eq] at hcheck
  obtain ⟨hchain, hpair, f, hf, u, hu, hcheck⟩ := hcheck
  refine ⟨d, hd, ls, hls, fun h => ?_, hpair, f, hf, u, hu, hcheck⟩
  rw [isUnchained_iff.mpr h] at hchain
  cases hchain

end YamlNavigator
