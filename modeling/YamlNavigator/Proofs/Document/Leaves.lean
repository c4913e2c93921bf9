import YamlNavigator.Proofs.Document.Growth
import YamlNavigator.Proofs.Document.Properties

/-!
The scalars and aliases of a text, and the nodes that were read from them.

* `isLeafUnit`, `TokenKind.isLeaf`: the units of scalars and aliases, and the kinds of their tokens;
* `Ends`, `ends_tiles`, `Stream.endOf_eq`: the token of a unit with text ends where the unit stops;
* `Node.isWritten`: whether a scalar or an alias is written in the span of a node;
* `LastText`: the unit with text behind which none has text;
* `DefinedBy.token_of_spells`, `Unwritten.exists_lastText`: such a node shows what is written, any
  other scalar the last text in front of it;
* `Grown.leaves`: the nodes of a forest that are written show the scalars and aliases among its
  units;
* `leaves_correspond`: scalars and aliases correspond to nodes.
-/

namespace YamlNavigator

open Yaml Grammar

/-! ### Units and tokens of leaves -/

/-- The units of scalars and aliases. -/
def isLeafUnit (c : Content) : Bool := isScalarUnit c || isReferenceUnit c

/-- Is the kind that of a scalar or an alias? -/
def TokenKind.isLeaf (k : TokenKind) : Bool := k.isContent && !k.isProperty

/-- The tokens of scalars and aliases have their kinds. -/
lemma isLeaf_ofLexeme (l : Lexeme) : (TokenKind.ofLexeme l).isLeaf = isLeafUnit l.content := by
  rw [TokenKind.isLeaf, isContent_ofLexeme, isProperty_ofLexeme, Lexeme.isProperty]
  cases l.content <;> rfl

/-- Scalars and aliases belong to nodes. -/
lemma isOwned_of_isLeafUnit {c : Content} (h : isLeafUnit c = true) : c.isOwned = true := by
  revert h
  cases c <;> simp [isLeafUnit, isScalarUnit, isReferenceUnit, Content.isOwned]

/-- Properties are no leaves. -/
lemma isLeafUnit_of_isProperty {l : Lexeme} (h : l.isProperty = true) :
    isLeafUnit l.content = false := by
  revert h
  rw [Lexeme.isProperty]
  cases l.content <;> simp [isLeafUnit, isScalarUnit, isReferenceUnit]

/-! ### Where tokens end -/

/-- The tiles of units with text end where their units stop, if the first one begins at an offset.
-/
def Ends : Nat → List Tile → Prop
  | _, [] => True
  | offset, t :: ts =>
      (∀ l, t.lexeme = some l → l.isEmpty = false → offset + t.origin.length = l.stop.index) ∧
        Ends (offset + t.origin.length) ts

section Ends

variable {offset : Nat} {ts ts' : List Tile}

lemma ends_append :
    Ends offset (ts ++ ts') ↔ Ends offset ts ∧ Ends (offset + (ts.flatMap (·.origin)).length) ts' := by
  induction ts generalizing offset with
  | nil => simp [Ends]
  | cons t ts ih =>
      rw [List.cons_append, Ends, ih, Ends, List.flatMap_cons, List.length_append, Nat.add_assoc,
        and_assoc]

/-- Tiles that come from no unit may end anywhere. -/
lemma ends_of_lexemes_eq_nil (h : ts.filterMap (·.lexeme) = []) : Ends offset ts := by
  induction ts generalizing offset with
  | nil => trivial
  | cons t ts ih =>
      rw [List.filterMap_eq_nil_iff] at h
      refine ⟨fun l hl => ?_, ih ?_⟩
      · rw [h t List.mem_cons_self] at hl
        cases hl
      · exact List.filterMap_eq_nil_iff.mpr fun x hx => h x (List.mem_cons_of_mem t hx)

/-- The tiles of units that lie in order behind the offset end with them; the last unit ends the
stream. -/
lemma ends_tilesFrom {last : Lexeme} (hlast : last.content = .streamEnd)
    (hempty : last.isEmpty = true) :
    ∀ (front : List Lexeme) (offset : Nat) (rest : List Char), InOrder front →
      (∀ l ∈ front, l.content ≠ .streamEnd ∧ l.stop.index ≤ offset + rest.length) →
      (∀ l ∈ front, l.isEmpty = false → offset ≤ l.start.index) →
      Ends offset (tilesFrom offset rest (front ++ [last]))
  | [], offset, rest, _, _, _ => by
      rw [List.nil_append, tilesFrom]
      dsimp only
      rw [if_pos hlast]
      refine ends_append.mpr ⟨ends_of_lexemes_eq_nil ?_, fun l hl htext => ?_, trivial⟩
      · rw [List.filterMap_append, lexemes_commentTiles, lexemes_tailTiles, List.append_nil]
      · cases hl
        rw [hempty] at htext
        cases htext
  | l :: front, offset, rest, hord, hin, hlow => by
      obtain ⟨hl, hfront⟩ := List.pairwise_cons.mp hord
      have hin' : ∀ k ∈ front, k.content ≠ .streamEnd ∧ k.stop.index ≤ offset + rest.length :=
        fun k hk => hin k (List.mem_cons_of_mem l hk)
      rw [List.cons_append, tilesFrom]
      dsimp only
      rw [if_neg (hin l List.mem_cons_self).1]
      split
      · next htext =>
          refine ⟨fun k hk hne => ?_, ?_⟩
          · cases hk
            rw [htext] at hne
            cases hne
          · exact ends_tilesFrom hlast hempty front offset rest hfront hin' fun k hk =>
              hlow k (List.mem_cons_of_mem l hk)
      · next htext =>
          have htext' : l.isEmpty = false := by simpa using htext
          have hlt : l.start.index < l.stop.index := by simpa [Lexeme.isEmpty] using htext'
          have hle := hlow l List.mem_cons_self htext'
          have hstop := (hin l List.mem_cons_self).2
          have hmore := ends_tilesFrom hlast hempty front l.stop.index
            (rest.drop (l.stop.index - offset)) hfront
            (fun k hk => ⟨(hin' k hk).1, by
              have := (hin' k hk).2
              rw [List.length_drop]
              omega⟩) (fun k hk _ => hl k hk)
          -- the comment, the blank text behind it and the text of the unit reach up to its stop
          have hgap := congrArg List.length
            (splitComment_append (rest.take (l.start.index - offset)))
          have hend : offset + (splitComment (rest.take (l.start.index - offset))).1.length +
              ((splitComment (rest.take (l.start.index - offset))).2 ++
                (rest.drop (l.start.index - offset)).take (l.stop.index - l.start.index)).length =
              l.stop.index := by
            simp only [List.length_append, List.length_take, List.length_drop] at hgap ⊢
            omega
          refine ends_append.mpr ⟨ends_of_lexemes_eq_nil (lexemes_commentTiles _ _), ?_⟩
          rw [text_commentTiles]
          refine ⟨fun k hk _ => ?_, by rwa [hend]⟩
          cases hk
          exact hend

/-- The tiles of a text end with the units that they were made from. -/
lemma ends_tiles {s : List Char} {ls : List Lexeme} (h : Lexeme.Cover s ls) : Ends 0 (tiles s ls) := by
  have hmark := h.markWidth_le
  have hstop := h.stop_le
  obtain ⟨front, last, rfl, hlast, -, hfront⟩ := h.streamEnd
  have hord : InOrder front := (List.pairwise_append.mp h.inOrder).1
  have hmem : ∀ {l}, l ∈ front → l ∈ front ++ [last] := fun hl => List.mem_append_left _ hl
  have hempty : last.isEmpty = true := h.isEmpty_streamEnd (by simp) hlast
  unfold tiles
  split
  · next rest =>
      refine ⟨fun _ hl => absurd hl (by simp), ends_tilesFrom hlast hempty front 1 rest hord ?_ ?_⟩
      · intro l hl
        have := hstop l (hmem hl)
        rw [List.length_cons] at this
        exact ⟨hfront l hl, by omega⟩
      · exact fun l hl hne => hmark l (hmem hl) hne
  · refine ends_tilesFrom hlast hempty front 0 s hord (fun l hl => ⟨hfront l hl, ?_⟩)
      fun _ _ _ => Nat.zero_le _
    have := hstop l (hmem hl)
    omega

/-- What is held by the tiles up to that of a unit with text ends where the unit stops. -/
lemma Ends.length_eq {l : Lexeme} (htext : l.isEmpty = false) :
    ∀ {ts : List Tile} {offset i : Nat} {t : Tile}, Ends offset ts → ts[i]? = some t →
      t.lexeme = some l → offset + ((ts.take (i + 1)).flatMap (·.origin)).length = l.stop.index
  | t :: ts, offset, 0, _, h, ht, hl => by
      cases ht
      simpa using h.1 l hl htext
  | t :: ts, offset, i + 1, t', h, ht, hl => by
      rw [List.take_succ_cons, List.flatMap_cons, List.length_append, ← Nat.add_assoc]
      exact h.2.length_eq htext ht hl

end Ends

/-- The offset where a token of a stream ends: the tokens up to it hold the text in front of that.
-/
def Stream.endOf (s : Stream) (t : Token) : Nat :=
  ((s.tokens.toList.take (t.index.toNat + 1)).flatMap (·.origin.toList)).length

/-- The token of a unit with text ends where the unit stops. -/
lemma Stream.endOf_eq {s : List Char} {ls : List Lexeme} {u : Lexeme × Token}
    (h : Lexeme.Cover s ls) (hu : u ∈ unitsOf s ls) (htext : u.1.isEmpty = false) :
    (Stream.ofTiles (LineTable.ofText s) (tiles s ls)).endOf u.2 = u.1.stop.index := by
  obtain ⟨i, t, ht, hl, htoken⟩ := exists_tile_of_mem_unitsOf hu
  have hindex : u.2.index.toNat = i := by rw [htoken]; rfl
  have horigin : ∀ (ts : List Tile) (n : Nat),
      ((ts.zipIdx n).map fun p => p.1.token (LineTable.ofText s) p.2).map (·.origin.toList) =
        ts.map (·.origin) := by
    intro ts
    induction ts with
    | nil => exact fun _ => rfl
    | cons t ts ih => intro n; simp [Tile.token, ← ih (n + 1)]
  rw [← (ends_tiles h).length_eq htext ht hl, endOf, hindex, ofTiles, tokensOfTiles,
    List.flatMap_def, List.flatMap_def, List.map_take, List.map_take, horigin, Nat.zero_add]

/-! ### The last text -/

/-- The unit has text, and none of the units behind it has. -/
def LastText (us : List (Lexeme × Token)) (u : Lexeme × Token) : Prop :=
  u.1.isEmpty = false ∧ ∃ front zs, us = front ++ u :: zs ∧ ∀ z ∈ zs, z.1.isEmpty = true

namespace LastText

variable {us pre : List (Lexeme × Token)} {u w : Lexeme × Token}

lemma mem (h : LastText us u) : u ∈ us := by
  obtain ⟨-, front, zs, rfl, -⟩ := h
  simp

/-- The last unit with text among units and others behind them is one of those, or the last one of
the units. -/
lemma of_append (h : LastText (pre ++ us) u) : u ∈ us ∨ LastText pre u := by
  obtain ⟨htext, front, zs, hsplit, hzs⟩ := h
  rcases List.append_eq_append_iff.mp hsplit with ⟨as, -, rfl⟩ | ⟨as, rfl, hback⟩
  · exact .inl (by simp)
  · cases as with
    | nil => exact .inl (by rw [← List.nil_append us, ← hback]; simp)
    | cons a as =>
        obtain ⟨rfl, rfl⟩ := List.cons.inj hback
        exact .inr ⟨htext, front, as, rfl, fun z hz => hzs z (List.mem_append_left _ hz)⟩

/-- Only one unit is the last one with text. -/
lemma unique (h : LastText us u) (h' : LastText us w) : u = w := by
  obtain ⟨htext, front, zs, rfl, hzs⟩ := h
  obtain ⟨htext', front', zs', hsplit, hzs'⟩ := h'
  -- of two, the one behind would stand among the units without text behind the other
  rcases List.append_eq_append_iff.mp hsplit with ⟨as, -, hback⟩ | ⟨as, -, hback⟩
  · cases as with
    | nil => exact (List.cons.inj hback).1
    | cons a as =>
        have hempty := hzs w (by rw [(List.cons.inj hback).2]; simp)
        rw [htext'] at hempty
        cases hempty
  · cases as with
    | nil => exact (List.cons.inj hback).1.symm
    | cons a as =>
        have hempty := hzs' u (by rw [(List.cons.inj hback).2]; simp)
        rw [htext] at hempty
        cases hempty

end LastText

/-! ### Nodes that are written -/

/-- Is the node read from a scalar or an alias of the text, one that is written in its span? -/
def Node.isWritten (us : List (Lexeme × Token)) (n : Node) : Bool :=
  (n.kind = .scalar || n.kind = .reference) && us.any fun u => isLeafUnit u.1.content &&
    (decide (n.start ≤ u.1.start.index) && decide (u.1.stop.index ≤ n.stop))

section Written

variable {src : Source} {pre ps us back mid : List (Lexeme × Token)} {u : Lexeme × Token} {v : Node}
variable {vs : List Node}

/-- Only scalars and aliases are read from scalars and aliases. -/
lemma Node.kind_of_isWritten (h : v.isWritten us = true) : v.kind = .scalar ∨ v.kind = .reference := by
  simp only [isWritten, Bool.and_eq_true, Bool.or_eq_true, decide_eq_true_eq] at h
  exact h.1

/-- A node that a unit spells is a scalar or an alias, and the unit is one of its kind. -/
lemma Spells.kind (h : Spells u v) : (v.kind = .scalar ∨ v.kind = .reference) ∧
    v.children = [] ∧ isLeafUnit u.1.content = true := by
  obtain ⟨-, ⟨info, text, style, rfl, hu⟩ | ⟨info, name, rfl, hu⟩⟩ := h
  · exact ⟨.inl rfl, rfl, by rw [hu]; rfl⟩
  · exact ⟨.inr rfl, rfl, by rw [hu]; rfl⟩

/-- A node is read from the unit that spells it. -/
lemma DefinedBy.isWritten (hL : IsStream (src.units.map Prod.fst)) (h : DefinedBy src pre ps u back v)
    (hspells : Spells u v) : v.isWritten src.units = true := by
  obtain ⟨hkind, -, hleaf⟩ := hspells.kind
  simp only [Node.isWritten, Bool.and_eq_true, Bool.or_eq_true, decide_eq_true_eq, List.any_eq_true]
  exact ⟨hkind, u, h.mem, hleaf, h.start_le hL, Nat.le_of_eq hspells.1.symm⟩

/-- A node shows the unit that spells it. -/
lemma DefinedBy.token_of_spells (hL : IsStream (src.units.map Prod.fst))
    (h : DefinedBy src pre ps u back v) (hspells : Spells u v) : v.token = some u.2 := by
  rcases h.token_or hL with ⟨htoken, -⟩ | ⟨-, z, zs, -, -, hz, hempty⟩
  · exact htoken
  · -- no unit without text is a scalar or an alias
    have hstructure := (hempty z List.mem_cons_self).2
    obtain ⟨hkind, -, -⟩ := hspells.kind
    rw [isOwned_of_isLeafUnit] at hstructure
    · cases hstructure
    · rcases hkind with hkind | hkind <;> rw [hkind] at hz <;>
        simp only [NodeKind.accepts] at hz <;> simp [isLeafUnit, hz]

/-- A scalar of which only properties are written is read from no scalar. -/
lemma Unwritten.isWritten (hL : IsStream (src.units.map Prod.fst)) (h : Unwritten src pre ps back v) :
    v.isWritten src.units = false := by
  rw [← Bool.not_eq_true]
  intro hwritten
  simp only [Node.isWritten, Bool.and_eq_true, List.any_eq_true, decide_eq_true_eq] at hwritten
  obtain ⟨-, u, hu, hleaf, hstart, hstop⟩ := hwritten
  have hlt := (hL.isSound u.1 (List.mem_map_of_mem hu)).start_lt (isOwned_of_isLeafUnit hleaf)
  rw [h.units, List.mem_append, List.mem_append] at hu
  rcases hu with hu | hu | hu
  · have := h.before u hu
    omega
  · rw [isLeafUnit_of_isProperty (h.isProperty u hu)] at hleaf
    cases hleaf
  · have := h.stop_le u hu
    omega

/-- A scalar of which only properties are written shows the last unit with text in front of it. -/
lemma Unwritten.exists_lastText (hL : IsStream (src.units.map Prod.fst))
    (h : Unwritten src pre ps back v) {t : Token} (ht : v.token = some t) :
    ∃ l, LastText pre (l, t) := by
  have hbehind : ∀ w ∈ ps ++ back, v.start ≤ w.1.start.index := h.behind
  obtain ⟨front, zs, hpre, htake, hdrop, hzs⟩ := Source.exists_takeWhile hL h.units h.before hbehind
  rw [h.token, Source.definingToken?, htake, hdrop] at ht
  split at ht
  · next x hx =>
      -- no scalar stands between the start of the node and its stop
      obtain ⟨xs, w, ys, hsplit, -, hscalar, hstop, -⟩ := Source.exists_of_firstAccepted?_eq_some hx
      have hw : w ∈ zs ++ (ps ++ back) := by simp [hsplit]
      have hmem : w ∈ src.units := by
        rw [h.units, hpre, List.append_assoc]
        exact List.mem_append_right front hw
      have hlt := Stands.lt_stop_of_isScalarUnit hL hmem hscalar
      rcases List.mem_append.mp hw with hw | hw
      · have hempty := (hzs w hw).1
        simp only [Lexeme.isEmpty, decide_eq_true_eq] at hempty
        omega
      · rcases List.mem_append.mp hw with hw | hw
        · have hleaf := isLeafUnit_of_isProperty (h.isProperty w hw)
          simp [isLeafUnit, hscalar] at hleaf
        · have := h.stop_le w hw
          omega
  · obtain ⟨w, hw, rfl⟩ := Option.map_eq_some_iff.mp ht
    obtain ⟨htext, xs, ys, hfront, hxs⟩ := List.find?_eq_some_iff_append.mp hw
    rw [List.reverse_eq_append_iff, List.reverse_cons, List.append_assoc] at hfront
    simp only [Bool.and_eq_true, Bool.not_eq_true'] at htext
    refine ⟨w.1, htext.1, ys.reverse, xs.reverse ++ zs, by rw [hpre, hfront]; simp, fun z hz => ?_⟩
    rcases List.mem_append.mp hz with hz | hz
    · -- what is passed over stops in front of the node
      have hstop := h.before z (by rw [hpre, hfront]; simp [List.mem_reverse.mp hz])
      have hle := Nat.le_trans hstop h.start_le
      simpa [hle] using hxs z (List.mem_reverse.mp hz)
    · exact (hzs z hz).1

/-- **Leaves grow from scalars and aliases.** The nodes of a forest that are read from scalars and
aliases show, in their order, the scalars and aliases among the units of the forest, by induction on
the forest. -/
theorem Grown.leaves (hL : IsStream (src.units.map Prod.fst)) (h : Grown src pre mid vs) :
    ((vs.flatMap Node.depthFirst).filter (·.isWritten src.units)).map Node.token =
      (mid.filter (isLeafUnit ·.1.content)).map (some ·.2) := by
  have hskipped : ∀ {v : Node}, ¬(v.kind = .scalar ∨ v.kind = .reference) →
      [v].filter (·.isWritten src.units) = [] := fun hv =>
    List.filter_cons_of_neg fun hwritten => hv (Node.kind_of_isWritten hwritten)
  have hprops : ∀ {ps : List (Lexeme × Token)}, (∀ p ∈ ps, p.1.isProperty = true) →
      ps.filter (isLeafUnit ·.1.content) = [] := fun hps =>
    List.filter_eq_nil_iff.mpr fun p hp => by simp [isLeafUnit_of_isProperty (hps p hp)]
  induction h with
  | nil => rfl
  | @skip _ _ u _ hu _ ih =>
      have hleaf : isLeafUnit u.1.content = false := by
        rw [← Bool.not_eq_true]
        intro hleaf
        rw [isOwned_of_isLeafUnit hleaf] at hu
        cases hu
      rw [List.filter_cons_of_neg (by simp [hleaf]), ih]
  | @unwritten _ _ _ _ v _ h _ ih =>
      have hv : [v].filter (·.isWritten src.units) = [] :=
        List.filter_cons_of_neg (by simp [h.isWritten hL])
      obtain ⟨info, rfl⟩ := h.eq
      rw [Node.filter_flatMap_cons, hv, List.filter_append, hprops h.isProperty, List.nil_append,
        List.nil_append, ← ih]
      rfl
  | @defined _ _ _ mid mid' u v vs h _ _ ih ih' =>
      have hunits : (mid ++ mid').filter (isLeafUnit ·.1.content) =
          mid.filter (isLeafUnit ·.1.content) ++ mid'.filter (isLeafUnit ·.1.content) :=
        List.filter_append ..
      rw [Node.filter_flatMap_cons, List.append_assoc, List.filter_append,
        hprops h.bears.isProperty, List.nil_append, List.cons_append]
      rcases h.shape with hspells | hshape
      · obtain ⟨-, -, hleaf⟩ := hspells.kind
        rw [List.filter_cons_of_pos (h.isWritten hL hspells), List.filter_nil,
          List.filter_cons_of_pos (by simp [hleaf]), List.singleton_append, List.map_cons,
          List.map_cons, hunits, List.map_append, List.map_append, ih, ih', h.token_of_spells hL hspells]
      · have hleaf : isLeafUnit u.1.content = false := by
          have hu := h.accepted
          revert hu
          rcases hshape with hkind | hkind <;> rw [hkind] <;> cases u.1.content <;>
            simp [NodeKind.accepts, isMappingUnit, isSequenceUnit, isLeafUnit, isScalarUnit,
              isReferenceUnit]
        rw [hskipped (by rcases hshape with hkind | hkind <;> simp [hkind]), List.nil_append,
          List.filter_cons_of_neg (by simp [hleaf]), hunits, List.map_append, List.map_append, ih, ih']
  | @pair _ _ mid mid' key v vs h _ _ ih ih' =>
      have hleaf : isLeafUnit key.1.content = false := by rw [h.content]; rfl
      rw [Node.filter_flatMap_cons, hskipped (by simp [h.kind]), List.nil_append, List.cons_append,
        List.filter_cons_of_neg (by simp [hleaf]), List.filter_append, List.map_append,
        List.map_append, ih, ih']
  | entry h _ _ ih ih' =>
      obtain ⟨info, rfl, -⟩ := h
      rw [Node.filter_flatMap_cons, hskipped (by simp [Node.kind]), List.nil_append,
        List.filter_append, List.map_append, List.map_append, ih', ← ih]
      rfl

end Written

/-! ### Texts that are accepted -/

/-- **Leaves and content correspond.** In a text that is accepted, the nodes that are read from
scalars and aliases show all scalars and aliases among the tokens, one for one and in their order.
The token of such a node ends where the node stops, and the node holds the text of its scalar or the
name of its alias. All aliases are read so; a scalar that is not has no text, and shows no token but
one of a unit that stops in front of it. -/
theorem leaves_correspond {source : String} {d : Parsed} (h : parse source = .ok d) :
    ∃ ls, Lexeme.scan source.toList = .ok ls ∧
      (d.documents.depthFirst.filter (·.isWritten (unitsOf source.toList ls))).map Node.token =
        (d.tokens.tokens.toList.filter (·.kind.isLeaf)).map some ∧
      (∀ n ∈ d.documents.depthFirst, n.isWritten (unitsOf source.toList ls) = true →
        ∃ u ∈ unitsOf source.toList ls, n.token = some u.2 ∧ Spells u n ∧
          n.start ≤ u.1.start.index ∧ d.tokens.endOf u.2 = n.stop) ∧
      ∀ n ∈ d.documents.depthFirst, n.kind = .scalar ∨ n.kind = .reference →
        n.isWritten (unitsOf source.toList ls) = false →
          (∃ info, n = .scalar info (some "")) ∧ ∀ t, n.token = some t →
            ∃ l, (l, t) ∈ unitsOf source.toList ls ∧ l.isEmpty = false ∧
              l.stop.index ≤ n.start := by
  obtain ⟨ls, ds, hls, htokens, htree, hdocuments, hgrown⟩ := exists_grown_of_parse h
  have hcover := cover_of_scan hls
  have hL := isStream_unitsOf hls
  have hrooted := hgrown.rooted [] (by simp)
  -- scalars and aliases are found in the bodies
  have hbody : ∀ n ∈ d.documents.depthFirst, n.kind = .scalar ∨ n.kind = .reference →
      n ∈ (ds.flatMap Node.children).flatMap Node.depthFirst := by
    intro n hn hkind
    rw [htree] at hn
    refine mem_bodies hn ?_ ?_ hdocuments <;> rcases hkind with hkind | hkind <;> simp [hkind]
  refine ⟨ls, hls, ?_, fun n hn hwritten => ?_, fun n hn hkind hwritten => ?_⟩
  · rw [htree, filter_depthFirst_documentSetOf (fun m hm => ?_) hdocuments, hgrown.leaves hL, htokens,
      ← map_snd_filter_unitsOf (q := (isLeafUnit ·.content)) hcover isLeaf_ofLexeme rfl rfl,
      List.map_map]
    · rfl
    · rcases Node.kind_of_isWritten hm with hm | hm <;> simp [hm]
  · have hkind := Node.kind_of_isWritten hwritten
    cases hrooted n (hbody n hn hkind) with
    | unwritten h =>
        rw [h.isWritten hL] at hwritten
        cases hwritten
    | pair h => simp [h.kind] at hkind
    | entry _ h =>
        obtain ⟨info, rfl, -⟩ := h
        simp [Node.kind] at hkind
    | @defined pre ps _ back u h =>
        have hspells := h.shape.resolve_right (by rcases hkind with hkind | hkind <;> simp [hkind])
        have hlt := (hL.isSound u.1 (List.mem_map_of_mem h.mem)).start_lt
          (isOwned_of_isLeafUnit hspells.kind.2.2)
        refine ⟨u, h.mem, h.token_of_spells hL hspells, hspells, h.start_le hL, ?_⟩
        rw [htokens, hspells.1]
        exact Stream.endOf_eq hcover h.mem (by simpa [Lexeme.isEmpty] using hlt)
  · cases hrooted n (hbody n hn hkind) with
    | pair h => simp [h.kind] at hkind
    | entry _ h =>
        obtain ⟨info, rfl, -⟩ := h
        simp [Node.kind] at hkind
    | defined h =>
        have hspells := h.shape.resolve_right (by rcases hkind with hkind | hkind <;> simp [hkind])
        rw [h.isWritten hL hspells] at hwritten
        cases hwritten
    | @unwritten pre ps back h =>
        refine ⟨h.eq, fun t ht => ?_⟩
        obtain ⟨l, hlast⟩ := h.exists_lastText hL ht
        refine ⟨l, ?_, hlast.1, h.before _ hlast.mem⟩
        have hmem : (l, t) ∈ pre ++ (ps ++ back) := List.mem_append_left _ hlast.mem
        rwa [← h.units] at hmem

/-- An anchored key, two aliases, a quoted item, and three values without text. -/
theorem leaves_correspond_anchoredKey :
    ∃ d, parse "&k a: [*k, 'x y', ]\nb: &e\n? *k\n: \n? c\n" = .ok d ∧
      ∃ ls, Lexeme.scan "&k a: [*k, 'x y', ]\nb: &e\n? *k\n: \n? c\n".toList = .ok ls ∧
        (d.tokens.tokens.toList.filter (·.kind.isLeaf)).length = 6 ∧
        (d.documents.depthFirst.filter (·.isWritten (unitsOf
          "&k a: [*k, 'x y', ]\nb: &e\n? *k\n: \n? c\n".toList ls))).map Node.token =
            (d.tokens.tokens.toList.filter (·.kind.isLeaf)).map some := by
  obtain ⟨d, hd, hcheck⟩ := Except.exists_ok_of_any
    (x := parse "&k a: [*k, 'x y', ]\nb: &e\n? *k\n: \n? c\n")
    (p := fun d => (d.tokens.tokens.toList.filter (·.kind.isLeaf)).length == 6) (by decide +kernel)
  obtain ⟨ls, hls, hall, -⟩ := leaves_correspond hd
  exact ⟨d, hd, ls, hls, by simpa using hcheck, hall⟩

end YamlNavigator
