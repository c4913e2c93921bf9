import YamlNavigator.Proofs.Document.Abutting
import YamlNavigator.Proofs.Document.Colons
import YamlNavigator.Proofs.Document.Enclosing
import YamlNavigator.Proofs.Render.Indicators
import YamlNavigator.Proofs.Render.Pieces

/-!
The tokens that are coloured as the keys of mappings.

* `Category.between_eq_mapKey_iff`: such a token stands in front of a colon, and behind no anchor
  and no alias;
* `exists_key_of_mapKey`: a token that is coloured as a key comes from the last unit of a key;
* `categorize_of_isKeyMark`: a scalar or an alias behind the mark of a key is coloured as one;
* `exists_units_of_key`: the units of a key that is written as a scalar or an alias;
* `map_keys_colored`: keys of mappings and nothing else are coloured as such;
* `exists_mapKey_of_value`: but the anchor of a key may be handed to a value in front of it.
-/

namespace YamlNavigator

open Yaml Grammar

/-! ### Categories -/

/-- The category of a kind is not that of keys. -/
lemma Category.ofKind_ne_mapKey (k : TokenKind) : Category.ofKind k ≠ some .mapKey := by
  cases k <;> simp [Category.ofKind]

/-- Behind no anchor and no alias, what stands behind a token and its kind decide. -/
lemma Category.between_of_ne {before after : Option TokenKind} (k : TokenKind)
    (hanchor : before ≠ some .anchor) (hreference : before ≠ some .reference) :
    Category.between before k after =
      if k.isIndicator then some .indicator else if k = .comment then none
      else if after = some .mappingValueIndicator then some .mapKey else Category.ofKind k := by
  unfold between
  split
  · rfl
  split
  · rfl
  split
  · exact absurd rfl hanchor
  · exact absurd rfl hreference
  · rfl

/-- A token is coloured as a key in front of a colon, if it is no indicator and no comment, and
stands behind no anchor and no alias. -/
lemma Category.between_eq_mapKey_iff {before after : Option TokenKind} {k : TokenKind} :
    Category.between before k after = some .mapKey ↔
      k.isIndicator = false ∧ k ≠ .comment ∧ before ≠ some .anchor ∧ before ≠ some .reference ∧
        after = some .mappingValueIndicator := by
  by_cases hanchor : before = some .anchor
  · simp only [hanchor, ne_eq, not_true, false_and, and_false, iff_false, between]
    split
    · simp
    · split <;> simp
  by_cases hreference : before = some .reference
  · simp only [hreference, ne_eq, not_true, false_and, and_false, iff_false, between]
    split
    · simp
    · split <;> simp
  rw [between_of_ne k hanchor hreference]
  cases k.isIndicator with
  | true => simp
  | false =>
      by_cases hcomment : k = .comment
      · simp [hcomment]
      · by_cases hafter : after = some .mappingValueIndicator <;>
          simp [hcomment, hafter, hanchor, hreference, ofKind_ne_mapKey]

/-! ### Tokens that are coloured as keys -/

section Keys

variable {source : String} {d : Parsed} {ls : List Lexeme} {t : Token} {u w : Lexeme × Token}
variable {front back : List (Lexeme × Token)} {info : NodeInfo} {key value : Node}

/-- **What is coloured as a key is in front of a colon.** A token with text that is coloured as a
key comes from the last unit of the key of an entry, in front of the colon of the entry. -/
lemma exists_key_of_mapKey (h : parse source = .ok d) (hls : Lexeme.scan source.toList = .ok ls)
    (ht : t ∈ d.tokens.tokens) (horigin : t.origin ≠ "")
    (hc : d.tokens.categorize t = .ok (some .mapKey)) :
    ∃ front u w back info key value, unitsOf source.toList ls = front ++ u :: w :: back ∧
      t = u.2 ∧ u.1.content.isOwned = true ∧ w.1.content = .value ∧
      .mappingEntry info (some key) (some value) ∈ d.documents.depthFirst ∧
      key.start ≤ u.1.start.index ∧ u.1.stop.index ≤ key.stop ∧ w.1.stop.index ≤ value.start := by
  obtain ⟨_, hls', htokens, hkeyed⟩ := exists_keyed_of_parse h
  obtain rfl := Except.ok.inj (hls.symm.trans hls')
  have hcover := cover_of_scan hls
  obtain ⟨i, hi, -⟩ := Stream.exists_index d.isIndexed (Array.mem_toList_iff.mpr ht)
  rw [Stream.categorize_eq d.isIndexed hi, Except.ok.injEq, Category.between_eq_mapKey_iff] at hc
  obtain ⟨hindicator, hcomment, -, -, hnext⟩ := hc
  -- the token behind it is that of a colon
  obtain ⟨x, hx, hkind⟩ := Option.map_eq_some_iff.mp hnext
  rw [htokens] at ht hi hx
  obtain ⟨l, hl, hcolon⟩ : ∃ l, (l, x) ∈ unitsOf source.toList ls ∧ l.content = .value := by
    rcases exists_unit_of_mem_tokens hcover (Array.mem_of_getElem? hx) with
      (heq | heq) | ⟨l, hl, heq⟩
    · rw [hkind] at heq
      cases heq
    · rw [hkind] at heq
      cases heq
    · exact ⟨l, hl, content_of_kind_value (heq.symm.trans hkind)⟩
  obtain ⟨n, hn, hdivides⟩ := hkeyed (l, x) hl hcolon
  obtain ⟨info, key, value, front, u, back, rfl, hunits, hpreface, hspan, hvalue⟩ :=
    hdivides.exists_before
  rw [List.flatMap_singleton] at hn
  have hunits' : unitsOf source.toList ls = front ++ u :: (l, x) :: back := hunits
  have hu : u ∈ unitsOf source.toList ls := by simp [hunits']
  -- the token in front of that is that of the unit in front of the colon
  obtain ⟨-, y, hy, heq⟩ := previous_of_units hunits' (by rw [hcolon]; simp) hx
  rw [Nat.add_sub_cancel, hi, Option.some_inj] at hy
  subst hy
  obtain rfl := heq.resolve_left hcomment
  have hkind := (eq_of_mem_unitsOf hcover ht hu rfl).2
  have htext := isEmpty_of_origin hls hu horigin
  rw [hkind] at hindicator
  have hsound := hcover.isSound u.1 (map_fst_unitsOf source.toList ls ▸ List.mem_map_of_mem hu)
  have howned := isOwned_of_kind hsound htext hpreface hindicator
  obtain ⟨hstart, hstop⟩ := hspan howned htext
  exact ⟨front, u, (l, x), back, info, key, value, hunits', rfl, howned, hcolon, hn, hstart, hstop,
    hvalue⟩

/-! ### Keys without question marks -/

/-- The kind of the token of a unit. -/
lemma kind_of_mem_unitsOf (hls : Lexeme.scan source.toList = .ok ls)
    (hu : u ∈ unitsOf source.toList ls) : u.2.kind = .ofLexeme u.1 := by
  obtain ⟨i, hi⟩ := exists_place_of_mem_unitsOf hu
  exact (eq_of_mem_unitsOf (cover_of_scan hls) (Array.mem_of_getElem? hi) hu rfl).2

/-- The mark of a key without text, and a property that is no anchor, make no token of an anchor or
an alias. -/
lemma ofLexeme_ne_of_isKeyMark_or_isProperty {l : Lexeme}
    (h : l.isKeyMark = true ∨ l.isProperty = true ∧ ∀ name, l.content ≠ .anchor name) :
    TokenKind.ofLexeme l ≠ .anchor ∧ TokenKind.ofLexeme l ≠ .reference := by
  rcases h with h | ⟨hprop, hanchor⟩
  · simp only [Lexeme.isKeyMark, Bool.and_eq_true, decide_eq_true_eq] at h
    simp [TokenKind.ofLexeme, h.1, h.2]
  · rw [Lexeme.isProperty] at hprop
    cases hl : l.content with
    | anchor name => exact absurd hl (hanchor name)
    | tag handle suffix => simp [TokenKind.ofLexeme, hl]
    | _ => simp [hl] at hprop

section KeyMark

variable {lead : Lexeme × Token} {ps : List (Lexeme × Token)}
variable (hls : Lexeme.scan source.toList = .ok ls)
variable (hunits : unitsOf source.toList ls = front ++ lead :: (ps ++ u :: w :: back))
variable (hlead : lead.1.isKeyMark = true) (hps : ∀ p ∈ ps, p.1.isProperty = true)

include hls hunits hlead hps

/-- No comment stands between a scalar or an alias behind the mark of a key and the colon. -/
lemma sign_not_mem_of_isKeyMark (hu : isLeafUnit u.1.content = true) (htext : u.1.isEmpty = false)
    (hw : w.1.content = .value) :
    '#' ∉ (source.toList.drop u.1.stop.index).take (w.1.start.index - u.1.stop.index) := by
  have hsplit : ls = front.map Prod.fst ++
      lead.1 :: (ps.map Prod.fst ++ u.1 :: w.1 :: back.map Prod.fst) := by
    rw [← map_fst_unitsOf source.toList ls, hunits]
    simp
  refine sign_not_mem_gap hls hsplit hlead (fun l hl heq => ?_) htext hw
  rcases List.mem_append.mp hl with hl | hl
  · obtain ⟨p, hp, rfl⟩ := List.mem_map.mp hl
    have hprop := hps p hp
    rw [Lexeme.isProperty, heq] at hprop
    cases hprop
  · rw [← List.mem_singleton.mp hl, heq] at hu
    cases hu

/-- The token in front of a scalar or an alias behind the mark of a key, with no anchor among its
properties, is neither an anchor nor an alias. -/
lemma previous_ne_of_isKeyMark (hanchor : ∀ p ∈ ps, ∀ name, p.1.content ≠ .anchor name)
    (hu : isLeafUnit u.1.content = true) {i : Nat}
    (hi : (Stream.ofTiles (LineTable.ofText source.toList) (tiles source.toList ls)).tokens[i]? =
      some u.2) :
    i ≠ 0 ∧ ∃ x, (Stream.ofTiles (LineTable.ofText source.toList)
      (tiles source.toList ls)).tokens[i - 1]? = some x ∧ x.kind ≠ .anchor ∧ x.kind ≠ .reference := by
  -- in front of the unit stands the mark of the key, or a property that is no anchor
  obtain ⟨xs, p, hsplit, hp⟩ : ∃ xs p, front ++ lead :: ps = xs ++ [p] ∧
      (p.1.isKeyMark = true ∨ p.1.isProperty = true ∧ ∀ name, p.1.content ≠ .anchor name) := by
    rcases List.eq_nil_or_concat ps with rfl | ⟨qs, p, rfl⟩
    · exact ⟨front, lead, rfl, .inl hlead⟩
    · rw [List.concat_eq_append] at hps hanchor ⊢
      exact ⟨front ++ lead :: qs, p, by simp, .inr ⟨hps p (by simp), hanchor p (by simp)⟩⟩
  have hunits' : unitsOf source.toList ls = xs ++ p :: u :: (w :: back) := by
    rw [List.append_cons xs, ← hsplit, hunits]
    simp
  have hend : u.1.content ≠ .streamEnd := fun heq => by rw [heq] at hu; cases hu
  obtain ⟨hne, x, hx, hkind⟩ := previous_of_units hunits' hend hi
  refine ⟨hne, x, hx, ?_⟩
  rcases hkind with hkind | rfl
  · simp [hkind]
  · rw [kind_of_mem_unitsOf hls (by simp [hunits'])]
    exact ofLexeme_ne_of_isKeyMark_or_isProperty hp

/-- **Keys without question marks are coloured.** A scalar or an alias behind the mark of a key
without text, with no anchor among its properties, is coloured as a key in front of a colon. -/
lemma categorize_of_isKeyMark (hanchor : ∀ p ∈ ps, ∀ name, p.1.content ≠ .anchor name)
    (hu : isLeafUnit u.1.content = true) (hw : w.1.content = .value) :
    (Stream.ofTiles (LineTable.ofText source.toList) (tiles source.toList ls)).categorize u.2 =
      .ok (some .mapKey) := by
  have hcover := cover_of_scan hls
  have humem : u ∈ unitsOf source.toList ls := by simp [hunits]
  have hwmem : w ∈ unitsOf source.toList ls := by simp [hunits]
  have hutext : u.1.isEmpty = false := by
    have hsound := (isStream_unitsOf hls).isSound u.1 (List.mem_map_of_mem humem)
    simpa [Lexeme.isEmpty] using hsound.start_lt (isOwned_of_isLeafUnit hu)
  have hwtext : w.1.isEmpty = false :=
    isEmpty_of_value hcover (map_fst_unitsOf source.toList ls ▸ List.mem_map_of_mem hwmem) hw
  have hgap := sign_not_mem_of_isKeyMark hls hunits hlead hps hu hutext hw
  have hsplit : unitsOf source.toList ls = (front ++ lead :: ps) ++ u :: w :: back := by
    simp [hunits]
  -- behind the token stands that of the colon
  obtain ⟨before, after, htokens⟩ := exists_tokens_abutting hcover hsplit hutext hwtext hgap
  have hi := Stream.getElem?_of_split htokens
  have hnext : (Stream.ofTiles (LineTable.ofText source.toList)
      (tiles source.toList ls)).tokens[before.length + 1]? = some w.2 := by
    rw [← Array.getElem?_toList, htokens]
    simp
  have hcolon : w.2.kind = .mappingValueIndicator := by
    rw [kind_of_mem_unitsOf hls hwmem, TokenKind.ofLexeme, hw]
  obtain ⟨hne, x, hx, hbefore⟩ := previous_ne_of_isKeyMark hls hunits hlead hps hanchor hu hi
  have hleaf : u.2.kind.isLeaf = true := by rw [kind_of_mem_unitsOf hls humem, isLeaf_ofLexeme, hu]
  rw [Stream.categorize_eq (Stream.isIndexed_ofTiles _ _) hi, if_neg hne, hx, hnext,
    Option.map_some, Option.map_some, Except.ok.injEq, Category.between_eq_mapKey_iff]
  refine ⟨?_, ?_, by simpa using hbefore.1, by simpa using hbefore.2, by rw [hcolon]⟩
  all_goals
    revert hleaf
    cases u.2.kind <;> simp [TokenKind.isLeaf, TokenKind.isContent, TokenKind.isIndicator]

end KeyMark

/-- The units of a key that is written as a scalar or an alias: behind the unit that leads to it
stand its properties, and behind these the unit that it shows. -/
lemma exists_units_of_key (h : parse source = .ok d) (hls : Lexeme.scan source.toList = .ok ls)
    (he : .mappingEntry info (some key) (some value) ∈ d.documents.depthFirst)
    (hwritten : key.isWritten (unitsOf source.toList ls) = true) :
    ∃ front lead ps u back, unitsOf source.toList ls = front ++ lead :: (ps ++ u :: back) ∧
      leadsNode lead.1.content = true ∧ (∀ p ∈ ps, p.1.isProperty = true) ∧
      key.token = some u.2 ∧ Spells u key ∧
      (key.info.anchor = none → ∀ p ∈ ps, ∀ name, p.1.content ≠ .anchor name) := by
  obtain ⟨_, ds, hls', -, htree, hdocuments, hgrown⟩ := exists_grown_of_parse h
  obtain rfl := Except.ok.inj (hls.symm.trans hls')
  have hkind := Node.kind_of_isWritten hwritten
  have hL := isStream_unitsOf hls
  have hkey : key ∈ d.documents.depthFirst := by
    have hchild : key ∈ (Node.mappingEntry info (some key) (some value)).children := by
      simp [Node.children]
    exact Node.mem_depthFirst_trans (Node.mem_depthFirst_of_mem_children hchild) _ he
  rw [htree] at hkey
  have hbody : key ∈ (ds.flatMap Node.children).flatMap Node.depthFirst := by
    refine mem_bodies hkey ?_ ?_ hdocuments <;> rcases hkind with hkind | hkind <;> simp [hkind]
  have hrooted := hgrown.rooted [] (by simp) key hbody
  cases hrooted with
  | unwritten h =>
      have hnot := h.isWritten hL
      rw [hwritten] at hnot
      cases hnot
  | pair h => simp [h.kind] at hkind
  | entry _ h =>
      obtain ⟨_, rfl, -⟩ := h
      simp [Node.kind] at hkind
  | @defined pre ps mid back u h =>
      have hspells := h.shape.resolve_right (by rcases hkind with hkind | hkind <;> simp [hkind])
      have htoken := h.token_of_spells hL hspells
      obtain ⟨front, lead, rfl, hlead⟩ := h.lead
      have hunits : unitsOf source.toList ls = front ++ [lead] ++ (ps ++ u :: (mid ++ back)) :=
        h.units
      rw [List.append_assoc, List.singleton_append] at hunits
      refine ⟨front, lead, ps, u, mid ++ back, hunits, hlead, h.bears.isProperty, htoken, hspells,
        fun hnone p hp name hname => ?_⟩
      have hsome := h.isAnchored p hp name hname
      rw [hnone] at hsome
      cases hsome

end Keys

/-- **Keys of mappings and nothing else are coloured as keys.** In a text that is accepted, every
token with text that is coloured as a key is among the tokens of the key of an entry. Every node
whose span meets its text encloses the entry or is one of the nodes of the key. So does every node
other than a document that has the token among its tokens: no value and no item of a sequence has
such a token for itself, except that where properties are chained, a property may be handed to nodes
in front of it.

Conversely, a key that is written as a scalar or an alias shows the unit that spells it, behind its
properties and the unit that leads to it. If that is the mark of a key without a question mark, the
key has no anchor and a colon follows, then the token is coloured as a key. -/
theorem map_keys_colored {source : String} {d : Parsed} (h : parse source = .ok d) :
    ∃ ls, Lexeme.scan source.toList = .ok ls ∧
      (∀ t ∈ d.tokens.tokens, t.origin ≠ "" → d.tokens.categorize t = .ok (some .mapKey) →
        ∃ l info key value, (l, t) ∈ unitsOf source.toList ls ∧
          .mappingEntry info (some key) (some value) ∈ d.documents.depthFirst ∧ t ∈ key.tokens ∧
          ∀ n ∈ d.documents.depthFirst,
            (n.start < l.stop.index → l.start.index < n.stop →
              .mappingEntry info (some key) (some value) ∈ n.depthFirst ∨ n ∈ key.depthFirst) ∧
            (n.kind ≠ .document → t ∈ n.tokens →
              .mappingEntry info (some key) (some value) ∈ n.depthFirst ∨ n ∈ key.depthFirst ∨
                ¬ Unchained ls ∧ ∃ m ∈ n.depthFirst, t ∈ m.info.properties ∧
                  m.stop ≤ l.start.index)) ∧
      ∀ info key value, .mappingEntry info (some key) (some value) ∈ d.documents.depthFirst →
        key.isWritten (unitsOf source.toList ls) = true →
        ∃ front lead ps u back, unitsOf source.toList ls = front ++ lead :: (ps ++ u :: back) ∧
          leadsNode lead.1.content = true ∧ (∀ p ∈ ps, p.1.isProperty = true) ∧
          key.token = some u.2 ∧ Spells u key ∧
          (lead.1.isKeyMark = true → key.info.anchor = none →
            (∃ w ∈ back.head?, w.1.content = .value) →
              d.tokens.categorize u.2 = .ok (some .mapKey)) := by
  obtain ⟨ls, -, hls, htokens, -⟩ := exists_complete_of_parse h
  refine ⟨ls, hls, fun t ht horigin hc => ?_, fun info key value he hwritten => ?_⟩
  · obtain ⟨front, u, w, back, info, key, value, hunits, rfl, howned, hw, he, hstart, hstop,
      hvalue⟩ := exists_key_of_mapKey h hls ht horigin hc
    have hu : u ∈ unitsOf source.toList ls := by simp [hunits]
    refine ⟨u.1, info, key, value, hu, he, mem_tokens_of_key h hls he hu howned hstart hstop,
      fun n hn => ⟨fun hbefore hbehind => ?_, fun hdocument hmem => ?_⟩⟩
    · have hsplit : (⟨source.toList, unitsOf source.toList ls⟩ : Source).units =
          front ++ u :: w :: back := hunits
      have hle := Compose.stop_le_of_mem (isStream_unitsOf hls) hsplit (v := w) (by simp)
      have hwle := ((cover_of_scan hls).isSound w.1 (map_fst_unitsOf source.toList ls ▸
        List.mem_map_of_mem (by simp [hunits]))).start_le
      exact encloses_or_mem_key h he hn hstart hvalue (by omega) hbehind
    · exact encloses_or_mem_key_of_owns h hls he hunits howned hw hstart hvalue hn hdocument hmem
  · obtain ⟨front, lead, ps, u, back, hunits, hlead, hps, htoken, hspells, hanchor⟩ :=
      exists_units_of_key h hls he hwritten
    refine ⟨front, lead, ps, u, back, hunits, hlead, hps, htoken, hspells, fun hmark hnone hw => ?_⟩
    obtain ⟨w, hw, hcolon⟩ := hw
    obtain ⟨back, rfl⟩ := List.head?_eq_some_iff.mp hw
    rw [htokens]
    exact categorize_of_isKeyMark hls hunits hmark hps (hanchor hnone) hspells.kind.2.2 hcolon

/-- A key in front of a sequence, one in a pair, an alias, and a sequence that is itself a key: its
last item stands in front of the colon. A key with an anchor is not coloured as one. -/
theorem map_keys_colored_sequenceKey :
    ∃ d ls, parse "x: &b [p, q: 1]\n*b : 'r'\n?\n- a\n: !t c\n&k k: v\n" = .ok d ∧
      Lexeme.scan "x: &b [p, q: 1]\n*b : 'r'\n?\n- a\n: !t c\n&k k: v\n".toList = .ok ls ∧
      (d.tokens.tokens.toList.filter fun t =>
        (d.tokens.categorize t).toOption = some (some .mapKey)).map Token.origin =
          ["x", " q", "\n*b", " a"] ∧
      (∀ t ∈ d.tokens.tokens, t.origin ≠ "" → d.tokens.categorize t = .ok (some .mapKey) →
        ∃ info key value, .mappingEntry info (some key) (some value) ∈ d.documents.depthFirst ∧
          t ∈ key.tokens) ∧
      ∀ info key value, .mappingEntry info (some key) (some value) ∈ d.documents.depthFirst →
        key.isWritten
            (unitsOf "x: &b [p, q: 1]\n*b : 'r'\n?\n- a\n: !t c\n&k k: v\n".toList ls) = true →
          ∃ front lead ps u back,
            unitsOf "x: &b [p, q: 1]\n*b : 'r'\n?\n- a\n: !t c\n&k k: v\n".toList ls =
              front ++ lead :: (ps ++ u :: back) ∧ key.token = some u.2 ∧
                (lead.1.isKeyMark = true → key.info.anchor = none →
                  (∃ w ∈ back.head?, w.1.content = .value) →
                    d.tokens.categorize u.2 = .ok (some .mapKey)) := by
  let s := "x: &b [p, q: 1]\n*b : 'r'\n?\n- a\n: !t c\n&k k: v\n"
  obtain ⟨d, hd, hcheck⟩ := Except.exists_ok_of_any (x := parse s) (p := fun d =>
    (d.tokens.tokens.toList.filter fun t =>
      (d.tokens.categorize t).toOption = some (some .mapKey)).map Token.origin ==
        ["x", " q", "\n*b", " a"]) (by decide +kernel)
  obtain ⟨ls, hls, honly, hall⟩ := map_keys_colored hd
  refine ⟨d, ls, hd, hls, eq_of_beq hcheck, fun t ht horigin hc => ?_,
    fun info key value he hkey => ?_⟩
  · obtain ⟨-, info, key, value, -, he, hmem, -⟩ := honly t ht horigin hc
    exact ⟨info, key, value, he, hmem⟩
  · obtain ⟨front, lead, ps, u, back, hunits, -, -, htoken, -, hcolored⟩ :=
      hall info key value he hkey
    exact ⟨front, lead, ps, u, back, hunits, htoken, hcolored⟩

/-- The anchor of a key without text is coloured as a key. If no text stands between it and the
anchor of the empty value in front of it, it is among the tokens of that value as well. -/
theorem exists_mapKey_of_value :
    ∃ d, parse "a: &x\n&y : 1\n" = .ok d ∧
      ∃ info key value, .mappingEntry info (some key) (some value) ∈ d.documents.depthFirst ∧
        value.kind = .scalar ∧ ∃ t ∈ value.tokens, t ∈ d.tokens.tokens ∧ t.origin = "\n&y" ∧
          d.tokens.categorize t = .ok (some .mapKey) := by
  obtain ⟨d, hd, hcheck⟩ := Except.exists_ok_of_any (x := parse "a: &x\n&y : 1\n") (p := fun d =>
    d.documents.depthFirst.any fun n => n.pair?.any fun p =>
      p.2.2.kind == .scalar && p.2.2.tokens.any fun t =>
        decide (t ∈ d.tokens.tokens) && (t.origin == "\n&y" &&
          (d.tokens.categorize t).toOption == some (some .mapKey)))
    (by decide +kernel)
  obtain ⟨n, hn, hcheck⟩ := List.any_eq_true.mp hcheck
  obtain ⟨⟨info, key, value⟩, hpair, hcheck⟩ := (Option.any_eq_true _ _).mp hcheck
  rw [Node.eq_of_pair? hpair] at hn
  simp only [Bool.and_eq_true, decide_eq_true_eq, List.any_eq_true, beq_iff_eq] at hcheck
  obtain ⟨hkind, t, ht, hmem, horigin, hc⟩ := hcheck
  exact ⟨d, hd, info, key, value, hn, hkind, t, ht, hmem, horigin,
    Except.toOption_eq_some_iff.mp hc⟩

end YamlNavigator
