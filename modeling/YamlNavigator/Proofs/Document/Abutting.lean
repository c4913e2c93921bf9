import YamlNavigator.Proofs.Document.Neighbours
import YamlNavigator.Proofs.Document.Values
import YamlNavigator.Proofs.Yaml.Division
import YamlNavigator.Proofs.Yaml.Inline

/-!
Tokens with nothing but blanks between them.

* `tiles_split`: behind the tile of a unit with text the text is laid from the stop of the unit on;
* `exists_tokens_abutting`: without a number sign between two units with text the token of the
  second one stands directly behind that of the first;
* `isEmpty_of_origin`, `content_of_kind_value`, `isOwned_of_kind`: the units of tokens with text, of
  the tokens of colons, and of tokens that are no indicators;
* `previous_of_units`: in front of the token of a unit stands a comment, or the token of the unit in
  front.
-/

namespace YamlNavigator

open Yaml Grammar

section Abutting

variable {s : List Char} {ls : List Lexeme} {front back : List (Lexeme × Token)}
variable {u w : Lexeme × Token} {t : Token}

/-! ### Tiles behind a unit with text -/

/-- Behind the tile of a unit with text the text is laid from the stop of the unit on. -/
lemma tilesFrom_split {l : Lexeme} (ks : List Lexeme) (htext : l.isEmpty = false) :
    ∀ (front : List Lexeme) (offset : Nat), InOrder (front ++ [l]) →
      (∀ k ∈ front ++ [l], k.content ≠ .streamEnd) →
      (∀ k ∈ front ++ [l], k.isEmpty = false → offset ≤ k.start.index) →
      ∃ xs t, tilesFrom offset (s.drop offset) (front ++ l :: ks) =
        xs ++ t :: tilesFrom l.stop.index (s.drop l.stop.index) ks ∧ t.lexeme = some l ∧
          xs.filterMap (·.lexeme) = front
  | [], offset, _, hin, hlow => by
      rw [List.nil_append, tilesFrom_of_text (hin l (by simp)) htext (hlow l (by simp) htext)]
      exact ⟨_, _, rfl, rfl, lexemes_commentTiles _ _⟩
  | k :: front, offset, hord, hin, hlow => by
      obtain ⟨hk, hfront⟩ := List.pairwise_cons.mp hord
      have hend := hin k List.mem_cons_self
      have hin' : ∀ j ∈ front ++ [l], j.content ≠ .streamEnd := fun j hj =>
        hin j (List.mem_cons_of_mem k hj)
      rw [List.cons_append]
      cases hempty : k.isEmpty with
      | true =>
          obtain ⟨xs, t, heq, ht, hxs⟩ := tilesFrom_split ks htext front offset hfront hin'
            fun j hj => hlow j (List.mem_cons_of_mem k hj)
          rw [tilesFrom_of_isEmpty hend hempty, heq]
          exact ⟨_ :: xs, t, rfl, ht, by rw [← hxs]; rfl⟩
      | false =>
          obtain ⟨xs, t, heq, ht, hxs⟩ := tilesFrom_split ks htext front k.stop.index hfront hin'
            fun j hj _ => hk j hj
          rw [tilesFrom_of_text hend hempty (hlow k List.mem_cons_self hempty), heq]
          refine ⟨_, t, by rw [← List.cons_append, ← List.append_assoc], ht, ?_⟩
          rw [List.filterMap_append, lexemes_commentTiles, List.nil_append, ← hxs]
          rfl

/-- Behind the tile of a unit with text the text is laid from the stop of the unit on. -/
lemma tiles_split {l k : Lexeme} {front ks : List Lexeme} (h : Lexeme.Cover s ls)
    (hls : ls = front ++ l :: k :: ks) (htext : l.isEmpty = false) :
    ∃ xs t, tiles s ls = xs ++ t :: tilesFrom l.stop.index (s.drop l.stop.index) (k :: ks) ∧
      t.lexeme = some l ∧ xs.filterMap (·.lexeme) = front := by
  have hord := h.inOrder
  rw [hls, List.append_cons] at hord
  -- the end of the stream stands behind all of these units
  have hin : ∀ j ∈ front ++ [l], j.content ≠ .streamEnd := by
    intro j hj hend
    obtain ⟨as, bs, hsplit⟩ := List.append_of_mem hj
    have hls' : ls = as ++ j :: (bs ++ k :: ks) := by
      rw [hls, List.append_cons, hsplit]
      simp
    have hnil := (isStream_of_cover h).ends as j _ hls' hend
    simp at hnil
  have hlow : ∀ j ∈ front ++ [l], j.isEmpty = false → markWidth s ≤ j.start.index := by
    intro j hj
    refine h.markWidth_le j ?_
    rw [hls, List.append_cons]
    exact List.mem_append_left _ hj
  obtain ⟨xs, t, heq, ht, hxs⟩ :=
    tilesFrom_split (k :: ks) htext front (markWidth s) (List.pairwise_append.mp hord).1 hin hlow
  rw [tiles_eq, hls, heq]
  refine ⟨List.replicate (markWidth s) Tile.mark ++ xs, t, by rw [List.append_assoc], ht, ?_⟩
  rw [List.filterMap_append, hxs, List.filterMap_replicate_of_none rfl, List.nil_append]

/-- **Tokens abut.** If no number sign stands between two units with text that stand beside one
another, no token stands between theirs. -/
theorem exists_tokens_abutting (h : Lexeme.Cover s ls)
    (hunits : unitsOf s ls = front ++ u :: w :: back)
    (hu : u.1.isEmpty = false) (hw : w.1.isEmpty = false)
    (hgap : '#' ∉ (s.drop u.1.stop.index).take (w.1.start.index - u.1.stop.index)) :
    ∃ before after, (Stream.ofTiles (LineTable.ofText s) (tiles s ls)).tokens.toList =
      before ++ u.2 :: w.2 :: after := by
  have hls : ls = front.map Prod.fst ++ u.1 :: w.1 :: back.map Prod.fst := by
    rw [← map_fst_unitsOf s ls, hunits]
    simp
  have hwls : w.1 ∈ ls := by simp [hls]
  obtain ⟨xs, t, htiles, ht, hxs⟩ := tiles_split h hls hu
  have hend : w.1.content ≠ .streamEnd := fun hend => by
    rw [h.isEmpty_streamEnd hwls hend] at hw
    cases hw
  have hle : u.1.stop.index ≤ w.1.start.index := by
    have hord := h.inOrder
    rw [hls, InOrder, List.pairwise_append, List.pairwise_cons] at hord
    exact hord.2.1.1 w.1 List.mem_cons_self
  rw [tilesFrom_of_text hend hw hle, splitComment_of_not_mem hgap] at htiles
  have hnone : ([] : List Tile).filterMap (·.lexeme) = [] := rfl
  obtain ⟨before, between, after, htokens, hbetween⟩ :=
    exists_tokens_of_tiles hunits (by exact htiles) ht rfl hxs hnone
  rw [List.map_eq_nil_iff.mp hbetween] at htokens
  exact ⟨before, after, htokens⟩

/-! ### Units of tokens -/

/-- A unit whose token holds text has text. -/
lemma isEmpty_of_origin (h : Lexeme.scan s = .ok ls) (hu : u ∈ unitsOf s ls)
    (horigin : u.2.origin ≠ "") : u.1.isEmpty = false := by
  obtain ⟨i, tile, htile, hlexeme, heq⟩ := exists_tile_of_mem_unitsOf hu
  have hcut := cut_of_mem_tiles h tile (List.mem_of_getElem? htile)
  rw [← Bool.not_eq_true]
  intro hempty
  refine horigin ?_
  rw [heq, Tile.token]
  cases hcut with
  | mark | comment | ending => cases hlexeme
  | empty => rfl
  | unit hl =>
      cases hlexeme
      have hlen := congrArg List.length hl
      have hle : u.1.stop.index ≤ u.1.start.index := by simpa [Lexeme.isEmpty] using hempty
      rw [Lexeme.slice, Nat.sub_eq_zero_of_le hle, List.take_zero] at hlen
      cases hlen

/-- Only colons make tokens of their kind. -/
lemma content_of_kind_value {l : Lexeme} (h : TokenKind.ofLexeme l = .mappingValueIndicator) :
    l.content = .value := by
  cases hl : l.content with
  | scalar text style =>
      cases style with
      | plain =>
          simp only [TokenKind.ofLexeme, hl, TokenKind.ofPlain] at h
          cases hp : PlainType.ofText text <;> rw [hp] at h <;> cases h
      | _ => simp [TokenKind.ofLexeme, hl] at h
  | key =>
      simp only [TokenKind.ofLexeme, hl] at h
      split at h <;> cases h
  | value => rfl
  | _ => simp [TokenKind.ofLexeme, hl] at h

/-- A unit with text in the body of a document is an indicator to a reader, or it belongs to a
node. -/
lemma isOwned_of_kind {l : Lexeme} (hsound : l.IsSound) (htext : l.isEmpty = false)
    (hpreface : l.content.isPreface = false) (h : (TokenKind.ofLexeme l).isIndicator = false) :
    l.content.isOwned = true := by
  have hpoint : l.content.isPoint = false := by
    rw [← Bool.not_eq_true]
    intro hpoint
    rw [Lexeme.IsSound, if_pos hpoint] at hsound
    simp [Lexeme.isEmpty, hsound] at htext
  revert hpoint hpreface h
  rw [TokenKind.ofLexeme, htext]
  cases l.content <;>
    simp [Content.isPoint, Content.isPreface, Content.isOwned, TokenKind.isIndicator]

/-! ### Tokens in front -/

/-- A token of an indexed stream stands behind as many others as stand in front of it. -/
lemma Stream.eq_length_of_split {st : Stream} (h : st.IsIndexed) {i : Nat}
    (ht : st.tokens[i]? = some t) {before after : List Token}
    (hsplit : st.tokens.toList = before ++ t :: after) : i = before.length :=
  Int.ofNat_inj.mp ((h i t ht).symm.trans (h _ t (getElem?_of_split hsplit)))

/-- In front of the token of a unit stands a comment, or the token of the unit in front. -/
theorem previous_of_units (hunits : unitsOf s ls = front ++ u :: w :: back)
    (hend : w.1.content ≠ .streamEnd) {i : Nat}
    (hw : (Stream.ofTiles (LineTable.ofText s) (tiles s ls)).tokens[i]? = some w.2) :
    i ≠ 0 ∧ ∃ x, (Stream.ofTiles (LineTable.ofText s) (tiles s ls)).tokens[i - 1]? = some x ∧
      (x.kind = .comment ∨ x = u.2) := by
  obtain ⟨before, comments, after, htokens, hcomments⟩ := exists_tokens_split hunits hend
  have hsplit : (Stream.ofTiles (LineTable.ofText s) (tiles s ls)).tokens.toList =
      (before ++ u.2 :: comments) ++ w.2 :: after := by simp [htokens]
  have hplace := Stream.eq_length_of_split (Stream.isIndexed_ofTiles _ _) hw hsplit
  rw [List.length_append, List.length_cons] at hplace
  refine ⟨by omega, ?_⟩
  have hbefore : i - 1 = before.length + comments.length := by omega
  rw [hbefore, ← Array.getElem?_toList, htokens, List.getElem?_append_right (Nat.le_add_right _ _),
    Nat.add_sub_cancel_left]
  cases hlen : comments.length with
  | zero => exact ⟨u.2, rfl, .inr rfl⟩
  | succ n =>
      -- the last of the comments
      have hlt : n < comments.length := by omega
      rw [List.getElem?_cons_succ, List.getElem?_append_left hlt, List.getElem?_eq_getElem hlt]
      exact ⟨_, rfl, .inl (hcomments _ (List.getElem_mem hlt))⟩

end Abutting

end YamlNavigator
