import YamlNavigator.Proofs.Document.Weaving

/-!
Tokens that stand beside one another, and the units that they were made from.

* `numbered_unitsOf`: the tokens of units stand in the order of the units;
* `exists_tiles_split`: the tiles behind that of a unit;
* `next_of_units`: behind the token of a unit stands a comment, or the token of the next unit, if
  that is not the end of the stream;
* `exists_unit_of_isBlockStructure`: hyphens, question marks and colons are the tokens of
  indicators.
-/

namespace YamlNavigator

open Yaml Grammar

/-! ### Units and tiles -/

/-- The units of tiles that are numbered from a place on, each with its token. -/
def unitsFrom (table : LineTable) (n : Nat) (ts : List Tile) : List (Lexeme × Token) :=
  (ts.zipIdx n).filterMap fun p => p.1.lexeme.map fun l => (l, p.1.token table p.2)

section Tiles

variable {s : List Char} {table : LineTable} {l l' : Lexeme} {t : Tile}

lemma unitsFrom_append (n : Nat) (ts ts' : List Tile) :
    unitsFrom table n (ts ++ ts') = unitsFrom table n ts ++ unitsFrom table (n + ts.length) ts' := by
  rw [unitsFrom, List.zipIdx_append, List.filterMap_append, unitsFrom, unitsFrom, Nat.add_comm n]

lemma unitsFrom_cons (ht : t.lexeme = some l) (n : Nat) (ts : List Tile) :
    unitsFrom table n (t :: ts) = (l, t.token table n) :: unitsFrom table (n + 1) ts := by
  rw [unitsFrom, List.zipIdx_cons, List.filterMap_cons_some (b := (l, t.token table n)), unitsFrom]
  simp [ht]

/-- The tokens of tiles stand in the order of the tiles. -/
lemma numbered_unitsFrom (n : Nat) (ts : List Tile) : Numbered (unitsFrom table n ts) := by
  have hidx : (ts.zipIdx n).Pairwise fun a b => a.2 < b.2 := by
    rw [← List.pairwise_map, List.zipIdx_map_snd]
    exact List.pairwise_lt_range'
  refine hidx.filterMap _ ?_
  rintro ⟨t, i⟩ ⟨t', j⟩ hij a ha b hb
  obtain ⟨l, -, rfl⟩ := Option.map_eq_some_iff.mp ha
  obtain ⟨l', -, rfl⟩ := Option.map_eq_some_iff.mp hb
  exact Int.ofNat_lt.mpr hij

/-- The tokens of units stand in the order of the units. -/
theorem numbered_unitsOf (s : List Char) (ls : List Lexeme) : Numbered (unitsOf s ls) :=
  numbered_unitsFrom 0 _

/-- Tiles begin with those of their first unit; behind its tile the others are laid. -/
lemma exists_tilesFrom_cons (l : Lexeme) (ls : List Lexeme) (offset : Nat) (rest : List Char) :
    ∃ xs t o r, tilesFrom offset rest (l :: ls) = xs ++ t :: tilesFrom o r ls ∧
      t.lexeme = some l ∧ xs.filterMap (·.lexeme) = [] ∧
      (l.content ≠ .streamEnd → ∀ x ∈ xs, x.kind = .comment) := by
  rw [tilesFrom]
  dsimp only
  split
  · next hend =>
      refine ⟨_, _, _, _, rfl, rfl, ?_, fun hne => absurd hend hne⟩
      rw [List.filterMap_append, lexemes_commentTiles, lexemes_tailTiles, List.nil_append]
  · split
    · exact ⟨[], _, _, _, rfl, rfl, rfl, by simp⟩
    · refine ⟨_, _, _, _, rfl, rfl, lexemes_commentTiles _ _, fun _ x hx => ?_⟩
      rw [commentTiles] at hx
      split at hx
      · cases hx
      · rw [List.mem_singleton.mp hx]

/-- Behind the tile of a unit the tiles of the units behind it are laid. -/
lemma exists_tilesFrom_split (l : Lexeme) (ls : List Lexeme) :
    ∀ (front : List Lexeme) (offset : Nat) (rest : List Char), ∃ xs t o r,
      tilesFrom offset rest (front ++ l :: ls) = xs ++ t :: tilesFrom o r ls ∧
        t.lexeme = some l ∧ xs.filterMap (·.lexeme) = front
  | [], offset, rest => by
      obtain ⟨xs, t, o, r, heq, ht, hxs, -⟩ := exists_tilesFrom_cons l ls offset rest
      exact ⟨xs, t, o, r, heq, ht, hxs⟩
  | k :: front, offset, rest => by
      obtain ⟨xs, t, o, r, heq, ht, hxs, -⟩ :=
        exists_tilesFrom_cons k (front ++ l :: ls) offset rest
      obtain ⟨ys, t', o', r', heq', ht', hys⟩ := exists_tilesFrom_split l ls front o r
      refine ⟨xs ++ t :: ys, t', o', r', ?_, ht', ?_⟩
      · rw [List.cons_append, heq, heq']
        simp
      · rw [List.filterMap_append, hxs, List.filterMap_cons_some ht, hys, List.nil_append]

/-- Behind the tile of a unit of a text the tiles of the units behind it are laid. -/
lemma exists_tiles_split (s : List Char) (front : List Lexeme) (l : Lexeme) (ls : List Lexeme) :
    ∃ xs t o r, tiles s (front ++ l :: ls) = xs ++ t :: tilesFrom o r ls ∧ t.lexeme = some l ∧
      xs.filterMap (·.lexeme) = front := by
  unfold tiles
  split
  · next rest =>
      obtain ⟨xs, t, o, r, heq, ht, hxs⟩ := exists_tilesFrom_split l ls front 1 rest
      exact ⟨_ :: xs, t, o, r, by rw [heq, List.cons_append], ht, by rw [← hxs]; rfl⟩
  · exact exists_tilesFrom_split l ls front 0 s

/-- Tiles have as many units as they were made from. -/
lemma length_unitsFrom (n : Nat) (ts : List Tile) :
    (unitsFrom table n ts).length = (ts.filterMap (·.lexeme)).length := by
  induction ts generalizing n with
  | nil => rfl
  | cons t ts ih =>
      rw [unitsFrom, List.zipIdx_cons]
      cases ht : t.lexeme with
      | none =>
          rw [List.filterMap_cons_none (by simp [ht]), List.filterMap_cons_none ht]
          exact ih (n + 1)
      | some l =>
          rw [List.filterMap_cons_some (b := (l, t.token table n)) (by simp [ht]),
            List.filterMap_cons_some ht, List.length_cons, List.length_cons, ← ih (n + 1), unitsFrom]

end Tiles

/-! ### Tokens beside one another -/

section Neighbours

variable {s : List Char} {ls : List Lexeme} {front back : List (Lexeme × Token)}
variable {u w : Lexeme × Token}

/-- A place of the stream holds the token of the tile there. -/
lemma getElem?_ofTiles (table : LineTable) (ts : List Tile) (i : Nat) :
    (Stream.ofTiles table ts).tokens[i]? = ts[i]?.map (·.token table i) := by
  simp [Stream.ofTiles, tokensOfTiles, List.getElem?_zipIdx, Function.comp_def]

/-- The tokens of two units, and those of the tiles between them. -/
lemma exists_tokens_of_tiles {xs ys zs : List Tile} {t t' : Tile}
    (h : unitsOf s ls = front ++ u :: w :: back)
    (htiles : tiles s ls = xs ++ t :: (ys ++ t' :: zs)) (ht : t.lexeme = some u.1)
    (ht' : t'.lexeme = some w.1) (hxs : xs.filterMap (·.lexeme) = front.map Prod.fst)
    (hys : ys.filterMap (·.lexeme) = []) :
    ∃ before between after, (Stream.ofTiles (LineTable.ofText s) (tiles s ls)).tokens.toList =
      before ++ u.2 :: (between ++ w.2 :: after) ∧
        between.map Token.kind = ys.map Tile.kind := by
  -- the tiles in front of that of a unit are those of the units in front of it
  have hunits : unitsFrom (LineTable.ofText s) 0 (tiles s ls) = front ++ u :: w :: back := h
  rw [htiles, unitsFrom_append, unitsFrom_cons ht, Nat.zero_add] at hunits
  have hlen : (unitsFrom (LineTable.ofText s) 0 xs).length = front.length := by
    rw [length_unitsFrom, hxs, List.length_map]
  obtain ⟨-, hunits⟩ := List.append_inj hunits hlen
  obtain ⟨hu, hbehind⟩ := List.cons.inj hunits
  have hnil : unitsFrom (LineTable.ofText s) (xs.length + 1) ys = [] := by
    rw [← List.length_eq_zero_iff, length_unitsFrom, hys, List.length_nil]
  rw [unitsFrom_append, hnil, List.nil_append, unitsFrom_cons ht'] at hbehind
  obtain ⟨hw, -⟩ := List.cons.inj hbehind
  rw [← hu, ← hw, htiles, Stream.ofTiles, tokensOfTiles, List.zipIdx_append, List.map_append,
    List.zipIdx_cons, List.map_cons, List.zipIdx_append, List.map_append, List.zipIdx_cons,
    List.map_cons, List.toList_toArray, Nat.zero_add]
  refine ⟨_, _, _, rfl, ?_⟩
  have hkinds := congrArg (List.map Tile.kind) (List.zipIdx_map_fst (xs.length + 1) ys)
  rw [List.map_map] at hkinds ⊢
  exact hkinds

/-- Between the tokens of two units that stand beside one another there are comments only, if the
second one is not the end of the stream. -/
lemma exists_tokens_split (h : unitsOf s ls = front ++ u :: w :: back)
    (hw : w.1.content ≠ .streamEnd) :
    ∃ before comments after, (Stream.ofTiles (LineTable.ofText s) (tiles s ls)).tokens.toList =
      before ++ u.2 :: (comments ++ w.2 :: after) ∧ ∀ c ∈ comments, c.kind = .comment := by
  have hls : ls = front.map Prod.fst ++ u.1 :: w.1 :: back.map Prod.fst := by
    rw [← map_fst_unitsOf s ls, h]
    simp
  obtain ⟨xs, tile, o, r, htiles, htile, hxs⟩ :=
    exists_tiles_split s (front.map Prod.fst) u.1 (w.1 :: back.map Prod.fst)
  obtain ⟨ys, tile', o', r', hnext, htile', hys, hcomments⟩ :=
    exists_tilesFrom_cons w.1 (back.map Prod.fst) o r
  rw [← hls, hnext] at htiles
  obtain ⟨before, comments, after, htokens, hkinds⟩ :=
    exists_tokens_of_tiles h htiles htile htile' hxs hys
  refine ⟨before, comments, after, htokens, fun c hc => ?_⟩
  obtain ⟨y, hy, heq⟩ := List.mem_map.mp (hkinds ▸ List.mem_map_of_mem hc)
  rw [← heq, hcomments hw y hy]

/-- A token stands in an indexed stream behind as many others as its index says. -/
lemma Stream.getElem?_of_split {st : Stream} {before after : List Token} {t : Token}
    (h : st.tokens.toList = before ++ t :: after) : st.tokens[before.length]? = some t := by
  rw [← Array.getElem?_toList, h]
  simp

/-- Behind the token of a unit stands a comment, or the token of the next unit, if that is not the
end of the stream. -/
theorem next_of_units (h : unitsOf s ls = front ++ u :: w :: back)
    (hw : w.1.content ≠ .streamEnd) : ∃ t, (Stream.ofTiles (LineTable.ofText s) (tiles s ls)).next
      u.2 = .ok (some t) ∧ (t.kind = .comment ∨ t = w.2) := by
  obtain ⟨before, comments, after, htokens, hcomments⟩ := exists_tokens_split h hw
  rw [Stream.next_of_isIndexed (Stream.isIndexed_ofTiles _ _) (Stream.getElem?_of_split htokens),
    ← Array.getElem?_toList, htokens]
  cases comments with
  | nil => exact ⟨w.2, by simp, .inr rfl⟩
  | cons c comments => exact ⟨c, by simp, .inl (hcomments c List.mem_cons_self)⟩

/-- A token directly behind that of a unit is that of the next unit, if it comes from a unit. -/
lemma eq_of_next {x : Lexeme × Token} (h : unitsOf s ls = front ++ u :: back)
    (hx : x ∈ unitsOf s ls) (hindex : x.2.index = u.2.index + 1) : ∃ back', back = x :: back' := by
  have hnum := numbered_unitsOf s ls
  rw [h, Numbered, List.pairwise_append, List.pairwise_cons] at hnum
  obtain ⟨-, ⟨hu, hback⟩, hfront⟩ := hnum
  rw [h] at hx
  rcases List.mem_append.mp hx with hx | hx
  · have := hfront x hx u List.mem_cons_self
    omega
  rcases List.mem_cons.mp hx with rfl | hx
  · omega
  cases back with
  | nil => cases hx
  | cons w back =>
      rcases List.mem_cons.mp hx with rfl | hx
      · exact ⟨back, rfl⟩
      · -- no token stands between the two
        have hlt := hu w List.mem_cons_self
        have := (List.pairwise_cons.mp hback).1 x hx
        omega

/-- A token at the place of that of a unit is that token, and its kind is that of the unit. -/
lemma eq_of_mem_unitsOf {t : Token} (h : Lexeme.Cover s ls)
    (ht : t ∈ (Stream.ofTiles (LineTable.ofText s) (tiles s ls)).tokens) (hu : u ∈ unitsOf s ls)
    (hindex : u.2.index = t.index) : t = u.2 ∧ t.kind = .ofLexeme u.1 := by
  obtain ⟨i, tile, htile, hlexeme, hu⟩ := exists_tile_of_mem_unitsOf hu
  rw [Stream.ofTiles, List.mem_toArray, tokensOfTiles] at ht
  obtain ⟨⟨tile', j⟩, htile', rfl⟩ := List.mem_map.mp ht
  obtain rfl : i = j := by
    rw [hu] at hindex
    exact Int.ofNat_inj.mp hindex
  obtain rfl : tile = tile' := by
    rw [List.mem_zipIdx_iff_getElem?, htile, Option.some_inj] at htile'
    exact htile'
  have hshows := shows_of_mem_tiles h (List.mem_of_getElem? htile)
  rw [Tile.Shows, hlexeme] at hshows
  exact ⟨hu.symm, hshows.1⟩

/-- The token of a unit stands in the stream of the text. -/
lemma exists_place_of_mem_unitsOf (hu : u ∈ unitsOf s ls) :
    ∃ i : Nat, (Stream.ofTiles (LineTable.ofText s) (tiles s ls)).tokens[i]? = some u.2 := by
  obtain ⟨i, tile, htile, -, hu⟩ := exists_tile_of_mem_unitsOf hu
  exact ⟨i, by rw [getElem?_ofTiles, htile, hu, Option.map_some]⟩

/-- No unit makes a comment. -/
lemma ofLexeme_ne_comment (l : Lexeme) : TokenKind.ofLexeme l ≠ .comment := by
  cases hl : l.content with
  | scalar text style =>
      cases style with
      | plain =>
          simp only [TokenKind.ofLexeme, hl, TokenKind.ofPlain]
          cases PlainType.ofText text <;> simp
      | _ => simp [TokenKind.ofLexeme, hl]
  | key =>
      simp only [TokenKind.ofLexeme, hl]
      split <;> simp
  | _ => simp [TokenKind.ofLexeme, hl]

/-- The tokens of indicators are hyphens, question marks and colons, which introduce others. -/
lemma isBlockStructure_ofLexeme {l : Lexeme} (h : l.IsSound) :
    (TokenKind.ofLexeme l).isBlockStructure = l.isIndicator := by
  rw [Lexeme.IsSound] at h
  cases hl : l.content with
  | scalar text style =>
      cases style with
      | plain =>
          simp only [TokenKind.ofLexeme, Lexeme.isIndicator, hl, TokenKind.ofPlain]
          cases PlainType.ofText text <;> rfl
      | _ => simp [TokenKind.ofLexeme, Lexeme.isIndicator, hl, TokenKind.isBlockStructure]
  | key =>
      simp only [TokenKind.ofLexeme, Lexeme.isIndicator, hl]
      split
      · next hempty => simp [hempty, TokenKind.isBlockStructure]
      · next hempty => simp [hempty, TokenKind.isBlockStructure]
  | value | blockEntry =>
      rw [hl] at h
      have hempty : l.isEmpty = false := by simpa [Lexeme.isEmpty, Content.isPoint] using h
      simp [TokenKind.ofLexeme, Lexeme.isIndicator, hl, TokenKind.isBlockStructure, hempty]
  | _ => simp [TokenKind.ofLexeme, Lexeme.isIndicator, hl, TokenKind.isBlockStructure]

/-- Hyphens, question marks and colons are the tokens of indicators. -/
lemma exists_unit_of_isBlockStructure {t : Token} (h : Lexeme.Cover s ls)
    (ht : t ∈ (Stream.ofTiles (LineTable.ofText s) (tiles s ls)).tokens)
    (hkind : t.kind.isBlockStructure = true) :
    ∃ l, (l, t) ∈ unitsOf s ls ∧ l.isIndicator = true := by
  rcases exists_unit_of_mem_tokens h ht with (heq | heq) | ⟨l, hl, heq⟩
  · rw [heq] at hkind
    cases hkind
  · rw [heq] at hkind
    cases hkind
  · have hmem : l ∈ ls := map_fst_unitsOf s ls ▸ List.mem_map_of_mem hl
    rw [heq, isBlockStructure_ofLexeme (h.isSound l hmem)] at hkind
    exact ⟨l, hl, hkind⟩

end Neighbours

end YamlNavigator
