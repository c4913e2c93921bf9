import YamlNavigator.Document.Parsed
import YamlNavigator.Proofs.Outcome
import YamlNavigator.Proofs.Text.Parts
import YamlNavigator.Proofs.Yaml.Order

/-!
The tokens of a text tile it: put together in their order they are the text.

* `splitComment_append`, `splitComment_append_cons`: cutting the text between two units loses
  nothing, and comments end on the line of the last number sign;
* `tiles_eq`, `tilesFrom_of_text`, `tilesFrom_end`: the tiles of the first unit that is left, and of
  the end of the text;
* `text_tilesFrom`: the invariant of laying tiles: what they hold is what was left of the text,
  however the units of the rest are placed;
* `text_tiles`: the tiles of a text hold the text, a byte order mark included;
* `Tile.Shows`, `shows_of_mem_tiles`: a tile that was made from a unit ends with the text of the
  unit;
* `map_fst_unitsOf`, `exists_tile_of_mem_unitsOf`: every unit has one token, and that is the token
  of the tile that was made from the unit;
* `exists_unit_of_mem_tokens`: the tokens that were made from units;
* `exists_stages_of_parse`: the stages of reading a text that is accepted;
* `parse_tiles`: the tokens of every text that is accepted tile it, and so do those of bytes.
-/

namespace YamlNavigator

open Text Yaml

/-! ### Cutting the text between units -/

/-- The comment and the blanks behind it are the text between two units. -/
lemma splitComment_append (gap : List Char) :
    (splitComment gap).1 ++ (splitComment gap).2 = gap := by
  rw [splitComment]
  split
  · -- the blanks are the end of the text behind the last number sign
    have hblank : (((gap.reverse.takeWhile (· != '#')).reverse).dropWhile (· != '\n')) <:+ gap := by
      refine (List.dropWhile_suffix _).trans ?_
      rw [← List.reverse_prefix, List.reverse_reverse]
      exact List.takeWhile_prefix _
    dsimp only
    generalize ((gap.reverse.takeWhile (· != '#')).reverse).dropWhile (· != '\n') = blank
      at hblank ⊢
    obtain ⟨front, rfl⟩ := hblank
    simp
  · rfl

/-- Text without a number sign is no comment. -/
lemma splitComment_of_not_mem {gap : List Char} (h : '#' ∉ gap) : splitComment gap = ([], gap) := by
  rw [splitComment, if_neg (by simpa using h)]

/-- The comments in a text end on the line of its last number sign. -/
lemma splitComment_append_cons (pre : List Char) {after : List Char} (h : '#' ∉ after) :
    splitComment (pre ++ '#' :: after) =
      (pre ++ '#' :: after.takeWhile (· != '\n'), after.dropWhile (· != '\n')) := by
  have hafter : ((pre ++ '#' :: after).reverse.takeWhile (· != '#')).reverse = after := by
    have hall : ∀ c ∈ after.reverse, (c != '#') = true := fun c hc => by
      rw [bne_iff_ne]
      rintro rfl
      exact h (List.mem_reverse.mp hc)
    rw [List.reverse_append, List.reverse_cons, List.append_assoc,
      List.takeWhile_append_of_pos hall]
    simp
  have hblank : (splitComment (pre ++ '#' :: after)).2 = after.dropWhile (· != '\n') := by
    rw [splitComment, if_pos (by simp)]
    exact congrArg (List.dropWhile (· != '\n')) hafter
  have happend := splitComment_append (pre ++ '#' :: after)
  rw [hblank] at happend
  refine Prod.ext (List.append_cancel_right (happend.trans ?_)) hblank
  rw [List.append_assoc, List.cons_append, List.takeWhile_append_dropWhile]

/-- The comment tiles hold the comment. -/
lemma text_commentTiles (offset : Nat) (comment : List Char) :
    (commentTiles offset comment).flatMap (·.origin) = comment := by
  rw [commentTiles]
  split
  · next h => simpa using (List.isEmpty_iff.mp h).symm
  · simp

/-- The tiles at the end hold the white space there. -/
lemma text_tailTiles (offset : Nat) (tail : List Char) :
    (tailTiles offset tail).flatMap (·.origin) = tail := by
  rw [tailTiles]
  split
  · next h => simpa using (List.isEmpty_iff.mp h).symm
  · simp

/-! ### Laying the tiles -/

/-- The text of a unit. -/
def Yaml.Lexeme.slice (s : List Char) (l : Lexeme) : List Char :=
  (s.drop l.start.index).take (l.stop.index - l.start.index)

section Laying

variable {s : List Char} {l : Lexeme} {offset : Nat}

/-- A unit without text makes a tile without text. -/
lemma tilesFrom_of_isEmpty (hl : l.content ≠ .streamEnd) (htext : l.isEmpty = true)
    (rest : List Char) (ls : List Lexeme) : tilesFrom offset rest (l :: ls) =
      ⟨.ofLexeme l, [], l.start.index, some l⟩ :: tilesFrom offset rest ls := by
  simp only [tilesFrom, if_neg hl, if_pos htext]

/-- A unit with text makes a tile behind that of the comments in front of it. -/
lemma tilesFrom_of_text (hl : l.content ≠ .streamEnd) (htext : l.isEmpty = false)
    (hle : offset ≤ l.start.index) (ls : List Lexeme) :
    tilesFrom offset (s.drop offset) (l :: ls) =
      commentTiles offset (splitComment ((s.drop offset).take (l.start.index - offset))).1 ++
        ⟨.ofLexeme l, (splitComment ((s.drop offset).take (l.start.index - offset))).2 ++ l.slice s,
          l.start.index, some l⟩ :: tilesFrom l.stop.index (s.drop l.stop.index) ls := by
  have hlt : l.start.index < l.stop.index := by simpa [Lexeme.isEmpty] using htext
  have hstop : offset + (l.stop.index - offset) = l.stop.index := by omega
  simp only [tilesFrom, if_neg hl, htext, Bool.false_eq_true, if_false, List.drop_drop, hstop,
    Nat.add_sub_cancel' hle, Lexeme.slice]

end Laying

/-- The tiles at the end of a text, behind all other units. -/
lemma tilesFrom_end {l : Lexeme} (hl : l.content = .streamEnd) (offset : Nat) (rest : List Char) :
    tilesFrom offset rest [l] = commentTiles offset (splitComment rest).1 ++
      (tailTiles (offset + (splitComment rest).1.length) (splitComment rest).2 ++
        [⟨.ofLexeme l, [], offset + rest.length, some l⟩]) := by
  simp only [tilesFrom, if_pos hl, List.append_assoc]

/-- The tile of a byte order mark. -/
def Tile.mark : Tile := ⟨.other, ['\ufeff'], 0, none⟩

/-- A text begins with the tile of its byte order mark, if it has one. -/
lemma tiles_eq (s : List Char) (ls : List Lexeme) :
    tiles s ls = List.replicate (markWidth s) Tile.mark ++
      tilesFrom (markWidth s) (s.drop (markWidth s)) ls := by
  unfold tiles
  split
  · rfl
  · next h =>
      have hwidth : markWidth s = 0 := by
        unfold markWidth
        split
        · next rest => exact (h rest rfl).elim
        · rfl
      rw [hwidth]
      rfl

/-- Tiles are laid without loss: if the units that are left lie in order behind the offset and
inside the text, and the last of them is the only end of the stream, then the tiles hold what is
left of the text. -/
theorem text_tilesFrom {last : Lexeme} (hlast : last.content = .streamEnd) :
    ∀ (front : List Lexeme) (offset : Nat) (rest : List Char), InOrder front →
      (∀ l ∈ front, l.content ≠ .streamEnd ∧ l.stop.index ≤ offset + rest.length) →
      (∀ l ∈ front, l.isEmpty = false → offset ≤ l.start.index) →
      (tilesFrom offset rest (front ++ [last])).flatMap (·.origin) = rest
  | [], offset, rest, _, _, _ => by
      simp only [List.nil_append, tilesFrom, if_pos hlast, List.flatMap_append, text_commentTiles,
        text_tailTiles, List.flatMap_cons, List.flatMap_nil, List.append_nil]
      exact splitComment_append rest
  | l :: front, offset, rest, hord, hin, hlow => by
      obtain ⟨hl, hfront⟩ := List.pairwise_cons.mp hord
      have hin' : ∀ k ∈ front, k.content ≠ .streamEnd ∧ k.stop.index ≤ offset + rest.length :=
        fun k hk => hin k (List.mem_cons_of_mem l hk)
      rw [List.cons_append, tilesFrom]
      dsimp only
      rw [if_neg (hin l List.mem_cons_self).1]
      split
      · rw [List.flatMap_cons, text_tilesFrom hlast front offset rest hfront hin' fun k hk =>
          hlow k (List.mem_cons_of_mem l hk)]
        rfl
      · next hempty =>
          have hempty' : l.isEmpty = false := by simpa using hempty
          have hlt : l.start.index < l.stop.index := by
            simpa [Lexeme.isEmpty] using hempty'
          have hle := hlow l List.mem_cons_self hempty'
          have hstop := (hin l List.mem_cons_self).2
          have hlen : (rest.drop (l.stop.index - offset)).length =
              offset + rest.length - l.stop.index := by
            rw [List.length_drop]
            omega
          -- the tiles behind the unit hold what is left behind it
          have hrest := text_tilesFrom hlast front l.stop.index
            (rest.drop (l.stop.index - offset)) hfront
            (fun k hk => ⟨(hin' k hk).1, by have := (hin' k hk).2; omega⟩)
            (fun k hk _ => hl k hk)
          rw [List.flatMap_append, text_commentTiles, List.flatMap_cons, hrest,
            ← List.append_assoc, ← List.append_assoc, splitComment_append]
          have hwidth : l.stop.index - offset =
              (l.start.index - offset) + (l.stop.index - l.start.index) := by omega
          rw [hwidth, ← List.drop_drop, List.append_assoc, List.take_append_drop,
            List.take_append_drop]

/-- The tiles of a text hold the text. -/
theorem text_tiles {s : List Char} {ls : List Lexeme} (h : Lexeme.Cover s ls) :
    (tiles s ls).flatMap (·.origin) = s := by
  obtain ⟨front, last, rfl, hlast, -, hfront⟩ := h.streamEnd
  have hord : InOrder front := (List.pairwise_append.mp h.inOrder).1
  have hmem : ∀ {l}, l ∈ front → l ∈ front ++ [last] := fun hl => List.mem_append_left _ hl
  have hmark := h.markWidth_le
  have hstop := h.stop_le
  unfold tiles
  split
  · next rest =>
      rw [List.flatMap_cons, text_tilesFrom hlast front 1 rest hord]
      · rfl
      · intro l hl
        have := hstop l (hmem hl)
        rw [List.length_cons] at this
        exact ⟨hfront l hl, by omega⟩
      · exact fun l hl hne => hmark l (hmem hl) hne
  · refine text_tilesFrom hlast front 0 s hord (fun l hl => ⟨hfront l hl, ?_⟩)
      fun _ _ _ => Nat.zero_le _
    have := hstop l (hmem hl)
    omega

/-- The text of a stream that is made from tiles is what the tiles hold. -/
lemma text_ofTiles (table : LineTable) (ts : List Tile) :
    (Stream.ofTiles table ts).text = String.ofList (ts.flatMap (·.origin)) := by
  have key : ∀ (ts : List Tile) (n : Nat), ((ts.zipIdx n).map fun p =>
      p.1.token table p.2).flatMap (·.origin.toList) = ts.flatMap (·.origin) := by
    intro ts
    induction ts with
    | nil => simp
    | cons t ts ih =>
        intro n
        rw [List.zipIdx_cons, List.map_cons, List.flatMap_cons, ih, List.flatMap_cons]
        simp [Tile.token]
  rw [Stream.text, Stream.ofTiles, tokensOfTiles]
  exact congrArg String.ofList (key ts 0)

/-! ### The text of a unit -/

/-- A tile that was made from a unit has the kind of the unit and ends with its text. Any other tile
is a comment, white space or a byte order mark. -/
def Tile.Shows (s : List Char) (t : Tile) : Prop :=
  match t.lexeme with
  | some l => t.kind = .ofLexeme l ∧
      (s.drop l.start.index).take (l.stop.index - l.start.index) <:+ t.origin
  | none => t.kind = .comment ∨ t.kind = .other

section Shows

variable {s : List Char} {t : Tile} {offset : Nat}

/-- Comments show no unit. -/
lemma shows_of_mem_commentTiles {comment : List Char} (h : t ∈ commentTiles offset comment) :
    t.Shows s := by
  rw [commentTiles] at h
  split at h
  · cases h
  · rw [List.mem_singleton.mp h]
    exact .inl rfl

/-- White space at the end shows no unit. -/
lemma shows_of_mem_tailTiles {tail : List Char} (h : t ∈ tailTiles offset tail) : t.Shows s := by
  rw [tailTiles] at h
  split at h
  · cases h
  · rw [List.mem_singleton.mp h]
    exact .inr rfl

/-- The tile of a unit without text shows it. -/
lemma shows_of_isEmpty {l : Lexeme} (h : l.isEmpty = true) (origin : List Char) :
    Tile.Shows s ⟨.ofLexeme l, origin, offset, some l⟩ := by
  have hle : l.stop.index ≤ l.start.index := by simpa [Lexeme.isEmpty] using h
  refine ⟨rfl, ?_⟩
  rw [Nat.sub_eq_zero_of_le hle, List.take_zero]
  exact List.nil_suffix

/-- Tiles show the units that they were made from, if the units that are left lie in order behind
the offset, and the last one ends the stream. -/
lemma shows_of_mem_tilesFrom {last : Lexeme} (hlast : last.content = .streamEnd)
    (hempty : last.isEmpty = true) :
    ∀ (front : List Lexeme) (offset : Nat), InOrder front →
      (∀ l ∈ front, l.content ≠ .streamEnd) →
      (∀ l ∈ front, l.isEmpty = false → offset ≤ l.start.index) →
      ∀ t ∈ tilesFrom offset (s.drop offset) (front ++ [last]), t.Shows s
  | [], offset, _, _, _, t, ht => by
      rw [List.nil_append, tilesFrom_end hlast, List.mem_append, List.mem_append] at ht
      rcases ht with ht | ht | ht
      · exact shows_of_mem_commentTiles ht
      · exact shows_of_mem_tailTiles ht
      · rw [List.mem_singleton.mp ht]
        exact shows_of_isEmpty hempty []
  | l :: front, offset, hord, hin, hlow, t, ht => by
      obtain ⟨hl, hfront⟩ := List.pairwise_cons.mp hord
      have hend := hin l List.mem_cons_self
      have hin' : ∀ k ∈ front, k.content ≠ .streamEnd := fun k hk =>
        hin k (List.mem_cons_of_mem l hk)
      rw [List.cons_append] at ht
      cases htext : l.isEmpty with
      | true =>
          rw [tilesFrom_of_isEmpty hend htext] at ht
          rcases List.mem_cons.mp ht with rfl | ht
          · exact shows_of_isEmpty htext []
          · exact shows_of_mem_tilesFrom hlast hempty front offset hfront hin'
              (fun k hk => hlow k (List.mem_cons_of_mem l hk)) t ht
      | false =>
          rw [tilesFrom_of_text hend htext (hlow l List.mem_cons_self htext), List.mem_append,
            List.mem_cons] at ht
          rcases ht with ht | rfl | ht
          · exact shows_of_mem_commentTiles ht
          · exact ⟨rfl, List.suffix_append _ _⟩
          · exact shows_of_mem_tilesFrom hlast hempty front l.stop.index hfront hin'
              (fun k hk _ => hl k hk) t ht

/-- The tiles of a text show the units that they were made from. -/
theorem shows_of_mem_tiles {ls : List Lexeme} (h : Lexeme.Cover s ls) (ht : t ∈ tiles s ls) :
    t.Shows s := by
  have hmark := h.markWidth_le
  obtain ⟨front, last, rfl, hlast, -, hfront⟩ := h.streamEnd
  have hord : InOrder front := (List.pairwise_append.mp h.inOrder).1
  have hempty : last.isEmpty = true := h.isEmpty_streamEnd (by simp) hlast
  have hlow : ∀ l ∈ front, l.isEmpty = false → markWidth s ≤ l.start.index := fun l hl =>
    hmark l (List.mem_append_left [last] hl)
  rw [tiles_eq, List.mem_append] at ht
  rcases ht with ht | ht
  · rw [List.eq_of_mem_replicate ht]
    exact .inr rfl
  · exact shows_of_mem_tilesFrom hlast hempty front _ hord hfront hlow t ht

end Shows

/-! ### Texts that are accepted -/

/-- The lexical units of a text that is accepted, each with its token. -/
def unitsOf (s : List Char) (ls : List Lexeme) : List (Lexeme × Token) :=
  unitsOfTiles (LineTable.ofText s) (tiles s ls)

/-- Comments come from no unit. -/
lemma lexemes_commentTiles (offset : Nat) (comment : List Char) :
    (commentTiles offset comment).filterMap (·.lexeme) = [] := by
  rw [commentTiles]
  split <;> rfl

/-- White space at the end comes from no unit. -/
lemma lexemes_tailTiles (offset : Nat) (tail : List Char) :
    (tailTiles offset tail).filterMap (·.lexeme) = [] := by
  rw [tailTiles]
  split <;> rfl

/-- Every unit that is left makes one tile. -/
lemma lexemes_tilesFrom : ∀ (ls : List Lexeme) (offset : Nat) (rest : List Char),
    (tilesFrom offset rest ls).filterMap (·.lexeme) = ls
  | [], offset, rest => rfl
  | l :: ls, offset, rest => by
      rw [tilesFrom]
      dsimp only
      split
      · rw [List.filterMap_append, List.filterMap_append, lexemes_commentTiles, lexemes_tailTiles]
        simp only [List.nil_append, List.filterMap_cons]
        rw [lexemes_tilesFrom ls]
      · split
        · rw [List.filterMap_cons, lexemes_tilesFrom ls]
        · rw [List.filterMap_append, lexemes_commentTiles, List.nil_append, List.filterMap_cons,
            lexemes_tilesFrom ls]

/-- The units with their tokens are the units of the text, in their order. -/
lemma map_fst_unitsOf (s : List Char) (ls : List Lexeme) : (unitsOf s ls).map Prod.fst = ls := by
  have key : ∀ (table : LineTable) (ts : List Tile) (n : Nat),
      ((ts.zipIdx n).filterMap fun p => p.1.lexeme.map fun l => (l, p.1.token table p.2)).map
        Prod.fst = ts.filterMap (·.lexeme) := by
    intro table ts
    induction ts with
    | nil => exact fun _ => rfl
    | cons t ts ih =>
        intro n
        rw [List.zipIdx_cons, List.filterMap_cons, List.filterMap_cons]
        cases t.lexeme with
        | none => exact ih (n + 1)
        | some l => exact congrArg (l :: ·) (ih (n + 1))
  rw [unitsOf, unitsOfTiles, key]
  unfold tiles
  split
  · rw [List.filterMap_cons, lexemes_tilesFrom]
  · exact lexemes_tilesFrom ls 0 s

/-- The token of a unit is that of the tile that was made from the unit. -/
lemma exists_tile_of_mem_unitsOf {s : List Char} {ls : List Lexeme} {u : Lexeme × Token}
    (h : u ∈ unitsOf s ls) : ∃ (i : Nat) (t : Tile), (tiles s ls)[i]? = some t ∧
      t.lexeme = some u.1 ∧ u.2 = t.token (LineTable.ofText s) i := by
  rw [unitsOf, unitsOfTiles] at h
  obtain ⟨⟨t, i⟩, ht, hu⟩ := List.mem_filterMap.mp h
  obtain ⟨l, hl, rfl⟩ := Option.map_eq_some_iff.mp hu
  exact ⟨i, t, List.mem_zipIdx_iff_getElem?.mp ht, hl, rfl⟩

/-- A token is a comment or white space, or it was made from a unit. -/
lemma exists_unit_of_mem_tokens {s : List Char} {ls : List Lexeme} {t : Token}
    (h : Lexeme.Cover s ls)
    (ht : t ∈ (Stream.ofTiles (LineTable.ofText s) (tiles s ls)).tokens) :
    (t.kind = .comment ∨ t.kind = .other) ∨
      ∃ l, (l, t) ∈ unitsOf s ls ∧ t.kind = .ofLexeme l := by
  rw [Stream.ofTiles, List.mem_toArray, tokensOfTiles] at ht
  obtain ⟨⟨tile, i⟩, htile, rfl⟩ := List.mem_map.mp ht
  have hshows := shows_of_mem_tiles h (List.fst_mem_of_mem_zipIdx htile)
  rw [Tile.Shows] at hshows
  cases hl : tile.lexeme with
  | none =>
      rw [hl] at hshows
      exact .inl hshows
  | some l =>
      rw [hl] at hshows
      refine .inr ⟨l, ?_, hshows.1⟩
      rw [unitsOf, unitsOfTiles]
      exact List.mem_filterMap.mpr ⟨(tile, i), htile, by simp [hl]⟩

/-- Units whose tokens have the same index have the same token. -/
lemma token_eq_of_index_eq {s : List Char} {ls : List Lexeme} {u v : Lexeme × Token}
    (hu : u ∈ unitsOf s ls) (hv : v ∈ unitsOf s ls) (h : u.2.index = v.2.index) : u.2 = v.2 := by
  obtain ⟨i, t, ht, -, hut⟩ := exists_tile_of_mem_unitsOf hu
  obtain ⟨j, t', ht', -, hvt⟩ := exists_tile_of_mem_unitsOf hv
  have hij : i = j := by
    rw [hut, hvt] at h
    exact Int.ofNat_inj.mp h
  rw [hut, hvt, hij]
  rw [hij, ht', Option.some_inj] at ht
  rw [ht]

/-- The stages of reading a text that is accepted: its units, its events, and its tree. -/
lemma exists_stages_of_parse {source : String} {d : Parsed} (h : parse source = .ok d) :
    ∃ ls es rest, Lexeme.scan source.toList = .ok ls ∧ Event.ofLexemes ls = .ok es ∧
      Compose.stream ⟨source.toList, unitsOf source.toList ls⟩ es = .ok (d.documents, rest) ∧
      d.tokens = Stream.ofTiles (LineTable.ofText source.toList) (tiles source.toList ls) ∧
      d.source = source := by
  simp only [parse, Except.bind_eq_ok_iff, Except.mapError_eq_ok_iff, Except.pure_eq_ok_iff,
    Prod.exists] at h
  obtain ⟨ls, hls, es, hes, tree, rest, htree, rfl⟩ := h
  exact ⟨ls, es, rest, hls, hes, htree, rfl, rfl⟩

/-- A text that is accepted has tokens. -/
lemma size_tokens_ne_zero {source : String} {d : Parsed} (h : parse source = .ok d) :
    d.tokens.size ≠ 0 := by
  obtain ⟨ls, _, _, hls, -, -, htokens, -⟩ := exists_stages_of_parse h
  obtain ⟨l, rest, hcons, -⟩ := (cover_of_scan hls).streamStart
  obtain ⟨u, hu, -⟩ : ∃ u ∈ unitsOf source.toList ls, u.1 = l := by
    rw [← List.mem_map, map_fst_unitsOf, hcons]
    exact List.mem_cons_self
  obtain ⟨i, t, ht, -, -⟩ := exists_tile_of_mem_unitsOf hu
  obtain ⟨hi, -⟩ := List.getElem?_eq_some_iff.mp ht
  rw [htokens, Stream.size, Stream.ofTiles, List.size_toArray, tokensOfTiles, List.length_map,
    List.length_zipIdx]
  exact Nat.ne_zero_of_lt hi

/-- **The tokens tile the text.** For every text that is accepted, the tokens put together in their
order are the text, and each carries its place as its index; the same holds of bytes and the text
that they are decoded to. -/
theorem parse_tiles :
    (∀ {source : String} {d : Parsed}, parse source = .ok d →
      d.tokens.text = source ∧ d.tokens.IsIndexed) ∧
    (∀ {bytes : List UInt8} {d : Parsed}, parseBytes bytes = .ok d →
      ∃ s, Utf8.decode bytes = .ok s ∧ d.tokens.text = String.ofList s ∧ d.tokens.IsIndexed) := by
  have htext : ∀ {source : String} {d : Parsed}, parse source = .ok d →
      d.tokens.text = source ∧ d.tokens.IsIndexed := by
    intro source d h
    obtain ⟨ls, es, rest, hls, -, -, htokens, -⟩ := exists_stages_of_parse h
    refine ⟨?_, d.isIndexed⟩
    rw [htokens, text_ofTiles, text_tiles (cover_of_scan hls), String.ofList_toList]
  refine ⟨htext, fun {bytes d} h => ?_⟩
  rw [parseBytes] at h
  split at h
  · next s hs => exact ⟨s, hs, htext h⟩
  · cases h

/-- A text with a byte order mark, comments, blank lines, a block scalar and white space at its end,
and the bytes of a short text. -/
theorem parse_tiles_markedText :
    (∃ d, parse "\ufeff# a\n\nk: |\n  x\n\n\n # b\nl: [1, &y z] # c\n\n " = .ok d ∧
      d.tokens.text = "\ufeff# a\n\nk: |\n  x\n\n\n # b\nl: [1, &y z] # c\n\n " ∧
      d.tokens.IsIndexed) ∧
    ∃ d, parseBytes [0xc3, 0xa9, 0x3a, 0x20, 0x31] = .ok d ∧
      ∃ s, Utf8.decode [0xc3, 0xa9, 0x3a, 0x20, 0x31] = .ok s ∧
        d.tokens.text = String.ofList s ∧ d.tokens.IsIndexed := by
  obtain ⟨d, hd⟩ := Except.exists_ok_of_toBool
    (x := parse "\ufeff# a\n\nk: |\n  x\n\n\n # b\nl: [1, &y z] # c\n\n ") (by decide +kernel)
  obtain ⟨e, he⟩ := Except.exists_ok_of_toBool
    (x := parseBytes [0xc3, 0xa9, 0x3a, 0x20, 0x31]) (by decide +kernel)
  exact ⟨⟨d, hd, parse_tiles.1 hd⟩, e, he, parse_tiles.2 he⟩

end YamlNavigator
