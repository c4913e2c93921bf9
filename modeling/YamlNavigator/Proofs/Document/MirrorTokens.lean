import Mathlib.Data.List.Forall2
import YamlNavigator.Proofs.Document.Neighbours
import YamlNavigator.Proofs.Document.Positions
import YamlNavigator.Proofs.Yaml.MirrorStream

/-!
The tokens of a text and of its spelling.

* `LineTable.line_position_text`: a place of a text and the one that corresponds to it in the
  spelling stand on the same line;
* `splitSpelled_body`: the text between two units is cut behind its comments at the same place, but
  for a carriage return;
* `Respelled`: items that hold the spellings of others, where a carriage return may come early;
* `exists_tilesSpelled`: the tiles of a spelled text;
* `Token.Twins`, `tokens_text`, `units_text`: the tokens and the units of a spelled text.
-/

namespace YamlNavigator

open Text Yaml

/-! ### Positions -/

namespace LineTable

/-- Spelling moves no offset to another line. -/
lemma line_position_text {w : Spelling} {s : List Char} {k : Nat} (h : k ≤ s.length) :
    ((ofText (w.text s)).position (w.offset s k)).line = ((ofText s).position k).line := by
  have hfront : w.front.count '\n' = 0 := by
    rw [Spelling.front]
    split <;> rfl
  rw [line_position, line_position, Spelling.take_text h, List.count_append, hfront, Nat.zero_add,
    Spelling.count_lineFeed_body]

end LineTable

/-! ### Comments -/

/-- How the text between two units is cut behind its comments, and how its spelling is: at the same
place, or behind a carriage return that comes with the line feed there. -/
inductive SplitSpelled (w : Spelling) : List Char × List Char → List Char × List Char → Prop
  | even (comment blank : List Char) :
      SplitSpelled w (comment, blank) (w.body comment, w.body blank)
  | uneven (comment rest : List Char) (h : w.returns = true) (hne : comment ≠ []) :
      SplitSpelled w (comment, '\n' :: rest) (w.body comment ++ ['\r'], '\n' :: w.body rest)

/-- Behind the last number sign of a text the line ends with a line feed and what is spelled in
front of it. -/
lemma splitSpelled_line {w : Spelling} {comment rest : List Char} (hne : comment ≠ []) :
    SplitSpelled w (comment, '\n' :: rest)
      (w.body comment ++ (if w.returns then ['\r'] else []), '\n' :: w.body rest) := by
  split
  · next h => exact .uneven comment rest h hne
  · next h =>
      have heven := SplitSpelled.even (w := w) comment ('\n' :: rest)
      rwa [Spelling.body_cons, Spelling.char_lineFeed, if_neg h, List.nil_append,
        List.singleton_append, ← List.append_nil (w.body comment)] at heven

/-- The text between two units and its spelling are cut alike. -/
lemma splitSpelled_body (w : Spelling) (gap : List Char) :
    SplitSpelled w (splitComment gap) (splitComment (w.body gap)) := by
  by_cases hsign : '#' ∈ gap
  · obtain ⟨pre, after, rfl, hafter'⟩ := exists_last hsign
    have hbody : '#' ∉ w.body after := fun h => hafter' (Spelling.mem_of_mem_body h (by decide))
    have hcomment : ∀ line, '\n' ∉ line →
        w.body (pre ++ '#' :: line) = w.body pre ++ '#' :: line := fun line h => by
      rw [Spelling.body_append, Spelling.body_cons_of_ne (by decide), Spelling.body_of_not_mem h]
    rw [Spelling.body_append, Spelling.body_cons_of_ne (by decide),
      splitComment_append_cons _ hafter', splitComment_append_cons _ hbody]
    -- the line of the sign is spelled as it is
    obtain ⟨line, hline⟩ : ∃ line, line = after.takeWhile (· != '\n') := ⟨_, rfl⟩
    obtain ⟨rest, hrest⟩ : ∃ rest, rest = after.dropWhile (· != '\n') := ⟨_, rfl⟩
    have hne : ∀ c ∈ line, (c != '\n') = true := fun c hc => by
      rw [hline] at hc
      have := List.mem_takeWhile_imp hc
      exact this
    have hfeed : '\n' ∉ line := fun h => by simpa using hne _ h
    have hafter : w.body after = line ++ w.body rest := by
      rw [← Spelling.body_of_not_mem (w := w) hfeed, ← Spelling.body_append, hline, hrest,
        List.takeWhile_append_dropWhile]
    rw [hafter, List.takeWhile_append_of_pos hne, List.dropWhile_append_of_pos hne, ← hline,
      ← hrest]
    rcases rest with _ | ⟨c, rest⟩
    · rw [Spelling.body_nil, List.takeWhile_nil, List.append_nil, List.dropWhile_nil,
        ← hcomment line hfeed]
      exact .even _ []
    · obtain rfl : c = '\n' := by
        have hhead := List.head?_dropWhile_not (· != '\n') after
        rw [← hrest] at hhead
        simpa using hhead
      have hsplit : SplitSpelled w (pre ++ '#' :: line, '\n' :: rest) _ :=
        splitSpelled_line (by simp)
      rw [hcomment line hfeed] at hsplit
      rw [Spelling.body_cons, Spelling.char_lineFeed]
      cases hr : w.returns <;> simpa [hr] using hsplit
  · have hbody : '#' ∉ w.body gap := fun h => hsign (Spelling.mem_of_mem_body h (by decide))
    rw [splitComment_of_not_mem hsign, splitComment_of_not_mem hbody]
    exact .even [] gap

/-! ### Tiles -/

/-- Items with the same texts as others, as these are spelled, with a relation between the items. A
carriage return may already stand at the end of the item before, if that one is `early`. -/
inductive Respelled (w : Spelling) {α : Type} (origin : α → List Char) (R : α → α → Prop)
    (early : α → Prop) : List α → List α → Prop
  | nil : Respelled w origin R early [] []
  | even {a b : α} {as bs : List α} (rel : R a b) (origin_eq : origin b = w.body (origin a))
      (more : Respelled w origin R early as bs) : Respelled w origin R early (a :: as) (b :: bs)
  | uneven {a b a' b' : α} {as bs : List α} {rest : List Char} (returns : w.returns = true)
      (isEarly : early a) (rel : R a b) (origin_eq : origin b = w.body (origin a) ++ ['\r'])
      (rel' : R a' b') (feed : origin a' = '\n' :: rest) (feed' : origin b' = '\n' :: w.body rest)
      (more : Respelled w origin R early as bs) :
      Respelled w origin R early (a :: a' :: as) (b :: b' :: bs)

/-- The items are related one by one. -/
lemma Respelled.forall₂ {w : Spelling} {α : Type} {origin : α → List Char} {R : α → α → Prop}
    {early : α → Prop} {as bs : List α} (h : Respelled w origin R early as bs) :
    List.Forall₂ R as bs := by
  induction h with
  | nil => exact .nil
  | even rel _ _ ih => exact .cons rel ih
  | uneven _ _ rel _ rel' _ _ _ ih => exact .cons rel (.cons rel' ih)

/-- The items are related in another way. -/
lemma Respelled.imp {w : Spelling} {α : Type} {origin : α → List Char} {R R' : α → α → Prop}
    {early : α → Prop} {as bs : List α} (h : Respelled w origin R early as bs)
    (hR : ∀ a ∈ as, ∀ b ∈ bs, R a b → R' a b) : Respelled w origin R' early as bs := by
  induction h with
  | nil => exact .nil
  | @even a b as bs rel origin_eq _ ih =>
      refine .even (hR a List.mem_cons_self b List.mem_cons_self rel) origin_eq
        (ih fun c hc d hd => hR c (List.mem_cons_of_mem a hc) d (List.mem_cons_of_mem b hd))
  | @uneven a b a' b' as bs rest returns isEarly rel origin_eq rel' feed feed' _ ih =>
      have hmem : ∀ {x y z : α} {zs : List α}, z ∈ zs → z ∈ x :: y :: zs := fun hz =>
        List.mem_cons_of_mem _ (List.mem_cons_of_mem _ hz)
      exact .uneven returns isEarly (hR a List.mem_cons_self b List.mem_cons_self rel) origin_eq
        (hR a' (by simp) b' (by simp) rel') feed feed'
        (ih fun c hc d hd => hR c (hmem hc) d (hmem hd))

/-- A tile of a text and the tile of its spelling at the same place: they have the same kind, and
are made from the same unit, at the places that correspond. -/
structure Tile.Twins (w : Spelling) (s : List Char) (t t' : Tile) : Prop where
  kind : t'.kind = t.kind
  lexeme : t'.lexeme = t.lexeme.map (Lexeme.mapMarks (Mark.spelled w s))
  offset : t.lexeme.isSome = true → t.offset ≤ s.length ∧ t'.offset = w.offset s t.offset

/-- The tiles of a text and those of its spelling. Only comments take a carriage return early. -/
abbrev TilesSpelled (w : Spelling) (s : List Char) : List Tile → List Tile → Prop :=
  Respelled w Tile.origin (Tile.Twins w s) fun t => t.kind = .comment

section Tiles

variable {w : Spelling} {s : List Char}

/-- Tiles that were made from no unit are twins if they have the same kind. -/
lemma twins_of_kind (kind : TokenKind) (origin origin' : List Char) (offset offset' : Nat) :
    Tile.Twins w s ⟨kind, origin, offset, none⟩ ⟨kind, origin', offset', none⟩ :=
  ⟨rfl, rfl, nofun⟩

/-- A tile behind the comments in front of it. -/
lemma TilesSpelled.commented {comment blank comment' blank' text : List Char} {offset offset' : Nat}
    {t t' : Tile} {ts ts' : List Tile}
    (hsplit : SplitSpelled w (comment, blank) (comment', blank')) (ht : t.Twins w s t')
    (ho : t.origin = blank ++ text) (ho' : t'.origin = blank' ++ w.body text)
    (more : TilesSpelled w s ts ts') :
    TilesSpelled w s (commentTiles offset comment ++ t :: ts)
      (commentTiles offset' comment' ++ t' :: ts') := by
  cases hsplit with
  | even =>
      have htile : TilesSpelled w s (t :: ts) (t' :: ts') :=
        .even ht (by rw [ho, ho', Spelling.body_append]) more
      rw [commentTiles, commentTiles]
      rcases comment with _ | ⟨c, comment⟩
      · exact htile
      · rw [if_neg (by simp), if_neg (by simp)]
        exact .even (twins_of_kind ..) rfl htile
  | uneven _ rest hreturns hne =>
      rw [commentTiles, commentTiles, if_neg (by simpa using hne), if_neg (by simp)]
      have hrest : t.origin = '\n' :: (rest ++ text) := ho
      refine .uneven hreturns rfl (twins_of_kind ..) rfl ht hrest ?_ more
      rw [ho', Spelling.body_append, List.cons_append]

/-- A moved unit is as empty as before. -/
lemma isEmpty_spelled (l : Lexeme) : (l.mapMarks (Mark.spelled w s)).isEmpty = l.isEmpty := by
  rw [Lexeme.isEmpty, Lexeme.isEmpty]
  exact decide_eq_decide.mpr Spelling.offset_le_iff

/-- A moved unit makes a token of the same kind. -/
lemma ofLexeme_spelled (l : Lexeme) :
    TokenKind.ofLexeme (l.mapMarks (Mark.spelled w s)) = .ofLexeme l := by
  rw [TokenKind.ofLexeme, TokenKind.ofLexeme, isEmpty_spelled]
  rfl

/-- The tile of a unit inside the text, and that of the moved unit. -/
lemma twins_of_lexeme {l : Lexeme} (origin origin' : List Char) {offset offset' : Nat}
    (hle : offset ≤ s.length) (hoffset : offset' = w.offset s offset) :
    Tile.Twins w s ⟨.ofLexeme l, origin, offset, some l⟩
      ⟨.ofLexeme (l.mapMarks (Mark.spelled w s)), origin', offset',
        some (l.mapMarks (Mark.spelled w s))⟩ :=
  ⟨ofLexeme_spelled l, rfl, fun _ => ⟨hle, hoffset⟩⟩

/-- The end of the text behind the last unit, and the end of its spelling. -/
lemma tilesSpelled_end {last : Lexeme} (hlast : last.content = .streamEnd) {offset : Nat}
    (hoffset : offset ≤ s.length) :
    TilesSpelled w s (tilesFrom offset (s.drop offset) [last])
      (tilesFrom (w.offset s offset) ((w.text s).drop (w.offset s offset))
        [last.mapMarks (Mark.spelled w s)]) := by
  have hstop : offset + (s.drop offset).length = s.length := by
    rw [List.length_drop]
    omega
  have hstop' : w.offset s offset + ((w.text s).drop (w.offset s offset)).length =
      w.offset s s.length := by
    have hle : w.offset s offset ≤ w.offset s s.length := Spelling.offset_le_iff.mpr hoffset
    rw [Spelling.offset_length] at hle ⊢
    rw [List.length_drop]
    omega
  have hlast' := twins_of_lexeme (w := w) (l := last) [] [] (Nat.le_refl s.length) rfl
  have hsplit := splitSpelled_body w (s.drop offset)
  rw [tilesFrom_end hlast, tilesFrom_end (show (last.mapMarks _).content = _ from hlast), hstop,
    hstop', Spelling.drop_text hoffset]
  generalize splitComment (s.drop offset) = p at hsplit ⊢
  generalize splitComment (w.body (s.drop offset)) = p' at hsplit ⊢
  obtain ⟨comment, tail⟩ := p
  obtain ⟨comment', tail'⟩ := p'
  dsimp only
  by_cases htail : tail = []
  · subst htail
    cases hsplit
    exact TilesSpelled.commented (.even comment []) hlast' rfl rfl .nil
  · have htail' : tail' ≠ [] := by
      cases hsplit with
      | even => simpa using htail
      | uneven => simp
    rw [tailTiles, tailTiles, if_neg (by simpa using htail), if_neg (by simpa using htail')]
    exact TilesSpelled.commented hsplit (twins_of_kind ..) (List.append_nil tail).symm
      (List.append_nil tail').symm (.even hlast' rfl .nil)

/-- **The tiles of a spelled text** hold the spellings of the tiles of the text, and come from the
moved units: if the units that are left lie in order behind the offset and inside the text, and the
last of them is the only end of the stream. -/
theorem tilesSpelled_tilesFrom {last : Lexeme} (hlast : last.content = .streamEnd) :
    ∀ (front : List Lexeme) (offset : Nat), offset ≤ s.length → InOrder front →
      (∀ l ∈ front, l.content ≠ .streamEnd ∧ l.start.index ≤ l.stop.index ∧
        l.stop.index ≤ s.length) →
      (∀ l ∈ front, l.isEmpty = false → offset ≤ l.start.index) →
      TilesSpelled w s (tilesFrom offset (s.drop offset) (front ++ [last]))
        (tilesFrom (w.offset s offset) ((w.text s).drop (w.offset s offset))
          ((front ++ [last]).map (Lexeme.mapMarks (Mark.spelled w s))))
  | [], offset, hoffset, _, _, _ => tilesSpelled_end hlast hoffset
  | l :: front, offset, hoffset, hord, hin, hlow => by
      obtain ⟨hl, hfront⟩ := List.pairwise_cons.mp hord
      obtain ⟨hend, hle, hstop⟩ := hin l List.mem_cons_self
      have hin' := fun k hk => hin k (List.mem_cons_of_mem l hk)
      have hend' : (l.mapMarks (Mark.spelled w s)).content ≠ .streamEnd := hend
      rw [List.cons_append, List.map_cons, tilesFrom, tilesFrom]
      dsimp only
      rw [if_neg hend, if_neg hend', isEmpty_spelled]
      split
      · refine .even (twins_of_lexeme [] [] (Nat.le_trans hle hstop) rfl) rfl ?_
        exact tilesSpelled_tilesFrom hlast front offset hoffset hfront hin' fun k hk =>
          hlow k (List.mem_cons_of_mem l hk)
      · next hempty =>
          have hstart := hlow l List.mem_cons_self (by simpa using hempty)
          have hmore := tilesSpelled_tilesFrom hlast front l.stop.index hstop hfront hin'
            fun k hk _ => hl k hk
          have hsplit := splitSpelled_body w ((s.drop offset).take (l.start.index - offset))
          have htext := Spelling.slice_text (w := w) s l.start.index l.stop.index
          rw [← Spelling.slice_text] at hsplit
          have hstart' : (l.mapMarks (Mark.spelled w s)).start.index = w.offset s l.start.index :=
            rfl
          have hstop' : (l.mapMarks (Mark.spelled w s)).stop.index = w.offset s l.stop.index := rfl
          -- what is left behind the blanks, and behind the unit
          have hdrop : ∀ {t : List Char} {i j : Nat}, i ≤ j → (t.drop i).drop (j - i) = t.drop j :=
            fun h => by rw [List.drop_drop, Nat.add_sub_cancel' h]
          rw [hstart', hstop', hdrop hstart, hdrop (Nat.le_trans hstart hle),
            hdrop (Spelling.offset_le_iff.mpr hstart),
            hdrop (Spelling.offset_le_iff.mpr (Nat.le_trans hstart hle))]
          exact TilesSpelled.commented hsplit
            (twins_of_lexeme _ _ (Nat.le_trans hle hstop) rfl) rfl (by rw [← htext]; rfl) hmore

/-! ### All tiles -/

lemma markWidth_eq (s : List Char) : markWidth s = if s.head? = some '\ufeff' then 1 else 0 := by
  unfold markWidth
  split
  · rfl
  · next h =>
      rw [if_neg]
      intro hhead
      obtain ⟨rest, rfl⟩ := List.head?_eq_some_iff.mp hhead
      exact h rest rfl

/-- A text and its spelling begin with byte order marks that correspond, or with the one that is put
in front. -/
lemma markWidth_text (hs : w.Suits s) :
    markWidth (w.text s) = markWidth s + w.front.length ∧
      w.offset s (markWidth s) = markWidth s + w.front.length := by
  rw [markWidth_eq, markWidth_eq s]
  cases hw : w.marked with
  | true =>
      have hfront : w.front = ['\ufeff'] := by rw [Spelling.front, if_pos hw]
      rw [if_neg (hs.unmarked hw), Spelling.offset_zero, Spelling.text, hfront]
      exact ⟨rfl, rfl⟩
  | false =>
      have hfront : w.front = [] := by rw [Spelling.front, if_neg (by simp [hw])]
      have hhead : (w.text s).head? = some '\ufeff' ↔ s.head? = some '\ufeff' := by
        rw [Spelling.text, hfront, List.nil_append, Spelling.head?_body]
        cases s with
        | nil => simp
        | cons c s =>
            have hfirst := Spelling.class_first (w := w) (p := (· == '\ufeff')) rfl c
            rw [List.head?_cons, Option.map_some, Option.some_inj, Option.some_inj,
              ← beq_iff_eq, hfirst, beq_iff_eq]
      rw [if_congr hhead rfl rfl, hfront]
      refine ⟨rfl, ?_⟩
      split
      · next h =>
          obtain ⟨rest, rfl⟩ := List.head?_eq_some_iff.mp h
          have hadd : w.offset ('\ufeff' :: rest) (0 + ['\ufeff'].length) = _ :=
            Spelling.offset_add (t := rest) rfl
          rw [Spelling.offset_zero, Spelling.body_of_not_mem (by decide), hfront] at hadd
          exact hadd
      · rw [Spelling.offset_zero, hfront]
        rfl

/-- The tiles of a text and of its spelling, behind the byte order mark and the tile of the start of
the stream, which is not moved. -/
theorem exists_tilesSpelled (hs : w.Suits s) {ls : List Lexeme} (h : Lexeme.Cover s ls) :
    ∃ l rest ts ts', ls = l :: rest ∧ l.content = .streamStart ∧ l.isEmpty = true ∧
      tiles s ls = List.replicate (markWidth s) Tile.mark ++
        ⟨.other, [], l.start.index, some l⟩ :: ts ∧
      tiles (w.text s) (Lexeme.moveAll (Mark.spelled w s) ls) =
        List.replicate (markWidth s + w.front.length) Tile.mark ++
          ⟨.other, [], l.start.index, some l⟩ :: ts' ∧
      TilesSpelled w s ts ts' := by
  obtain ⟨l, rest, rfl, hl⟩ := h.streamStart
  obtain ⟨front, last, hls, hlast, hstart, hfront⟩ := h.streamEnd
  have hempty : l.isEmpty = true := by
    have hsound := h.isSound l List.mem_cons_self
    have hpoint : Content.streamStart.isPoint = true := rfl
    rw [Lexeme.IsSound, hl, if_pos hpoint] at hsound
    simp [Lexeme.isEmpty, hsound]
  obtain ⟨front, rfl⟩ : ∃ front', front = l :: front' := by
    cases front with
    | nil =>
        obtain ⟨rfl, -⟩ := List.cons.inj hls
        rw [hl] at hlast
        cases hlast
    | cons k front => exact ⟨front, by rw [(List.cons.inj hls).1]⟩
  obtain rfl : rest = front ++ [last] := (List.cons.inj hls).2
  have hhead : ∀ (offset : Nat) (t : List Char) (ks : List Lexeme),
      tilesFrom offset t (l :: ks) =
        ⟨.other, [], l.start.index, some l⟩ :: tilesFrom offset t ks := fun offset t ks => by
    have hkind : TokenKind.ofLexeme l = .other := by rw [TokenKind.ofLexeme, hl]
    rw [tilesFrom]
    dsimp only
    rw [if_neg (by rw [hl]; decide), if_pos hempty, hkind]
  obtain ⟨hwidth, hoffset⟩ := markWidth_text hs
  have htiles := tilesSpelled_tilesFrom (w := w) (s := s) hlast front (markWidth s) ?_ ?_ ?_ ?_
  · refine ⟨l, _, _, _, rfl, hl, hempty, by rw [tiles_eq, hhead], ?_, htiles⟩
    rw [tiles_eq, Lexeme.moveAll, hhead, hwidth, hoffset]
  · rw [markWidth_eq]
    split
    · next hmark =>
        obtain ⟨rest, rfl⟩ := List.head?_eq_some_iff.mp hmark
        simp
    · exact Nat.zero_le _
  · have hord := h.inOrder
    rw [InOrder, List.pairwise_cons, List.pairwise_append] at hord
    exact hord.2.1
  · intro k hk
    have hmem : k ∈ l :: (front ++ [last]) := by simp [hk]
    exact ⟨hfront k (List.mem_cons_of_mem l hk), (h.isSound k hmem).start_le, h.stop_le k hmem⟩
  · intro k hk
    exact h.markWidth_le k (by simp [hk])

end Tiles

/-! ### Tokens -/

/-- Tokens of the same kind at places that correspond in the streams of a text and of its
spelling. -/
structure Token.Shifted (w : Spelling) (t t' : Token) : Prop where
  kind : t'.kind = t.kind
  index : t'.index = t.index + w.front.length

/-- The token of a unit and that of the moved unit: they are on the same line, and their positions
tell where the content of this line starts in the text and in its spelling. -/
structure Token.Twins (w : Spelling) (s : List Char) (t t' : Token) : Prop
    extends Token.Shifted w t t' where
  line : t'.position.line = t.position.line
  indent : t.position.indent = indentOf s t.position.line
  indent_text : t'.position.indent = indentOf (w.text s) t.position.line

/-- A unit with its token, and the moved unit with its token. -/
structure UnitTwins (w : Spelling) (s : List Char) (u u' : Lexeme × Token) : Prop where
  lexeme : u'.1 = u.1.mapMarks (Mark.spelled w s)
  token : u.2.Twins w s u'.2

/-- Tokens of a text and of its spelling, put together from the same texts, as they are spelled. -/
abbrev TokensSpelled (w : Spelling) : List Token → List Token → Prop :=
  Respelled w (fun t => t.origin.toList) (Token.Shifted w) fun t => t.kind = .comment

section Tokens

variable {w : Spelling} {s : List Char}

/-- The tokens of tiles that are numbered from a place on. -/
def tokensFrom (table : LineTable) (n : Nat) (ts : List Tile) : List Token :=
  (ts.zipIdx n).map fun p => p.1.token table p.2

lemma tokensFrom_cons (table : LineTable) (n : Nat) (t : Tile) (ts : List Tile) :
    tokensFrom table n (t :: ts) = t.token table n :: tokensFrom table (n + 1) ts := by
  rw [tokensFrom, List.zipIdx_cons, List.map_cons, tokensFrom]

lemma tokensFrom_append (table : LineTable) (n : Nat) (ts ts' : List Tile) :
    tokensFrom table n (ts ++ ts') =
      tokensFrom table n ts ++ tokensFrom table (n + ts.length) ts' := by
  rw [tokensFrom, List.zipIdx_append, List.map_append, tokensFrom, tokensFrom, Nat.add_comm n]

/-- Twin tiles make tokens of one kind at places that correspond. -/
lemma Tile.Twins.shifted {t t' : Tile} (h : t.Twins w s t') (table table' : LineTable) (n : Nat) :
    Token.Shifted w (t.token table n) (t'.token table' (n + w.front.length)) :=
  ⟨h.kind, Int.natCast_add n _⟩

/-- The tokens of a spelled text hold the spellings of the tokens of the text. -/
lemma tokensSpelled_tokensFrom {ts ts' : List Tile} (h : TilesSpelled w s ts ts')
    (table table' : LineTable) (n : Nat) :
    TokensSpelled w (tokensFrom table n ts) (tokensFrom table' (n + w.front.length) ts') := by
  have horigin : ∀ (t : Tile) (table : LineTable) (n : Nat),
      (t.token table n).origin.toList = t.origin := fun _ _ _ => String.toList_ofList
  induction h generalizing n with
  | nil => exact .nil
  | even rel origin_eq more ih =>
      rw [tokensFrom_cons, tokensFrom_cons, Nat.add_right_comm]
      refine .even (rel.shifted table table' n) ?_ (ih (n + 1))
      rw [horigin, horigin, origin_eq]
  | uneven returns isEarly rel origin_eq rel' feed feed' more ih =>
      rw [tokensFrom_cons, tokensFrom_cons, tokensFrom_cons, tokensFrom_cons,
        Nat.add_right_comm n w.front.length 1, Nat.add_right_comm (n + 1) w.front.length 1]
      refine .uneven returns isEarly (rel.shifted table table' n) ?_
        (rel'.shifted table table' (n + 1)) ((horigin _ _ _).trans feed)
        ((horigin _ _ _).trans feed') (ih (n + 1 + 1))
      rw [horigin, horigin, origin_eq]

/-- The tokens of a unit and of the moved unit. -/
lemma Tile.Twins.token {t t' : Tile} (h : t.Twins w s t') (hsome : t.lexeme.isSome = true)
    (n : Nat) :
    (t.token (.ofText s) n).Twins w s (t'.token (.ofText (w.text s)) (n + w.front.length)) := by
  obtain ⟨hle, hoffset⟩ := h.offset hsome
  have hline : (t'.token (.ofText (w.text s)) (n + w.front.length)).position.line =
      (t.token (.ofText s) n).position.line := by
    show (LineTable.position _ t'.offset).line = _
    rw [hoffset]
    exact LineTable.line_position_text hle
  refine ⟨h.shifted _ _ n, hline, LineTable.indent_position s t.offset, ?_⟩
  rw [← hline]
  exact LineTable.indent_position (w.text s) t'.offset

/-- The units of a spelled text are the moved units, with tokens that correspond. -/
lemma forall₂_unitsFrom {ts ts' : List Tile} (h : List.Forall₂ (Tile.Twins w s) ts ts') (n : Nat) :
    List.Forall₂ (UnitTwins w s) (unitsFrom (.ofText s) n ts)
      (unitsFrom (.ofText (w.text s)) (n + w.front.length) ts') := by
  induction h generalizing n with
  | nil => exact .nil
  | @cons t t' ts ts' ht _ ih =>
      have hmore := ih (n + 1)
      rw [Nat.add_right_comm] at hmore
      cases hl : t.lexeme with
      | none =>
          have hl' : t'.lexeme = none := by rw [ht.lexeme, hl]; rfl
          rw [unitsFrom, List.zipIdx_cons, List.filterMap_cons_none (by simp [hl]), unitsFrom,
            List.zipIdx_cons, List.filterMap_cons_none (by simp [hl'])]
          exact hmore
      | some l =>
          have hl' : t'.lexeme = some (l.mapMarks (Mark.spelled w s)) := by rw [ht.lexeme, hl]; rfl
          rw [unitsFrom_cons hl, unitsFrom_cons hl']
          exact .cons ⟨rfl, ht.token (by rw [hl]; rfl) n⟩ hmore

/-- Tokens behind those of byte order marks. -/
lemma TokensSpelled.marked {ts ts' : List Tile} (table table' : LineTable) : ∀ m n : Nat,
    TokensSpelled w (tokensFrom table (n + m) ts) (tokensFrom table' (n + m + w.front.length) ts') →
      TokensSpelled w (tokensFrom table n (List.replicate m Tile.mark ++ ts))
        (tokensFrom table' (n + w.front.length) (List.replicate m Tile.mark ++ ts'))
  | 0, n, h => h
  | m + 1, n, h => by
      rw [Nat.add_comm m 1, ← Nat.add_assoc] at h
      have hmore := TokensSpelled.marked table table' m (n + 1) h
      have hmark : w.body ['\ufeff'] = ['\ufeff'] := Spelling.body_of_not_mem (by decide)
      rw [Nat.add_right_comm] at hmore
      rw [List.replicate_succ, List.cons_append, List.cons_append, tokensFrom_cons, tokensFrom_cons]
      refine .even ⟨rfl, Int.natCast_add n _⟩ ?_ hmore
      show (String.ofList ['\ufeff']).toList = w.body (String.ofList ['\ufeff']).toList
      rw [String.toList_ofList, hmark]

/-- **The tokens of a spelled text** are the token of a byte order mark that is put in front, and
tokens that hold the spellings of the tokens of the text. The first of these is neither content nor
an indicator. -/
theorem tokens_text (hs : w.Suits s) {ls : List Lexeme} (h : Lexeme.Cover s ls) :
    ∃ ts', (Stream.ofTiles (.ofText (w.text s)) (tiles (w.text s)
        (Lexeme.moveAll (Mark.spelled w s) ls))).tokens.toList =
          tokensFrom (.ofText (w.text s)) 0 (List.replicate w.front.length Tile.mark) ++ ts' ∧
      TokensSpelled w (Stream.ofTiles (.ofText s) (tiles s ls)).tokens.toList ts' ∧
      ts'.head?.map Token.kind = some .other := by
  obtain ⟨l, rest, ts, ts', -, -, -, htiles, htiles', hts⟩ := exists_tilesSpelled hs h
  rw [Stream.ofTiles, Stream.ofTiles, htiles, htiles']
  show ∃ ts'', tokensFrom _ 0 _ = _ ∧ TokensSpelled w (tokensFrom _ 0 _) ts'' ∧ _
  rw [Nat.add_comm, List.replicate_add, List.append_assoc, tokensFrom_append, List.length_replicate]
  refine ⟨_, rfl, TokensSpelled.marked _ _ _ 0 ?_, ?_⟩
  · rw [tokensFrom_cons, tokensFrom_cons]
    refine .even ⟨rfl, Int.natCast_add _ _⟩ rfl ?_
    rw [Nat.add_right_comm _ w.front.length 1]
    exact tokensSpelled_tokensFrom hts _ _ _
  · cases markWidth s with
    | zero => rw [List.replicate_zero, List.nil_append, tokensFrom_cons]; rfl
    | succ m => rw [List.replicate_succ, List.cons_append, tokensFrom_cons]; rfl

/-- **The units of a spelled text** are the start of the stream, and the moved units with tokens
that correspond. -/
theorem units_text (hs : w.Suits s) {ls : List Lexeme} (h : Lexeme.Cover s ls) :
    ∃ u u' us us', unitsOf s ls = u :: us ∧
      unitsOf (w.text s) (Lexeme.moveAll (Mark.spelled w s) ls) = u' :: us' ∧
      u'.1 = u.1 ∧ u.1.content = .streamStart ∧ u.1.isEmpty = true ∧
      List.Forall₂ (UnitTwins w s) us us' := by
  obtain ⟨l, rest, ts, ts', -, hl, hempty, htiles, htiles', hts⟩ := exists_tilesSpelled hs h
  have hmarks : ∀ (table : LineTable) (m : Nat),
      unitsFrom table 0 (List.replicate m Tile.mark) = [] := fun table m => by
      refine List.filterMap_eq_nil_iff.mpr fun p hp => ?_
      rw [List.eq_of_mem_replicate (List.fst_mem_of_mem_zipIdx hp)]
      rfl
  have hunits : ∀ (table : LineTable) (m : Nat) (ts : List Tile),
      unitsFrom table 0 (List.replicate m Tile.mark ++ ⟨.other, [], l.start.index, some l⟩ :: ts) =
        (l, Tile.token table ⟨.other, [], l.start.index, some l⟩ m) ::
          unitsFrom table (m + 1) ts := fun table m ts => by
    rw [unitsFrom_append, hmarks, List.nil_append, List.length_replicate, Nat.zero_add,
      unitsFrom_cons rfl]
  refine ⟨_, _, _, _, (congrArg (unitsFrom _ 0) htiles).trans (hunits _ _ _),
    (congrArg (unitsFrom _ 0) htiles').trans (hunits _ _ _), rfl, hl, hempty, ?_⟩
  rw [Nat.add_right_comm]
  exact forall₂_unitsFrom hts.forall₂ _

end Tokens

end YamlNavigator
