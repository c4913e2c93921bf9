import YamlNavigator.Proofs.Document.Values
import YamlNavigator.Proofs.Render.Numbering

/-!
Tokens start on the lines and in the columns that their positions tell.

* `Token.gap`, `Token.body`: what stands in front of the significant text of a token, and this text;
* `Tile.Laid`, `laid_tiles`: tiles lie one behind the other, and the offset of a tile is behind its
  gap;
* `Token.StartsAt`, `startsAt_of_parse`: the significant text of a token starts behind its gap, in
  the line and the column of its position;
* `Printer.StartsIn`: a written line in which the significant text of a token starts;
* `lines_aligned`: it is the line with the number that the position tells.
-/

namespace YamlNavigator

open Text Yaml

/-! ### Gaps -/

/-- What stands in front of the significant text of a token: of that of its unit, and of the first
number sign of a comment. Byte order marks and the white space at the end have nothing in front. -/
def gapOf (s : List Char) (unit? : Option Lexeme) (kind : TokenKind) (origin : List Char) :
    List Char :=
  match unit? with
  | some l => origin.take (origin.length - (l.slice s).length)
  | none => if kind = .comment then origin.takeWhile (· != '#') else []

/-- In front of the text of a unit stands what its origin holds beside it. -/
lemma gapOf_unit (s : List Char) (l : Lexeme) (kind : TokenKind) (blank : List Char) :
    gapOf s (some l) kind (blank ++ l.slice s) = blank := by
  rw [gapOf, List.length_append, Nat.add_sub_cancel, List.take_left]

lemma gapOf_isPrefix (s : List Char) (unit? : Option Lexeme) (kind : TokenKind)
    (origin : List Char) : gapOf s unit? kind origin <+: origin := by
  unfold gapOf
  split
  · exact List.take_prefix _ _
  · split
    · exact List.takeWhile_prefix _
    · exact List.nil_prefix

namespace Token

/-- What stands in front of the significant text of a token. -/
def gap (s : List Char) (unit? : Option Lexeme) (t : Token) : List Char :=
  gapOf s unit? t.kind t.origin.toList

/-- The significant text of a token. -/
def body (s : List Char) (unit? : Option Lexeme) (t : Token) : List Char :=
  t.origin.toList.drop (t.gap s unit?).length

/-- A token is its significant text behind the gap. -/
lemma gap_append_body (s : List Char) (unit? : Option Lexeme) (t : Token) :
    t.gap s unit? ++ t.body s unit? = t.origin.toList :=
  List.prefix_iff_eq_append.mp (gapOf_isPrefix s unit? t.kind t.origin.toList)

end Token

/-! ### Tiles -/

namespace Tile

/-- Tiles that lie one behind the other from an offset on, each with its own offset behind its
gap. -/
inductive Laid (s : List Char) : Nat → List Tile → Prop
  | nil (k : Nat) : Laid s k []
  | cons {k : Nat} {t : Tile} {ts : List Tile}
      (offset_eq : t.origin ≠ [] → t.offset = k + (gapOf s t.lexeme t.kind t.origin).length)
      (more : Laid s (k + t.origin.length) ts) : Laid s k (t :: ts)

variable {s : List Char} {k : Nat} {t : Tile} {ts us : List Tile}

/-- Tiles are laid behind others. -/
lemma Laid.append (h : Laid s k ts) (hmore : Laid s (k + (ts.flatMap (·.origin)).length) us) :
    Laid s k (ts ++ us) := by
  induction h with
  | nil k => exact hmore
  | @cons k t ts offset_eq _ ih =>
      refine .cons offset_eq (ih ?_)
      rwa [Nat.add_assoc, ← List.length_append, ← List.flatMap_cons]

/-- The offset of a tile among others. -/
lemma Laid.offset_eq {before after : List Tile} (h : Laid s k (before ++ t :: after))
    (ht : t.origin ≠ []) : t.offset =
      k + (before.flatMap (·.origin)).length + (gapOf s t.lexeme t.kind t.origin).length := by
  induction before generalizing k with
  | nil =>
      cases h with
      | cons offset_eq _ => exact offset_eq ht
  | cons u before ih =>
      cases h with
      | cons _ more =>
          rw [ih more, List.flatMap_cons, List.length_append, Nat.add_assoc k]

end Tile

/-- The tile of comments is laid. -/
lemma laid_commentTiles (s : List Char) (k : Nat) (comment : List Char) :
    Tile.Laid s k (commentTiles k comment) := by
  rw [commentTiles]
  split
  · exact .nil k
  · exact .cons (fun _ => rfl) (.nil _)

/-- The tile of the white space at the end is laid. -/
lemma laid_tailTiles (s : List Char) (k : Nat) (tail : List Char) :
    Tile.Laid s k (tailTiles k tail) := by
  rw [tailTiles]
  split
  · exact .nil k
  · exact .cons (fun _ => rfl) (.nil _)

/-- The tiles of units are laid one behind the other, if the units that are left lie in order behind
the offset and inside the text, and the last one ends the stream. -/
lemma laid_tilesFrom {s : List Char} {last : Lexeme} (hlast : last.content = .streamEnd) :
    ∀ (front : List Lexeme) (offset : Nat), InOrder front →
      (∀ l ∈ front, l.content ≠ .streamEnd ∧ l.stop.index ≤ s.length) →
      (∀ l ∈ front, l.isEmpty = false → offset ≤ l.start.index) →
      Tile.Laid s offset (tilesFrom offset (s.drop offset) (front ++ [last]))
  | [], offset, _, _, _ => by
      rw [List.nil_append, tilesFrom_end hlast]
      refine (laid_commentTiles s offset _).append ?_
      rw [text_commentTiles]
      refine (laid_tailTiles s _ _).append (.cons (fun h => absurd rfl h) (.nil _))
  | l :: front, offset, hord, hin, hlow => by
      obtain ⟨hl, hfront⟩ := List.pairwise_cons.mp hord
      obtain ⟨hend, hstop⟩ := hin l List.mem_cons_self
      have hin' : ∀ k ∈ front, k.content ≠ .streamEnd ∧ k.stop.index ≤ s.length :=
        fun k hk => hin k (List.mem_cons_of_mem l hk)
      rw [List.cons_append]
      cases htext : l.isEmpty with
      | true =>
          rw [tilesFrom_of_isEmpty hend htext]
          exact .cons (fun h => absurd rfl h) (laid_tilesFrom hlast front offset hfront hin'
            fun k hk => hlow k (List.mem_cons_of_mem l hk))
      | false =>
          have hle := hlow l List.mem_cons_self htext
          have hlt : l.start.index < l.stop.index := by simpa [Lexeme.isEmpty] using htext
          have hgap := splitComment_append ((s.drop offset).take (l.start.index - offset))
          have hlength := congrArg List.length hgap
          rw [List.length_append, List.length_take, List.length_drop] at hlength
          rw [tilesFrom_of_text hend htext hle]
          refine (laid_commentTiles s offset _).append ?_
          rw [text_commentTiles]
          refine .cons (fun _ => ?_) ?_
          · rw [gapOf_unit]
            dsimp only
            omega
          · have hslice : (l.slice s).length = l.stop.index - l.start.index := by
              rw [Lexeme.slice, List.length_take, List.length_drop]
              omega
            rw [List.length_append, ← Nat.add_assoc, Nat.add_assoc offset, hlength, hslice]
            have hnext : offset + min (l.start.index - offset) (s.length - offset) +
                (l.stop.index - l.start.index) = l.stop.index := by omega
            rw [hnext]
            exact laid_tilesFrom hlast front _ hfront hin' fun k hk _ => hl k hk

/-- **The tiles of a text lie one behind the other**, each with its offset behind its gap. -/
theorem laid_tiles {s : List Char} {ls : List Lexeme} (h : Lexeme.Cover s ls) :
    Tile.Laid s 0 (tiles s ls) := by
  have hmark := h.markWidth_le
  have hstop := h.stop_le
  obtain ⟨front, last, rfl, hlast, -, hfront⟩ := h.streamEnd
  have hord : InOrder front := (List.pairwise_append.mp h.inOrder).1
  have hrest : Tile.Laid s (markWidth s)
      (tilesFrom (markWidth s) (s.drop (markWidth s)) (front ++ [last])) :=
    laid_tilesFrom hlast front _ hord
      (fun l hl => ⟨hfront l hl, hstop l (List.mem_append_left _ hl)⟩)
      fun l hl => hmark l (List.mem_append_left _ hl)
  rw [tiles_eq]
  refine Tile.Laid.append ?_ ?_
  · unfold markWidth
    split
    · exact .cons (fun _ => rfl) (.nil _)
    · exact .nil _
  · have hlength : ((List.replicate (markWidth s) Tile.mark).flatMap (·.origin)).length =
        markWidth s := by simp [Tile.mark]
    rw [hlength, Nat.zero_add]
    exact hrest

/-! ### Positions -/

/-- The significant text of a token starts at an offset of a text: where the unit of the token does,
and at the number sign of a comment. The position of the token tells the line and the column of this
offset. -/
structure Token.StartsAt (s : List Char) (unit? : Option Lexeme) (t : Token) (k : Nat) : Prop where
  unit : ∀ l ∈ unit?, k = l.start.index
  comment : t.kind = .comment → s[k]? = some '#'
  line : t.position.line - 1 = (s.take k).count '\n'
  column : t.position.column - 1 = columnOf s k

/-- A tile with text has the offset of its unit, or of the number sign of its comment. -/
lemma Tile.Cut.offset_eq {s : List Char} {t : Tile} (h : t.Cut s) (ht : t.origin ≠ []) :
    (∀ l ∈ t.lexeme, t.offset = l.start.index) ∧
      (t.kind = .comment → s[t.offset]? = some '#') := by
  cases h with
  | mark hs => exact ⟨nofun, nofun⟩
  | @comment offset lead more hlead hs =>
      refine ⟨nofun, fun _ => ?_⟩
      obtain ⟨rest, hrest⟩ := hs
      show s[offset + lead.length]? = some '#'
      rw [← List.getElem?_drop, ← hrest, List.append_assoc, List.cons_append,
        List.getElem?_append_right (Nat.le_refl _), Nat.sub_self]
      rfl
  | ending offset => exact ⟨nofun, nofun⟩
  | empty hl offset => exact absurd rfl ht
  | @unit l ch more hl hch blank =>
      exact ⟨fun k hk => Option.some.inj hk ▸ rfl, fun hkind =>
        absurd hkind (ofLexeme_ne_comment l)⟩

/-- The tile of a token among those of a text. -/
lemma exists_tile_of_tokens {table : LineTable} {ts : List Tile} {before after : List Token}
    {t : Token} (h : tokensOfTiles table ts = before ++ t :: after) :
    ∃ front tile back j, ts = front ++ tile :: back ∧ ts[j]? = some tile ∧
      t = tile.token table j ∧
      before.flatMap (·.origin.toList) = front.flatMap (·.origin) := by
  obtain ⟨front, rest, hzip, rfl, hrest⟩ := List.map_eq_append_iff.mp h
  obtain ⟨⟨tile, j⟩, back, rfl, rfl, -⟩ := List.map_eq_cons_iff.mp hrest
  have hfst : ts = (front ++ (tile, j) :: back).map Prod.fst := by
    rw [← hzip, List.zipIdx_map_fst]
  rw [List.map_append, List.map_cons] at hfst
  refine ⟨_, tile, _, j, hfst, ?_, rfl, ?_⟩
  · have hmem : (tile, j) ∈ ts.zipIdx := hzip ▸ List.mem_append_right _ List.mem_cons_self
    exact List.mem_zipIdx_iff_getElem?.mp hmem
  · rw [List.flatMap_map, List.flatMap_map]
    exact List.flatMap_congr fun p _ => String.toList_ofList

/-- A token with text in a text that is accepted is that of a tile. The texts of the tokens in front
and the gap of the tile are the beginning of the text, up to the offset of the tile. -/
lemma exists_tile_of_parse {source : String} {d : Parsed} (h : parse source = .ok d)
    {ls : List Lexeme} (hls : Lexeme.scan source.toList = .ok ls) {before after : List Token}
    {t : Token} (ht : d.tokens.tokens.toList = before ++ t :: after) (hne : t.origin ≠ "") :
    ∃ (tile : Tile) (j : Nat), tile.Cut source.toList ∧ tile.origin ≠ [] ∧
      t = tile.token (LineTable.ofText source.toList) j ∧
      t.unit? (unitsOf source.toList ls) = tile.lexeme ∧
      before.flatMap (·.origin.toList) ++ tile.origin <+: source.toList ∧
      tile.offset = (before.flatMap (·.origin.toList)).length +
        (gapOf source.toList tile.lexeme tile.kind tile.origin).length := by
  obtain ⟨ls', -, -, hls', -, -, htokens, -⟩ := exists_stages_of_parse h
  obtain rfl : ls' = ls := Except.ok.inj (hls'.symm.trans hls)
  rw [htokens, Stream.ofTiles] at ht
  obtain ⟨front, tile, back, j, htiles, hj, rfl, hbefore⟩ := exists_tile_of_tokens ht
  have htext : tile.origin ≠ [] := fun hnil => hne (by rw [Tile.token, hnil])
  have hlaid := laid_tiles (cover_of_scan hls)
  have hsource := text_tiles (cover_of_scan hls)
  rw [htiles] at hlaid hsource
  refine ⟨tile, j, cut_of_mem_tiles hls tile (List.mem_of_getElem? hj), htext, rfl,
    unit?_token hj, ?_, ?_⟩
  · rw [List.flatMap_append, List.flatMap_cons, ← hbefore, ← List.append_assoc] at hsource
    exact hsource ▸ List.prefix_append _ _
  · rw [hlaid.offset_eq htext, Nat.zero_add, hbefore]

/-- **Tokens start where their positions tell.** In a text that is accepted the significant text of
a token starts behind the texts of the tokens in front and its own gap, in the line and the column
of its position. -/
theorem startsAt_of_parse {source : String} {d : Parsed} (h : parse source = .ok d)
    {ls : List Lexeme} (hls : Lexeme.scan source.toList = .ok ls) {before after : List Token}
    {t : Token} (ht : d.tokens.tokens.toList = before ++ t :: after) (hne : t.origin ≠ "") :
    let unit? := t.unit? (unitsOf source.toList ls)
    let ahead := before.flatMap (·.origin.toList) ++ t.gap source.toList unit?
    ahead <+: source.toList ∧ t.StartsAt source.toList unit? ahead.length := by
  intro unit? ahead
  obtain ⟨tile, j, hcut, htext, htile, hunit, hfront, hoffset⟩ := exists_tile_of_parse h hls ht hne
  have hgap : t.gap source.toList unit? =
      gapOf source.toList tile.lexeme tile.kind tile.origin := by
    rw [Token.gap, show unit? = tile.lexeme from hunit, htile, Tile.token, String.toList_ofList]
  have hahead : ahead <+: source.toList :=
    ((List.prefix_append_right_inj _).mpr (hgap ▸ gapOf_isPrefix _ _ _ _)).trans hfront
  rw [← hgap, ← List.length_append] at hoffset
  have hposition : t.position = (LineTable.ofText source.toList).position ahead.length := by
    rw [htile, ← hoffset]
    rfl
  obtain ⟨hstart, hsign⟩ := hcut.offset_eq htext
  refine ⟨hahead, fun l hl => ?_, fun hkind => ?_, ?_, ?_⟩
  · rw [← hoffset]
    exact hstart l (hunit ▸ hl)
  · rw [← hoffset]
    exact hsign (by rw [← hkind, htile]; rfl)
  · rw [hposition, LineTable.line_position]
    omega
  · rw [hposition, LineTable.column_position _ _ hahead.length_le]
    omega

/-! ### Written lines -/

namespace Printer

variable {p : Printer}

/-- A written line in which the significant text of a token starts: it is written of pieces of the
tokens in front, of those of a line of the token, and of others. The pieces of the token hold the
last line of its gap and the first line of its significant text, and `ahead` is what stands in front
of this text on the line. -/
def StartsIn (p : Printer) (x : Marked) (gap body ahead : List Char) (line : String) : Prop :=
  ∃ front own more a b c, (tokenLines x)[gap.count '\n']? = some own ∧
    lineText own = lastLine gap ++ firstLine body ∧ lineText front ++ lastLine gap = ahead ∧
    p.writeLine front = .ok a ∧ p.writeLine own = .ok b ∧ p.writeLine more = .ok c ∧
    line = a ++ b ++ c

/-- Pieces that follow one another are written one behind the other. -/
lemma exists_writeLine_append {l m : List Piece} {out : String}
    (h : p.writeLine (l ++ m) = .ok out) :
    ∃ a b, p.writeLine l = .ok a ∧ p.writeLine m = .ok b ∧ out = a ++ b := by
  rw [writeLine_eq_writeStrokes, strokesOf_append, writeStrokes_append] at h
  obtain ⟨a, ha, h⟩ := Except.bind_eq_ok_iff.mp h
  obtain ⟨b, hb, h⟩ := Except.bind_eq_ok_iff.mp h
  rw [writeLine_eq_writeStrokes, writeLine_eq_writeStrokes]
  exact ⟨a, b, ha, hb, (Except.pure_eq_ok_iff.mp h).symm⟩

/-- A line with a number. -/
lemma getElem?_numberLines {ls : List String} {l : String} {i : Nat} (h : ls[i]? = some l) :
    ∃ label, IsLabel (Nat.toDigits 10 ls.length).length (i + 1) label ∧
      (p.numberLines ls)[i]? = some (p.gutter (label ++ p.separator) ++ l) := by
  obtain ⟨hi, -⟩ := List.getElem?_eq_some_iff.mp h
  refine ⟨_, isLabel_padded (Nat.succ_le_of_lt hi), ?_⟩
  rw [numberLines, List.getElem?_map, List.getElem?_zipIdx, h, Nat.add_comm i 1]
  rfl

/-- A line of pieces is written as the line with the same number, behind this number if line numbers
are shown. -/
lemma exists_line_of_write (hp : p.AddsNoBreaks) {layout : List (List Piece)} {shown : Bool}
    {out : String} (hfree : ∀ l ∈ layout, '\n' ∉ lineText l) (hout : p.write shown layout = .ok out)
    {i : Nat} {l : List Piece} (hl : layout[i]? = some l) :
    ∃ line label, p.writeLine l = .ok line ∧
      IsLabel (Nat.toDigits 10 (lines out.toList).length).length (i + 1) label ∧
      (lines out.toList)[i]? =
        some ((if shown then p.gutter (label ++ p.separator) else "") ++ line).toList := by
  obtain ⟨outs, hall, hlines⟩ :=
    lines_write hp (List.ne_nil_of_mem (List.mem_of_getElem? hl)) hfree hout
  obtain ⟨line, hline, hwritten⟩ : ∃ line, outs[i]? = some line ∧ p.writeLine l = .ok line := by
    have hrel := rel_getElem? hall i
    rw [hl] at hrel
    generalize outs[i]? = found at hrel ⊢
    cases hrel with
    | some hwritten => exact ⟨_, rfl, hwritten⟩
  obtain ⟨label, hlabel, hnumbered⟩ := getElem?_numberLines (p := p) hline
  have hlength : (lines out.toList).length = outs.length := by
    rw [hlines, List.length_map]
    split
    · exact length_numberLines p outs
    · rfl
  rw [hlength]
  refine ⟨line, label, hwritten, hlabel, ?_⟩
  rw [hlines, List.getElem?_map]
  cases shown with
  | true =>
      rw [if_pos rfl, if_pos rfl, hnumbered]
      rfl
  | false =>
      rw [if_neg (by decide), if_neg (by decide), hline, String.empty_append]
      rfl

end Printer

/-- **Where the text of a token is laid out.** The significant text of a token starts in the line of
pieces with as many lines in front as there are line feeds in front of the text. -/
lemma exists_layout_line {s : Stream} (hs : s.IsIndexed) (m : Matches) {before after : List Token}
    {t : Token} (ht : s.tokens.toList = before ++ t :: after) {gap body : List Char}
    (horigin : t.origin.toList = gap ++ body) (hne : t.origin.toList ≠ []) :
    ∃ x front own more, s.mark m t = .ok x ∧ (tokenLines x)[gap.count '\n']? = some own ∧
      lineText own = lastLine gap ++ firstLine body ∧
      lineText front ++ lastLine gap = lastLine (before.flatMap (·.origin.toList) ++ gap) ∧
      (s.layout m).1[(before.flatMap (·.origin.toList) ++ gap).count '\n']? =
        some (front ++ (own ++ more)) := by
  obtain ⟨as, x, bs, hlayout, has, hx⟩ := Stream.exists_layout_split hs m ht hne
  have hown : ((tokenLines x).map lineText)[gap.count '\n']? =
      some (lastLine gap ++ firstLine body) := by
    rw [map_lineText_tokenLines, Stream.origin_of_mark hx, horigin]
    exact getElem?_lines_append gap body
  rw [List.getElem?_map] at hown
  obtain ⟨own, hget, htext⟩ := Option.map_eq_some_iff.mp hown
  obtain ⟨more, hmore⟩ := exists_getElem?_layoutLines as bs hget
  refine ⟨x, if gap.count '\n' = 0 then (layoutLines as).getLastD [] else [], own, more, hx, hget,
    htext, ?_, ?_⟩
  · rw [lastLine_append, ← has, ← lineText_getLastD_layoutLines]
    split <;> rfl
  · rw [hlayout, List.count_append, ← has]
    exact hmore

/-- **Rendered lines line up with the positions of tokens.** Of a text that is accepted, with any
matches and every printer that adds no line feeds, a rendered text has as many lines as the source,
with line numbers and without; and the significant text of every token with text starts in the line
and the column of the source that its position tells, and in the written line with this number. -/
theorem lines_aligned {source : String} {d : Parsed} (h : parse source = .ok d) (m : Matches)
    {p : Printer} (hp : p.AddsNoBreaks) :
    ∃ ls, Lexeme.scan source.toList = .ok ls ∧ (unitsOf source.toList ls).map Prod.fst = ls ∧
      ∀ shown,
        ((∃ r, p.render d.tokens m shown = .ok r) ↔
          ∀ x ∈ d.tokens.stylings m, ∃ out, p.answer x = .ok out) ∧
        ∀ r, p.render d.tokens m shown = .ok r →
          (lines r.1.toList).length = 1 + source.toList.count '\n' ∧
          ∀ before t after, d.tokens.tokens.toList = before ++ t :: after → t.origin ≠ "" →
            let unit? := t.unit? (unitsOf source.toList ls)
            let gap := t.gap source.toList unit?
            let k := (before.flatMap (·.origin.toList)).length + gap.length
            t.StartsAt source.toList unit? k ∧
            ∃ x line label, d.tokens.mark m t = .ok x ∧
              p.StartsIn x gap (t.body source.toList unit?) (lastLine (source.toList.take k))
                line ∧
              IsLabel (Nat.toDigits 10 (lines r.1.toList).length).length t.position.line.toNat
                label ∧
              (lines r.1.toList)[(t.position.line - 1).toNat]? = some
                ((if shown then p.gutter (label ++ p.separator) else "") ++ line).toList := by
  obtain ⟨ls, _, _, hls, -⟩ := exists_stages_of_parse h
  refine ⟨ls, hls, map_fst_unitsOf _ _, fun shown => ⟨?_, fun r hr => ⟨?_, ?_⟩⟩⟩
  · exact (Printer.asksFor_stylings d.isIndexed m (size_tokens_ne_zero h) p).exists_render_iff shown
  · rw [length_lines_render h hp hr, length_lines, Nat.add_comm]
  intro before t after ht hne unit? gap k
  have hahead := startsAt_of_parse h hls ht hne
  obtain ⟨⟨rest, hrest⟩, hstarts⟩ := hahead
  rw [List.length_append] at hstarts
  refine ⟨hstarts, ?_⟩
  have htake : source.toList.take k = before.flatMap (·.origin.toList) ++ gap := by
    rw [← hrest]
    exact List.take_left' List.length_append
  obtain ⟨x, front, own, more, hx, hown, htext, hfront, hlayout⟩ :=
    exists_layout_line d.isIndexed m ht (Token.gap_append_body source.toList unit? t).symm
      (by rwa [Ne, String.toList_eq_nil_iff])
  rw [← htake] at hfront hlayout
  have hwrite := Printer.write_of_render (size_tokens_ne_zero h) hr
  obtain ⟨line, label, hline, hlabel, hshown⟩ :=
    Printer.exists_line_of_write hp (not_mem_layoutLines _) hwrite hlayout
  obtain ⟨a, _, ha, hrest, rfl⟩ := Printer.exists_writeLine_append hline
  obtain ⟨b, c, hb, hc, rfl⟩ := Printer.exists_writeLine_append hrest
  have hindex : (t.position.line - 1).toNat = (source.toList.take k).count '\n' := by
    rw [hstarts.line]
    rfl
  have hnumber : t.position.line.toNat = (source.toList.take k).count '\n' + 1 := by
    have hline := hstarts.line
    omega
  rw [hindex, hnumber]
  exact ⟨x, a ++ (b ++ c), label, hx, ⟨front, own, more, a, b, c, hown, htext, hfront, ha, hb, hc,
    String.append_assoc.symm⟩, hlabel, hshown⟩

/-- A comment behind a quoted scalar on two lines and an empty line: it starts on the fourth line,
in the third column, and so it does behind line numbers. -/
theorem lines_aligned_comment :
    ∃ (source : String) (d : Parsed) (r : String × List Found) (t : Token) (k : Nat) (x : Marked)
      (gap body : List Char) (label line : String),
      source = "a: \"b\n  c\"\n\n  # d\ne: 1" ∧ parse source = .ok d ∧
      Printer.barred.render d.tokens (d.documents.query "e") true = .ok r ∧
      (lines r.1.toList).length = 5 ∧
      t ∈ d.tokens.tokens.toList ∧ t.position.line = 4 ∧ t.position.column = 3 ∧
      source.toList[k]? = some '#' ∧ (source.toList.take k).count '\n' = 3 ∧
      columnOf source.toList k = 2 ∧
      Printer.barred.StartsIn x gap body (lastLine (source.toList.take k)) line ∧
      IsLabel 1 4 label ∧ (lines r.1.toList)[3]? = some (label ++ "|" ++ line).toList := by
  obtain ⟨d, hd, hcheck⟩ := Except.exists_ok_of_any
    (x := parse "a: \"b\n  c\"\n\n  # d\ne: 1") (p := fun d =>
      (Printer.barred.render d.tokens (d.documents.query "e") true).toOption.isSome &&
        d.tokens.tokens.toList.any fun t => t.kind == .comment && t.origin != "" &&
          decide (t.position.line = 4 ∧ t.position.column = 3)) (by decide +kernel)
  obtain ⟨hrender, hcheck⟩ := Bool.and_eq_true_iff.mp hcheck
  obtain ⟨r, hr, -⟩ := Except.exists_ok_of_any (p := fun _ => true) (by simpa using hrender)
  obtain ⟨t, ht, hcheck⟩ := List.any_eq_true.mp hcheck
  obtain ⟨hcheck, hposition⟩ := Bool.and_eq_true_iff.mp hcheck
  obtain ⟨hkind, horigin⟩ := Bool.and_eq_true_iff.mp hcheck
  obtain ⟨before, after, hsplit⟩ := List.append_of_mem ht
  have hp : Printer.barred.AddsNoBreaks :=
    ⟨Printer.sparesBreaks_bracketed, fun _ hs => hs, by decide⟩
  obtain ⟨ls, -, -, hlines⟩ := lines_aligned hd (d.documents.query "e") hp
  obtain ⟨hlength, htokens⟩ := (hlines true).2 r hr
  obtain ⟨hstarts, x, line, label, -, hline, hlabel, hshown⟩ :=
    htokens before t after hsplit (bne_iff_ne.mp horigin)
  have hfive : (lines r.1.toList).length = 5 := hlength
  obtain ⟨hfour, hthree⟩ := of_decide_eq_true hposition
  have hcount := hstarts.line
  have hcolumn := hstarts.column
  rw [hfour] at hcount hlabel hshown
  rw [hthree] at hcolumn
  rw [hfive] at hlabel
  refine ⟨_, d, r, t, _, x, _, _, label, line, rfl, hd, hr, hfive, ?_, hfour, hthree,
    hstarts.comment (eq_of_beq hkind), ?_, ?_, hline, hlabel, hshown⟩
  · exact hsplit ▸ List.mem_append_right _ List.mem_cons_self
  · omega
  · omega

end YamlNavigator
