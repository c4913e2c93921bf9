import YamlNavigator.Proofs.Ansi.Codes
import YamlNavigator.Proofs.Document.Tiles
import YamlNavigator.Proofs.Render.Pieces

/-!
What remains of a document that is rendered in colour when the styles are taken away.

* `isAcceptable_of_scan`, `isShown_of_scan`: the characters of an accepted text;
* `Palette.exists_style_of_ofStyles`: the palettes of settings write through styles;
* `Settings.HasNoLinks`, `Settings.WritesNoLinks`: no text is written as a link;
* `Settings.hasCodes`, `Settings.keeps`, `Settings.clips`: what is kept of a piece that is painted
  as settings say, and the pieces of which a part is lost;
* `exists_writePiece`, `exists_write`: pieces and lines of pieces are written, and what they leave;
* `HoldsBlankReturn`: the texts of which a part may be lost;
* `layout_of_parse`: the pieces of an accepted text;
* `color_transparent_iff`: a rendered document leaves its text if and only if no piece is clipped.
-/

namespace YamlNavigator

open Text Yaml Ansi

/-! ### Written characters -/

/-- An accepted text holds acceptable characters only. -/
lemma isAcceptable_of_scan {s : List Char} {ls : List Lexeme} (h : Lexeme.scan s = .ok ls)
    {c : Char} (hc : c ∈ s) : isAcceptable c = true := by
  rw [Lexeme.scan] at h
  split at h
  · cases h
  · next hnone =>
      obtain ⟨i, hi⟩ := List.getElem?_of_mem hc
      have hmem : (c, i) ∈ s.zipIdx := List.mem_zipIdx_iff_getElem?.mpr hi
      have := List.find?_eq_none.mp hnone (c, i) hmem
      simpa using this

/-- A part of an accepted text without line feeds is written with no character hidden but carriage
returns. -/
lemma isShown_of_scan {s r : List Char} {ls : List Lexeme} (h : Lexeme.scan s = .ok ls)
    (hsub : r ⊆ s) (hline : '\n' ∉ r) : IsShown r where
  lineFeed := hline
  escape hc := absurd (isAcceptable_of_scan h (hsub hc)) (by decide)
  hidden c hc hhidden := by
    have haccept := isAcceptable_of_scan h (hsub hc)
    simp only [isHidden, Bool.or_eq_true, decide_eq_true_eq] at hhidden
    rcases hhidden with (((rfl | rfl) | rfl) | rfl) | rfl
    · exact absurd haccept (by decide)
    · exact absurd haccept (by decide)
    · exact absurd haccept (by decide)
    · exact absurd haccept (by decide)
    · rfl

/-! ### Palettes of settings -/

/-- A table that is made for keys has what is made for each of them. -/
lemma exists_lookup_of_mapM {κ α β ε : Type} [BEq κ] [LawfulBEq κ] {g : κ → Except ε α}
    {f : α → β} : ∀ {ks : List κ} {table : List (κ × β)},
      (ks.mapM fun k => (g k).map fun a => (k, f a)) = .ok table → ∀ k ∈ ks,
        ∃ a, g k = .ok a ∧ table.lookup k = some (f a)
  | [], _, _, k, hk => by cases hk
  | j :: ks, table, h, k, hk => by
      rw [List.mapM_cons] at h
      obtain ⟨p, hp, h⟩ := Except.bind_eq_ok_iff.mp h
      obtain ⟨rest, hrest, h⟩ := Except.bind_eq_ok_iff.mp h
      obtain ⟨a, ha, rfl⟩ := Except.map_eq_ok_iff.mp hp
      cases h
      by_cases heq : k = j
      · subst heq
        exact ⟨a, ha, List.lookup_cons_self⟩
      · obtain ⟨b, hb, hlookup⟩ :=
          exists_lookup_of_mapM hrest k ((List.mem_cons.mp hk).resolve_left heq)
        refine ⟨b, hb, ?_⟩
        rw [List.lookup_cons, beq_false_of_ne heq, hlookup]

/-- The palette of styles writes a text of a category through the style of the category. -/
lemma Palette.exists_style_of_ofStyles {mode : ColorMode} {styles : StyleSet}
    {linking : Style.Linking} {p : Palette} (h : Palette.ofStyles mode styles linking = .ok p)
    (c : Category) : ∃ s, Style.ofText (styles.get c) = .ok s ∧
      p c = fun text => cleanBlank (s.render mode.system text linking) := by
  rw [Palette.ofStyles] at h
  obtain ⟨table, htable, h⟩ := Except.bind_eq_ok_iff.mp h
  have hp := Except.pure_eq_ok_iff.mp h
  have hlookup : ∃ f, styled mode (styles.get c) linking = .ok f ∧
      table.lookup c = some fun text => cleanBlank (f text) :=
    exists_lookup_of_mapM htable c c.mem_all
  obtain ⟨f, hf, hlookup⟩ := hlookup
  obtain ⟨s, hs, rfl⟩ := Except.map_eq_ok_iff.mp hf
  refine ⟨s, hs, ?_⟩
  rw [← hp]
  show (table.lookup c).getD .ok = _
  rw [hlookup, Option.getD_some]

namespace Settings

variable (x : Settings)

/-- The styles of highlighted text, or of other text. -/
def stylesOf (highlighted : Bool) : StyleSet :=
  if highlighted then x.highlightedStyles else x.plainStyles

/-- No style for the text of a document has an address that the text leads to. -/
def HasNoLinks : Prop :=
  ∀ (highlighted : Bool) (c : Category) (s : Style),
    Style.ofText ((x.stylesOf highlighted).get c) = .ok s → s.link = none

/-- The styles for the text of a document write no links. -/
def WritesNoLinks (linking : Style.Linking) : Prop :=
  ∀ (highlighted : Bool) (c : Category) (s : Style),
    Style.ofText ((x.stylesOf highlighted).get c) = .ok s → ∀ text,
      s.render x.colorMode.system text linking = s.render x.colorMode.system text

/-- Without addresses there are no links. -/
lemma HasNoLinks.writes {x : Settings} (h : x.HasNoLinks) (linking : Style.Linking) :
    x.WritesNoLinks linking :=
  fun on c _ hs text => Style.render_of_link_eq_none (h on c _ hs) _ text linking

/-- Links that are left out are not written. -/
lemma writesNoLinks_bare : x.WritesNoLinks .bare := fun _ _ _ _ _ => rfl

/-- Are texts of a category written with codes? -/
def hasCodes (highlighted : Bool) (c : Category) : Bool :=
  match x.colorMode.system, Style.ofText ((x.stylesOf highlighted).get c) with
  | some system, .ok s => !(s.codes system).isEmpty
  | _, _ => false

/-- What is left of a piece when styles are taken away. -/
def keeps : Piece → List Char
  | .painted on (some c) s => if x.hasCodes on c then kept s else s
  | y => y.text

/-- Is a part of a piece lost? -/
def clips : Piece → Bool
  | .painted on (some c) s => x.hasCodes on c && isClipped s
  | _ => false

/-- All of a piece is left if and only if it is not clipped. -/
lemma keeps_eq_text_iff (y : Piece) : x.keeps y = y.text ↔ x.clips y = false := by
  rcases y with s | ⟨on, _ | c, s⟩
  · exact iff_of_true rfl rfl
  · exact iff_of_true rfl rfl
  · rw [keeps, clips, Piece.text]
    cases x.hasCodes on c with
    | false => exact iff_of_true rfl rfl
    | true => rw [if_pos rfl, Bool.true_and, kept_eq_self_iff]

/-- The end of a piece is left. -/
lemma keeps_suffix (y : Piece) : x.keeps y <:+ y.text := by
  rcases y with s | ⟨on, _ | c, s⟩
  · exact List.suffix_rfl
  · exact List.suffix_rfl
  · rw [keeps, Piece.text]
    split
    · exact kept_suffix s
    · exact List.suffix_rfl

end Settings

/-! ### Writing -/

/-- Computations on the items of a list all succeed if each does. -/
lemma exists_mapM_of_forall {α β ε : Type} {f : α → Except ε β} {R : α → β → Prop} :
    ∀ {as : List α}, (∀ a ∈ as, ∃ b, f a = .ok b ∧ R a b) →
      ∃ bs, as.mapM f = .ok bs ∧ List.Forall₂ R as bs
  | [], _ => ⟨[], rfl, .nil⟩
  | a :: as, h => by
      obtain ⟨b, hb, hR⟩ := h a List.mem_cons_self
      obtain ⟨bs, hbs, hRs⟩ := exists_mapM_of_forall fun a' ha => h a' (List.mem_cons_of_mem a ha)
      refine ⟨b :: bs, ?_, .cons hR hRs⟩
      rw [List.mapM_cons, hb, hbs]
      rfl

/-- A piece without hidden characters and line feeds. -/
def Piece.IsShown : Piece → Prop
  | .bare s => escape ∉ s
  | .painted _ _ s => s ≠ [] ∧ Ansi.IsShown s

section Writing

variable {x : Settings} {linking : Style.Linking} {p : Printer}

/-- The palettes of a printer of settings. -/
lemma exists_style_of_ofSettings (hp : Printer.ofSettings x true linking = .ok p) (on : Bool)
    (c : Category) : ∃ s, Style.ofText ((x.stylesOf on).get c) = .ok s ∧
      (if on then p.highlighted else p.plain) c =
        fun text => cleanBlank (s.render x.colorMode.system text linking) := by
  rw [Printer.ofSettings] at hp
  obtain ⟨plain, hplain, hp⟩ := Except.bind_eq_ok_iff.mp hp
  obtain ⟨highlighted, hhighlighted, hp⟩ := Except.bind_eq_ok_iff.mp hp
  obtain ⟨gutter, -, hp⟩ := Except.bind_eq_ok_iff.mp hp
  cases hp
  cases on with
  | false => exact Palette.exists_style_of_ofStyles hplain c
  | true => exact Palette.exists_style_of_ofStyles hhighlighted c

/-- Pieces are written, and leave what is kept of them. -/
theorem exists_writePiece (hlinks : x.WritesNoLinks linking)
    (hp : Printer.ofSettings x true linking = .ok p) {y : Piece} (hy : y.IsShown) :
    ∃ out, p.writePiece y = .ok out ∧ Leaves out.toList (x.keeps y) := by
  rcases y with s | ⟨on, _ | c, s⟩
  · refine ⟨_, rfl, ?_⟩
    rw [String.toList_ofList]
    exact .of_not_mem hy
  · refine ⟨String.ofList s, by cases on <;> rfl, ?_⟩
    rw [String.toList_ofList]
    exact .of_not_mem hy.2.escape
  · obtain ⟨hne, hshown⟩ := hy
    obtain ⟨style, hstyle, hpalette⟩ := exists_style_of_ofSettings hp on c
    have hwrite : p.writePiece (.painted on (some c) s) =
        cleanBlank (style.render x.colorMode.system (String.ofList s)) := by
      rw [Printer.writePiece, Palette.paint, hpalette]
      dsimp only
      rw [hlinks on c style hstyle]
    -- without codes the text is written as it is
    have hbare : ∃ out, cleanBlank (String.ofList s) = .ok out ∧ Leaves out.toList s := by
      refine ⟨_, cleanBlank_of_not_mem hshown.escape, ?_⟩
      rw [String.toList_ofList]
      exact .of_not_mem hshown.escape
    rw [hwrite, Settings.keeps, Settings.hasCodes, hstyle]
    cases x.colorMode.system with
    | none => exact hbare
    | some system =>
        dsimp only
        by_cases hcodes : (style.codes system).isEmpty = true
        · rw [if_neg (by rw [hcodes]; decide), Style.render_of_isEmpty hcodes]
          exact hbare
        · rw [if_pos (by simpa using hcodes),
            Style.render_eq_coded ((Bool.not_eq_true _).mp hcodes) hne]
          exact exists_cleanBlank_coded (Style.areShort_codes hstyle system) hshown

/-- Texts that follow one another leave what each of them leaves. -/
lemma leaves_join {α : Type} {f : α → List Char} {as : List α} {outs : List String}
    (h : List.Forall₂ (fun a out => Leaves out.toList (f a)) as outs) :
    Leaves (String.join outs).toList (as.flatMap f) := by
  induction h with
  | nil => exact .nil
  | cons hout _ ih =>
      rw [String.join_cons, String.toList_append, List.flatMap_cons]
      exact hout.append ih

/-- Lines with line feeds between them leave what the joined pieces leave. -/
lemma leaves_intercalate {layout : List (List Piece)} {outs : List String}
    (h : List.Forall₂ (fun l out => Leaves out.toList (l.flatMap x.keeps)) layout outs) :
    Leaves ("\n".intercalate outs).toList ((joinPieces layout).flatMap x.keeps) := by
  induction h with
  | nil => exact .nil
  | @cons l out ls outs hout hrest ih =>
      cases hrest with
      | nil =>
          rw [joinPieces, List.intercalate_singleton, String.intercalate_singleton]
          exact hout
      | cons hout' hrest =>
          have hfeed : Leaves "\n".toList ['\n'] := .of_not_mem (by decide)
          rw [joinPieces] at ih ⊢
          rw [String.intercalate_cons_cons, List.intercalate_cons_cons, String.toList_append,
            String.toList_append, List.flatMap_append, List.flatMap_append]
          exact (hout.append hfeed).append ih

/-- The pieces of lines are pieces of the joined lines. -/
lemma mem_joinPieces {y : Piece} {l : List Piece} : ∀ {layout : List (List Piece)}, l ∈ layout →
    y ∈ l → y ∈ joinPieces layout
  | [k], hl, hy => by
      rw [joinPieces, List.intercalate_singleton]
      exact List.mem_singleton.mp hl ▸ hy
  | k :: k' :: layout, hl, hy => by
      rw [joinPieces, List.intercalate_cons_cons]
      rcases List.mem_cons.mp hl with rfl | hl
      · exact List.mem_append_left _ (List.mem_append_left _ hy)
      · exact List.mem_append_right _ (mem_joinPieces hl hy)

/-- Lines of pieces are written, and leave what is kept of their pieces. -/
theorem exists_write (hlinks : x.WritesNoLinks linking)
    (hp : Printer.ofSettings x true linking = .ok p) {layout : List (List Piece)}
    (h : ∀ y ∈ joinPieces layout, y.IsShown) :
    ∃ out, p.write false layout = .ok out ∧
      Leaves out.toList ((joinPieces layout).flatMap x.keeps) := by
  have hline : ∀ l ∈ layout, ∃ out, p.writeLine l = .ok out ∧
      Leaves out.toList (l.flatMap x.keeps) := by
    intro l hl
    obtain ⟨outs, houts, hleaves⟩ := exists_mapM_of_forall fun y hy =>
      exists_writePiece hlinks hp (h y (mem_joinPieces hl hy))
    refine ⟨String.join outs, ?_, leaves_join hleaves⟩
    rw [Printer.writeLine, houts]
    rfl
  obtain ⟨outs, houts, hleaves⟩ := exists_mapM_of_forall hline
  refine ⟨"\n".intercalate outs, ?_, leaves_intercalate hleaves⟩
  rw [Printer.write, houts]
  rfl

end Writing

/-! ### Rendered documents -/

/-- Ends of texts, put together, are the texts if and only if each is. -/
lemma flatMap_eq_flatMap_iff {α β : Type} {f g : α → List β} (h : ∀ a, f a <:+ g a) :
    ∀ {as : List α}, as.flatMap f = as.flatMap g ↔ ∀ a ∈ as, f a = g a
  | [] => by simp
  | a :: as => by
      have ih : as.flatMap f = as.flatMap g ↔ _ := flatMap_eq_flatMap_iff h
      have hle : ∀ as : List α, (as.flatMap f).length ≤ (as.flatMap g).length := by
        intro as
        induction as with
        | nil => exact Nat.le_refl 0
        | cons a as ih =>
            have := (h a).length_le
            rw [List.flatMap_cons, List.flatMap_cons, List.length_append, List.length_append]
            omega
      rw [List.flatMap_cons, List.flatMap_cons, List.forall_mem_cons, ← ih]
      constructor
      · intro heq
        have hlength := congrArg List.length heq
        have := (h a).length_le
        have := hle as
        rw [List.length_append, List.length_append] at hlength
        have hself := (h a).eq_of_length (by omega)
        rw [hself] at heq
        exact ⟨hself, List.append_cancel_left heq⟩
      · rintro ⟨ha, has⟩
        rw [ha, has]

/-- Does a text hold a carriage return that is directly before a blank, but not before another line
break? -/
def HoldsBlankReturn (s : List Char) : Prop :=
  ∃ before c after, s = before ++ '\r' :: c :: after ∧ isBlank c = true ∧ c ≠ '\n' ∧ c ≠ '\r'

/-- A text of which a part is lost holds such a carriage return. -/
lemma holdsBlankReturn_of_isClipped {s : List Char} (hline : '\n' ∉ s) (h : isClipped s = true) :
    HoldsBlankReturn s := by
  simp only [isClipped, Bool.and_eq_true, List.contains_iff_mem, Bool.not_eq_true',
    List.isEmpty_eq_false_iff, isBlankText, List.all_eq_true] at h
  obtain ⟨⟨hreturn, hne⟩, hblank⟩ := h
  have happend : s.rdropWhile (· != '\r') ++ behindReturn s = s := List.rdropWhile_append_rtakeWhile
  -- the last character in front of the part behind the last return is that return
  have hfront : s.rdropWhile (· != '\r') ≠ [] := by
    intro hnil
    rw [hnil, List.nil_append] at happend
    rw [← happend] at hreturn
    exact not_mem_behindReturn s hreturn
  have hlast : (s.rdropWhile (· != '\r')).getLast hfront = '\r' := by
    simpa using List.rdropWhile_last_not _ s hfront
  have hsplit := List.dropLast_append_getLast hfront
  rw [hlast] at hsplit
  obtain ⟨c, after, hcons⟩ := List.exists_cons_of_ne_nil hne
  have hc : c ∈ behindReturn s := hcons ▸ List.mem_cons_self
  refine ⟨(s.rdropWhile (· != '\r')).dropLast, c, after, ?_, hblank c hc, ?_, ?_⟩
  · rw [← hcons, ← List.singleton_append, ← List.append_assoc, hsplit, happend]
  · rintro rfl
    exact hline ((behindReturn_suffix s).subset hc)
  · rintro rfl
    exact not_mem_behindReturn s hc

/-- A text holds such a carriage return if a part of it does. -/
lemma HoldsBlankReturn.mono {s t : List Char} (h : HoldsBlankReturn s) (hst : s <:+: t) :
    HoldsBlankReturn t := by
  obtain ⟨before, c, after, rfl, hc⟩ := h
  obtain ⟨front, back, rfl⟩ := hst
  exact ⟨front ++ before, c, after ++ back, by simp, hc⟩

/-- The text of a piece is a part of the text of all. -/
lemma Piece.text_infix {y : Piece} {ps : List Piece} (hy : y ∈ ps) :
    y.text <:+: ps.flatMap Piece.text := by
  obtain ⟨before, after, rfl⟩ := List.append_of_mem hy
  refine ⟨before.flatMap Piece.text, after.flatMap Piece.text, ?_⟩
  rw [List.flatMap_append, List.flatMap_cons, List.append_assoc]

/-- Pieces of cuts are painted without line feeds, and not empty. -/
lemma Stream.CutsOf.painted {s : Stream} {m : Matches} {cuts : List (List Piece)}
    (h : s.CutsOf m cuts) {on : Bool} {c : Option Category} {r : List Char}
    (hr : .painted on c r ∈ cuts.flatten) : r ≠ [] ∧ '\n' ∉ r := by
  rw [CutsOf] at h
  generalize s.tokens.toList = ts at h
  induction h with
  | nil => cases hr
  | cons hcut _ ih =>
      obtain ⟨_, _, -, -, hcut⟩ := hcut
      rw [List.flatten_cons, List.mem_append] at hr
      rcases hr with hr | hr
      · exact (hcut.painted hr).2.2
      · exact ih hr

/-- The pieces of the lines of an accepted text hold the text, and are written with no character
hidden but carriage returns. -/
lemma layout_of_parse {source : String} {d : Parsed} (h : parse source = .ok d) (m : Matches) :
    (d.tokens.layout m).2 = none ∧
      (joinPieces (d.tokens.layout m).1).flatMap Piece.text = source.toList ∧
      ∀ y ∈ joinPieces (d.tokens.layout m).1, y.IsShown := by
  obtain ⟨ls, es, rest, hls, -, -, htokens, -⟩ := exists_stages_of_parse h
  obtain ⟨cuts, marked, hmarked, hcuts, hpieces⟩ :=
    Stream.exists_cuts d.isIndexed m d.tokens.tokens.toList fun _ ht => ht
  have hcuts' : d.tokens.CutsOf m cuts := hcuts
  have htext : cuts.flatten.flatMap Piece.text = source.toList := by
    have hjoin := hcuts'.text_eq
    rw [Piece.join_shown, htokens, text_ofTiles, text_tiles (cover_of_scan hls)] at hjoin
    exact String.ofList_injective hjoin
  rw [Stream.layout, hmarked]
  dsimp only
  rw [hpieces]
  refine ⟨rfl, htext, fun y hy => ?_⟩
  have hsub : y.text ⊆ source.toList := by
    rw [← htext]
    exact (Piece.text_infix hy).subset
  cases y with
  | bare s => exact fun hc => absurd (isAcceptable_of_scan hls (hsub hc)) (by decide)
  | painted on c s =>
      obtain ⟨hne, hline⟩ := hcuts'.painted hy
      exact ⟨hne, isShown_of_scan hls hsub hline⟩

/-- **Colour is transparent but for carriage returns in front of blanks.** A document that is read
is rendered in the colours of all settings without links, for every query. When styles are taken
away, what is left of the text is what is kept of each piece, and this is the source if and only if
no piece is clipped; so it is if no carriage return of the source is directly before a blank other
than those of line breaks. -/
theorem color_transparent_iff {source : String} {d : Parsed} (h : parse source = .ok d)
    {x : Settings} (hlinks : x.HasNoLinks) {linking : Style.Linking} {p : Printer}
    (hp : Printer.ofSettings x true linking = .ok p) (query : String) :
    let pieces := joinPieces (d.tokens.layout (d.documents.query query)).1
    ∃ text nodes, p.renderQuery d query false = .ok (text, nodes) ∧
      pieces.flatMap Piece.text = source.toList ∧
      stripSelections text.toList = pieces.flatMap x.keeps ∧
      (stripSelections text.toList = source.toList ↔ ∀ y ∈ pieces, x.clips y = false) ∧
      (¬HoldsBlankReturn source.toList → stripSelections text.toList = source.toList) := by
  intro pieces
  obtain ⟨hmissing, htext, hshown⟩ := layout_of_parse h (d.documents.query query)
  have hrender : ∃ text nodes, p.renderQuery d query false = .ok (text, nodes) ∧
      stripSelections text.toList = pieces.flatMap x.keeps := by
    obtain ⟨out, hout, hleaves⟩ := exists_write (hlinks.writes linking) hp hshown
    rw [Printer.renderQuery, Printer.render]
    split
    · next hsize =>
        have hnil : d.tokens.tokens.toList = [] := by simpa [Stream.size] using hsize
        have hpieces : pieces = [] := by
          show joinPieces (Stream.layout _ _).1 = []
          rw [Stream.layout, hnil]
          rfl
        exact ⟨"", [], rfl, by rw [hpieces]; rfl⟩
    · dsimp only
      rw [hout, hmissing]
      exact ⟨out, _, rfl, hleaves.strip_eq⟩
  obtain ⟨text, nodes, hrender, hstrip⟩ := hrender
  have hiff : stripSelections text.toList = source.toList ↔ ∀ y ∈ pieces, x.clips y = false := by
    rw [hstrip, ← htext, flatMap_eq_flatMap_iff x.keeps_suffix]
    exact forall₂_congr fun y _ => x.keeps_eq_text_iff y
  refine ⟨text, nodes, hrender, htext, hstrip, hiff, fun hreturn => hiff.mpr fun y hy => ?_⟩
  by_contra hclips
  rcases y with s | ⟨on, _ | c, s⟩
  · exact hclips rfl
  · exact hclips rfl
  · rw [Settings.clips, Bool.not_eq_false, Bool.and_eq_true] at hclips
    have hline := (hshown _ hy).2.lineFeed
    refine hreturn ((holdsBlankReturn_of_isClipped hline hclips.2).mono ?_)
    rw [← htext]
    exact Piece.text_infix hy

/-- The default settings have no links. -/
lemma hasNoLinks_default : Settings.HasNoLinks {} := by
  have hall : ∀ on, ∀ c ∈ Category.all,
      (Style.ofText ((Settings.stylesOf {} on).get c)).toOption.all fun s => s.link.isNone := by
    decide +kernel
  intro on c s hs
  have hnone := hall on c c.mem_all
  rw [hs] at hnone
  exact Option.isNone_iff_eq_none.mp hnone

/-- A quoted scalar with a carriage return in front of a letter, on a line that ends in a carriage
return and a line feed, in the default colours. -/
theorem color_transparent_iff_quotedReturn :
    ∃ d p, parse "a: 'x\ry' # c\r\n" = .ok d ∧ Settings.HasNoLinks {} ∧
      Printer.ofSettings {} true = .ok p ∧
      ∃ text nodes, p.renderQuery d "a" false = .ok (text, nodes) ∧ escape ∈ text.toList ∧
        stripSelections text.toList = "a: 'x\ry' # c\r\n".toList := by
  obtain ⟨d, hd, hcheck⟩ := Except.exists_ok_of_any (x := parse "a: 'x\ry' # c\r\n")
    (p := fun d =>
      ((joinPieces (d.tokens.layout (d.documents.query "a")).1).all fun y =>
        !(({} : Settings).clips y)) &&
      (Printer.ofSettings {} true).toOption.any fun p =>
        (p.renderQuery d "a" false).toOption.any fun r => r.1.toList.contains escape)
    (by decide +kernel)
  obtain ⟨hclips, hcolor⟩ := (Bool.and_eq_true _ _).mp hcheck
  obtain ⟨p, hp, hcolor⟩ := Except.exists_ok_of_any hcolor
  obtain ⟨⟨text, nodes⟩, hrender, hcolor⟩ := Except.exists_ok_of_any hcolor
  obtain ⟨text', nodes', hrender', -, -, hiff, -⟩ :=
    color_transparent_iff hd hasNoLinks_default hp "a"
  obtain ⟨rfl, rfl⟩ : text' = text ∧ nodes' = nodes := by
    rw [hrender] at hrender'
    cases hrender'
    exact ⟨rfl, rfl⟩
  refine ⟨d, p, hd, hasNoLinks_default, hp, _, _, hrender, List.contains_iff_mem.mp hcolor,
    hiff.mpr fun y hy => ?_⟩
  simpa using List.all_eq_true.mp hclips y hy

/-- Of a quoted scalar that has two blanks behind a carriage return the line up to that return is
lost. -/
theorem color_clips_return :
    ∃ d p, parse "\"a\r  \n b\"" = .ok d ∧ Printer.ofSettings {} true = .ok p ∧
      ∃ text nodes, p.renderQuery d "x" false = .ok (text, nodes) ∧
        stripSelections text.toList = "  \n b\"".toList := by
  obtain ⟨d, hd, hcheck⟩ := Except.exists_ok_of_any (x := parse "\"a\r  \n b\"") (p := fun d =>
    (Printer.ofSettings {} true).toOption.any fun p =>
      (p.renderQuery d "x" false).toOption.any fun r =>
        stripSelections r.1.toList == "  \n b\"".toList) (by decide +kernel)
  obtain ⟨p, hp, hcheck⟩ := Except.exists_ok_of_any hcheck
  obtain ⟨⟨text, nodes⟩, hrender, hcheck⟩ := Except.exists_ok_of_any hcheck
  exact ⟨d, p, hd, hp, text, nodes, hrender, eq_of_beq hcheck⟩

end YamlNavigator
