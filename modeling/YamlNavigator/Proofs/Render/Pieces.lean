import Mathlib.Data.List.Forall2
import YamlNavigator.Proofs.Outcome
import YamlNavigator.Render.Printer

/-!
Rendered text is made of the pieces into which the texts of the tokens are cut.

* `Piece.emit`, `Piece.shown`: what is written for a piece by palettes of functions, and its text;
* `SparesReturns`: no painted piece takes the carriage return of a line break;
* `IsCut`: how the text of one token is cut, and `isCut_tokenLines`, that it is cut that way;
* `joinPieces_layoutLines`: the lines of a stream are the pieces of its tokens in their order;
* `Category.between`, `Stream.categorize_eq`: the category of a token in an indexed stream;
* `Stream.CutsOf`: cuts of the texts of all tokens of a stream;
* `render_pieces`: a rendered stream is the concatenation of the pieces of its tokens.
-/

namespace YamlNavigator

open Text

/-! ### Pieces -/

namespace Piece

/-- The line feed between two lines. -/
def lineFeed : Piece := .bare ['\n']

/-- The text of a piece as it stands. -/
def shown (x : Piece) : String := String.ofList x.text

/-- What is written for a piece by two palettes of functions, `f` for plain and `g` for highlighted
text. -/
def emit (f g : Category → String → String) : Piece → String
  | .bare s => String.ofList s
  | .painted _ none s => String.ofList s
  | .painted on (some c) s => (if on then g else f) c (String.ofList s)

/-- Palettes that change nothing write the text of a piece. -/
lemma emit_id (x : Piece) : x.emit (fun _ s => s) (fun _ s => s) = x.shown := by
  rcases x with s | ⟨on, _ | c, s⟩
  · rfl
  · rfl
  · cases on <;> rfl

/-- The texts of pieces, put together. -/
lemma join_shown (ps : List Piece) :
    String.join (ps.map shown) = String.ofList (ps.flatMap text) := by
  induction ps with
  | nil => rfl
  | cons x ps ih =>
      rw [List.map_cons, String.join_cons, ih, List.flatMap_cons, String.ofList_append]
      rfl

end Piece

/-- No painted piece ends in the carriage return of a line break, that is, in one directly before a
line feed; `tail` is the text behind the pieces. -/
def SparesReturns (tail : List Char) (ps : List Piece) : Prop :=
  ∀ before on category s after, ps = before ++ .painted on category s :: after →
    s.getLast? = some '\r' → (after.flatMap Piece.text ++ tail).head? ≠ some '\n'

/-- How the text of a token is cut: into consecutive pieces; those that are painted share the state
and the category of the token, are not empty, and hold no part of a line break. Of a token that is
not highlighted only line breaks are left bare. -/
structure IsCut (highlight : Highlight) (category : Option Category) (origin : List Char)
    (ps : List Piece) : Prop where
  text_eq : ps.flatMap Piece.text = origin
  painted : ∀ {on c s}, .painted on c s ∈ ps →
    on = highlight.isOn ∧ c = category ∧ s ≠ [] ∧ '\n' ∉ s
  spares : SparesReturns [] ps
  bare : highlight.isOn = false → ∀ {s}, .bare s ∈ ps → ∀ c ∈ s, c = '\n' ∨ c = '\r'

/-! ### The pieces of a line -/

/-- Pieces that follow one another spare returns if each part does in its place. -/
lemma SparesReturns.append {tail : List Char} {ps qs : List Piece}
    (hp : SparesReturns (qs.flatMap Piece.text ++ tail) ps) (hq : SparesReturns tail qs) :
    SparesReturns tail (ps ++ qs) := by
  intro before on category s after heq hs
  rcases List.append_eq_append_iff.mp heq with ⟨mid, rfl, hmid⟩ | ⟨mid, rfl, hmid⟩
  · exact hq mid on category s after hmid hs
  · rcases mid with _ | ⟨x, mid⟩
    · exact hq [] on category s after hmid.symm hs
    · rw [List.cons_append, List.cons.injEq] at hmid
      obtain ⟨rfl, rfl⟩ := hmid
      rw [List.flatMap_append, List.append_assoc]
      exact hp before on category s mid rfl hs

/-- A bare piece paints nothing. -/
lemma sparesReturns_bare (tail s : List Char) : SparesReturns tail [.bare s] := by
  intro before on category r after heq
  rcases before with _ | ⟨x, before⟩ <;> simp at heq

/-- A painted piece without a carriage return at its end, or without a line feed behind it, spares
returns. -/
lemma sparesReturns_painted {tail s : List Char} {on : Bool} {category : Option Category}
    (h : s.getLast? = some '\r' → tail.head? ≠ some '\n') :
    SparesReturns tail [.painted on category s] := by
  intro before on' category' r after heq hr
  rcases before with _ | ⟨x, before⟩
  · simp only [List.nil_append, List.cons.injEq, Piece.painted.injEq] at heq
    obtain ⟨⟨rfl, rfl, rfl⟩, rfl⟩ := heq
    exact h hr
  · simp at heq

/-- The carriage return that is cut off and the line before it are the line. -/
lemma splitReturn_append (broken : Bool) (line : List Char) :
    (splitReturn broken line).1 ++ (splitReturn broken line).2 = line := by
  rw [splitReturn]
  split
  · next h =>
      rw [Bool.and_eq_true, beq_iff_eq] at h
      obtain ⟨front, rfl⟩ := List.getLast?_eq_some_iff.mp h.2
      simp
  · exact List.append_nil line

/-- Only a carriage return in front of a break is cut off, and then always. -/
lemma splitReturn_cases (broken : Bool) (line : List Char) :
    (splitReturn broken line).2 = ['\r'] ∨
      ((splitReturn broken line).2 = [] ∧
        (broken = true → (splitReturn broken line).1.getLast? ≠ some '\r')) := by
  rw [splitReturn]
  split
  · exact .inl rfl
  · next h =>
      refine .inr ⟨rfl, fun hb hr => h ?_⟩
      rw [hb, hr]
      rfl

/-- The part of a line that stays unpainted at its front. -/
def unpaintedWidth (t : Marked) (continued : Bool) (text : List Char) : Nat :=
  clampBound text.length
    (if continued then
      (t.ownIndent.map fun i => min i ((text.takeWhile (· = ' ')).length : Int)).getD 0
    else 0)

/-- The pieces of a line: its front, which stays bare, its body, and the carriage return. -/
lemma cutLine_eq (t : Marked) (continued broken : Bool) (line : List Char) :
    cutLine t continued broken line =
      let (text, ending) := splitReturn broken line
      let width := unpaintedWidth t continued text
      [.bare (text.take width)] ++
        (if (text.drop width).isEmpty then []
        else [.painted t.highlight.isOn t.category (text.drop width)]) ++ [.bare ending] := rfl

/-- A line of a token that is not highlighted has no bare front. -/
lemma unpaintedWidth_of_off {t : Marked} (h : t.highlight.isOn = false) (continued : Bool)
    (text : List Char) : unpaintedWidth t continued text = 0 := by
  have hnone : t.ownIndent = none := by
    rw [Marked.ownIndent, h]
    rfl
  rw [unpaintedWidth, hnone]
  cases continued <;> simp [clampBound]

variable {t : Marked} {continued broken : Bool} {line : List Char}

/-- The pieces of a line hold the line. -/
lemma text_cutLine : (cutLine t continued broken line).flatMap Piece.text = line := by
  have hline := splitReturn_append broken line
  rw [cutLine_eq]
  dsimp only
  generalize unpaintedWidth t continued (splitReturn broken line).1 = width
  have hbody : (if ((splitReturn broken line).1.drop width).isEmpty then []
      else [Piece.painted t.highlight.isOn t.category ((splitReturn broken line).1.drop width)]
      ).flatMap Piece.text = (splitReturn broken line).1.drop width := by
    split
    · next h => simpa using (List.isEmpty_iff.mp h).symm
    · exact List.append_nil _
  rw [List.flatMap_append, List.flatMap_append, hbody]
  simp only [List.flatMap_cons, List.flatMap_nil, Piece.text, List.append_nil,
    List.take_append_drop, hline]

/-- What is painted of a line is a part of it, in the state and the category of the token. -/
lemma painted_of_mem_cutLine {on : Bool} {c : Option Category} {s : List Char}
    (h : .painted on c s ∈ cutLine t continued broken line) :
    on = t.highlight.isOn ∧ c = t.category ∧ s ≠ [] ∧ s ⊆ line := by
  have hline := splitReturn_append broken line
  rw [cutLine_eq] at h
  dsimp only at h
  split at h
  · simp at h
  · next hne =>
      simp only [List.mem_append, List.mem_singleton, reduceCtorEq, false_or, or_false,
        Piece.painted.injEq] at h
      obtain ⟨rfl, rfl, rfl⟩ := h
      refine ⟨rfl, rfl, by simpa using hne, fun c hc => ?_⟩
      rw [← hline]
      exact List.mem_append_left _ (List.mem_of_mem_drop hc)

/-- Of a line of a token that is not highlighted only a carriage return is left bare. -/
lemma bare_of_mem_cutLine (hoff : t.highlight.isOn = false) {s : List Char}
    (h : .bare s ∈ cutLine t continued broken line) : ∀ c ∈ s, c = '\n' ∨ c = '\r' := by
  rw [cutLine_eq] at h
  dsimp only at h
  rw [unpaintedWidth_of_off hoff] at h
  have hs : s = [] ∨ s = (splitReturn broken line).2 := by
    split at h <;> simpa using h
  intro c hc
  rcases hs with rfl | rfl
  · cases hc
  · rcases splitReturn_cases broken line with heq | ⟨heq, -⟩
    · rw [heq] at hc
      exact .inr (List.mem_singleton.mp hc)
    · rw [heq] at hc
      cases hc

/-- The pieces of a line spare returns if the line is not broken and nothing follows, or if it is
broken. -/
lemma sparesReturns_cutLine {tail : List Char} (h : broken = false → tail = []) :
    SparesReturns tail (cutLine t continued broken line) := by
  rw [cutLine_eq]
  dsimp only
  generalize unpaintedWidth t continued (splitReturn broken line).1 = width
  refine SparesReturns.append (SparesReturns.append (sparesReturns_bare _ _) ?_)
    (sparesReturns_bare _ _)
  split
  · intro before on category s after heq
    simp at heq
  · refine sparesReturns_painted fun hs => ?_
    simp only [List.flatMap_cons, List.flatMap_nil, Piece.text, List.append_nil]
    rcases splitReturn_cases broken line with heq | ⟨heq, hlast⟩
    · simp [heq]
    · cases broken with
      | false => simp [heq, h rfl]
      | true =>
          -- the body ends where the line ends
          refine absurd ?_ (hlast rfl)
          rw [List.getLast?_drop] at hs
          split at hs
          · cases hs
          · exact hs

/-! ### The pieces of a token -/

/-- The lines of a token behind its first one are cut like that one. -/
lemma continuedLines_cons (t : Marked) (l : List Char) (ls : List (List Char)) :
    continuedLines t (l :: ls) = cutLine t true (!ls.isEmpty) l :: continuedLines t ls := by
  cases ls <;> rfl

/-- The pieces of lines, with a line feed between neighbours. -/
def joinPieces (ls : List (List Piece)) : List Piece := [Piece.lineFeed].intercalate ls

/-- The last line of a text is cut. -/
lemma isCut_lastLine (h : '\n' ∉ line) :
    IsCut t.highlight t.category line (cutLine t continued false line) where
  text_eq := text_cutLine
  painted hmem := by
    obtain ⟨hon, hc, hne, hsub⟩ := painted_of_mem_cutLine hmem
    exact ⟨hon, hc, hne, fun hn => h (hsub hn)⟩
  spares := sparesReturns_cutLine fun _ => rfl
  bare hoff _ hmem := bare_of_mem_cutLine hoff hmem

/-- A line is cut in front of a text that is cut. -/
lemma IsCut.cons_line {rest : List Char} {ps : List Piece} (h : '\n' ∉ line)
    (hps : IsCut t.highlight t.category rest ps) :
    IsCut t.highlight t.category (line ++ '\n' :: rest)
      (cutLine t continued true line ++ Piece.lineFeed :: ps) where
  text_eq := by
    rw [List.flatMap_append, text_cutLine, List.flatMap_cons, hps.text_eq]
    rfl
  painted hmem := by
    rcases List.mem_append.mp hmem with hmem | hmem
    · obtain ⟨hon, hc, hne, hsub⟩ := painted_of_mem_cutLine hmem
      exact ⟨hon, hc, hne, fun hn => h (hsub hn)⟩
    · rcases List.mem_cons.mp hmem with heq | hmem
      · cases heq
      · exact hps.painted hmem
  spares := by
    refine SparesReturns.append (sparesReturns_cutLine fun hb => by cases hb) ?_
    exact (sparesReturns_bare _ _).append hps.spares
  bare hoff s hmem := by
    rcases List.mem_append.mp hmem with hmem | hmem
    · exact bare_of_mem_cutLine hoff hmem
    · rcases List.mem_cons.mp hmem with heq | hmem
      · cases heq
        simp
      · exact hps.bare hoff hmem

/-- Lines without line feeds are cut as the text that they make. -/
lemma isCut_joinPieces : ∀ (continued : Bool) (l : List Char) (ls : List (List Char)),
    (∀ k ∈ l :: ls, '\n' ∉ k) →
      IsCut t.highlight t.category (joinLines (l :: ls))
        (joinPieces (cutLine t continued (!ls.isEmpty) l :: continuedLines t ls))
  | continued, l, [], h => by
      rw [continuedLines, joinPieces, List.intercalate_singleton]
      exact isCut_lastLine (h l List.mem_cons_self)
  | continued, l, k :: ks, h => by
      have ih := isCut_joinPieces true k ks fun j hj => h j (List.mem_cons_of_mem l hj)
      rw [continuedLines_cons, joinPieces, List.intercalate_cons_cons, List.append_assoc]
      rw [joinLines, joinWith, List.append_assoc]
      exact IsCut.cons_line (h l List.mem_cons_self) ih

/-- The text of a token is cut into the pieces of its lines. -/
theorem isCut_tokenLines (t : Marked) :
    IsCut t.highlight t.category t.origin (joinPieces (tokenLines t)) := by
  have hjoin : joinLines (lines t.origin) = t.origin := joinWith_splitOn '\n' t.origin
  have hmem : ∀ k ∈ lines t.origin, '\n' ∉ k := fun k hk => not_mem_of_mem_splitOn hk
  rw [tokenLines]
  cases hl : lines t.origin with
  | nil => exact absurd hl (splitOn_ne_nil '\n' t.origin)
  | cons l ls =>
      rw [hl] at hjoin hmem
      have h := isCut_joinPieces (t := t) false l ls hmem
      rwa [hjoin] at h

/-- The carriage return of a line break is left bare, and so is the break. -/
example : joinPieces (tokenLines ⟨.off, some .string, ['a', '\r', '\n', ' ', 'b', '\r']⟩) =
    [.bare [], .painted false (some .string) ['a'], .bare ['\r'], .lineFeed, .bare [],
      .painted false (some .string) [' ', 'b', '\r'], .bare []] := rfl

/-! ### The lines of a stream -/

/-- Lines glued to others have the pieces of both. -/
lemma joinPieces_glueLines : ∀ {ls ms : List (List Piece)}, ls ≠ [] → ms ≠ [] →
    joinPieces (glueLines ls ms) = joinPieces ls ++ joinPieces ms
  | [], _, h, _ => absurd rfl h
  | [_], [], _, h => absurd rfl h
  | [l], [m], _, _ => by simp [glueLines, joinPieces]
  | [l], m :: n :: ms, _, _ => by
      rw [glueLines, joinPieces, joinPieces, joinPieces, List.intercalate_cons_cons,
        List.intercalate_cons_cons, List.intercalate_singleton]
      simp only [List.append_assoc]
  | l :: k :: ls, ms, _, hms => by
      have ih := joinPieces_glueLines (List.cons_ne_nil k ls) hms
      have hne : glueLines (k :: ls) ms ≠ [] := by
        cases ls <;> cases ms <;> simp_all [glueLines]
      rw [glueLines, joinPieces, List.intercalate_cons_of_ne_nil hne, joinPieces,
        List.intercalate_cons_cons]
      rw [joinPieces] at ih
      rw [ih, joinPieces]
      simp only [List.append_assoc]

/-- A token has at least one line. -/
lemma tokenLines_ne_nil (t : Marked) : tokenLines t ≠ [] := by
  rw [tokenLines]
  split
  · next h => exact absurd h (splitOn_ne_nil '\n' t.origin)
  · simp

/-- Tokens have at least one line. -/
lemma layoutLines_ne_nil : ∀ ts : List Marked, layoutLines ts ≠ []
  | [] => by simp [layoutLines]
  | t :: ts => by
      have ht := tokenLines_ne_nil t
      have hts := layoutLines_ne_nil ts
      rw [layoutLines]
      rcases hl : tokenLines t with _ | ⟨l, _ | ⟨k, ls⟩⟩
      · exact absurd hl ht
      · cases hm : layoutLines ts <;> simp [glueLines]
      · simp [glueLines]

/-- The lines of tokens that follow one another have the pieces of the tokens in their order. -/
theorem joinPieces_layoutLines (ts : List Marked) :
    joinPieces (layoutLines ts) = ts.flatMap fun t => joinPieces (tokenLines t) := by
  induction ts with
  | nil => rfl
  | cons t ts ih =>
      rw [layoutLines, joinPieces_glueLines (tokenLines_ne_nil t) (layoutLines_ne_nil ts), ih,
        List.flatMap_cons]

/-! ### Writing -/

/-- The printer of two palettes of functions. -/
def Printer.ofFunctions (f g : Category → String → String) (gutter : String → String)
    (separator : String) : Printer :=
  ⟨Palette.ofFunctions f, Palette.ofFunctions g, gutter, separator⟩

section Writing

variable (f g : Category → String → String) (gutter : String → String) (separator : String)

/-- What a printer of functions writes for a piece. -/
lemma writePiece_ofFunctions (x : Piece) :
    (Printer.ofFunctions f g gutter separator).writePiece x = pure (x.emit f g) := by
  rcases x with s | ⟨on, _ | c, s⟩
  · rfl
  · rfl
  · cases on <;> rfl

/-- What a printer of functions writes for a line. -/
lemma writeLine_ofFunctions (line : List Piece) :
    (Printer.ofFunctions f g gutter separator).writeLine line =
      pure (String.join (line.map (Piece.emit f g))) := by
  have hpieces : (Printer.ofFunctions f g gutter separator).writePiece =
      fun x => pure (x.emit f g) := funext (writePiece_ofFunctions f g gutter separator)
  rw [Printer.writeLine, hpieces, List.mapM_pure]
  rfl

/-- Texts of lines with line feeds between them are the texts of the joined pieces. -/
lemma intercalate_lines (layout : List (List Piece)) :
    "\n".intercalate (layout.map fun l => String.join (l.map (Piece.emit f g))) =
      String.join ((joinPieces layout).map (Piece.emit f g)) := by
  induction layout with
  | nil => simp [joinPieces]
  | cons l ls ih =>
      cases ls with
      | nil => simp [joinPieces]
      | cons k ls =>
          have hfeed : Piece.emit f g Piece.lineFeed = "\n" := rfl
          rw [List.map_cons] at ih ⊢
          rw [List.map_cons, String.intercalate_cons_cons, ih, joinPieces, joinPieces,
            List.intercalate_cons_cons, List.map_append, List.map_append, String.join_append,
            String.join_append, List.map_singleton, hfeed]
          rfl

/-- What a printer of functions writes for lines without numbers. -/
lemma write_ofFunctions (layout : List (List Piece)) :
    (Printer.ofFunctions f g gutter separator).write false layout =
      .ok (String.join ((joinPieces layout).map (Piece.emit f g))) := by
  have hlines : (Printer.ofFunctions f g gutter separator).writeLine =
      fun l => pure (String.join (l.map (Piece.emit f g))) :=
    funext (writeLine_ofFunctions f g gutter separator)
  rw [Printer.write, hlines, List.mapM_pure, ← intercalate_lines]
  rfl

end Writing

/-! ### Rendered streams -/

/-- The category of a token of a kind between its neighbours. -/
def Category.between (before : Option TokenKind) (kind : TokenKind) (after : Option TokenKind) :
    Option Category :=
  if kind.isIndicator then some .indicator
  else if kind = .comment then none
  else
    match before with
    | some .anchor => some .anchor
    | some .reference => some .reference
    | _ => if after = some .mappingValueIndicator then some .mapKey else Category.ofKind kind

namespace Stream

variable {s : Stream} {t : Token}

/-- In an indexed stream a token stands at its index. -/
lemma exists_index (hs : s.IsIndexed) (ht : t ∈ s.tokens.toList) :
    ∃ i : Nat, s.tokens[i]? = some t ∧ t.index = i := by
  obtain ⟨i, hi⟩ := List.getElem?_of_mem ht
  rw [Array.getElem?_toList] at hi
  exact ⟨i, hi, hs i t hi⟩

/-- In an indexed stream the category of a token depends on its kind and those of its neighbours. -/
lemma categorize_eq (hs : s.IsIndexed) {i : Nat} (ht : s.tokens[i]? = some t) :
    s.categorize t = .ok (Category.between
      (if i = 0 then none else s.tokens[i - 1]?.map Token.kind) t.kind
      (s.tokens[i + 1]?.map Token.kind)) := by
  have hprevious : s.previousKind t =
      .ok (if i = 0 then none else s.tokens[i - 1]?.map Token.kind) := by
    rw [previousKind, previous_of_isIndexed hs ht]
    split <;> rfl
  have hnext : s.nextKind t = .ok (s.tokens[i + 1]?.map Token.kind) := by
    rw [nextKind, next_of_isIndexed hs ht]
    rfl
  rw [categorize, hprevious, hnext]
  unfold Category.between
  split
  · rfl
  · split
    · rfl
    · generalize (if i = 0 then none else s.tokens[i - 1]?.map Token.kind) = before
      generalize s.tokens[i + 1]?.map Token.kind = after
      show (match before with
        | some .anchor => _
        | some .reference => _
        | _ => _) = _
      split
      · rfl
      · rfl
      · show (if after = some .mappingValueIndicator then _ else _) = _
        split <;> rfl

/-- In an indexed stream the category and the state of every token are found. -/
lemma exists_mark (hs : s.IsIndexed) (m : Matches) (ht : t ∈ s.tokens.toList) :
    ∃ h c, s.highlight m t = .ok h ∧ s.categorize t = .ok c := by
  obtain ⟨i, hi, -⟩ := exists_index hs ht
  have hnext := next_of_isIndexed hs hi
  have hstate : ∃ h, s.highlight m t = .ok h := by
    rw [highlight]
    split
    · exact ⟨_, rfl⟩
    · split
      · rw [hnext]
        simp only [bind, Except.bind, pure, Except.pure]
        split
        · split <;> exact ⟨_, rfl⟩
        · exact ⟨_, rfl⟩
      · exact ⟨_, rfl⟩
  obtain ⟨h, hh⟩ := hstate
  exact ⟨h, _, hh, categorize_eq hs hi⟩

/-- A cut of the text of a token, in the state and the category that the token has in a stream. -/
def IsCutOf (s : Stream) (m : Matches) (t : Token) (ps : List Piece) : Prop :=
  ∃ h c, s.highlight m t = .ok h ∧ s.categorize t = .ok c ∧ IsCut h c t.origin.toList ps

/-- Cuts of the texts of all tokens of a stream, in their order. -/
def CutsOf (s : Stream) (m : Matches) (cuts : List (List Piece)) : Prop :=
  List.Forall₂ (s.IsCutOf m) s.tokens.toList cuts

/-- A text that is empty is cut into no pieces. -/
lemma isCut_nil (h : Highlight) (c : Option Category) : IsCut h c [] [] where
  text_eq := rfl
  painted hmem := by cases hmem
  spares before on category r after heq := by simp at heq
  bare _ _ hmem := by cases hmem

/-- Tokens of an indexed stream are all marked, and their lines have the pieces of cuts of their
texts. -/
lemma exists_cuts (hs : s.IsIndexed) (m : Matches) : ∀ ts : List Token,
    (∀ t ∈ ts, t ∈ s.tokens.toList) →
      ∃ cuts marked, s.markAll m (ts.filter fun t => !t.origin.isEmpty) = (marked, none) ∧
        List.Forall₂ (s.IsCutOf m) ts cuts ∧ joinPieces (layoutLines marked) = cuts.flatten
  | [], _ => ⟨[], [], rfl, .nil, rfl⟩
  | t :: ts, hmem => by
      obtain ⟨cuts, marked, hmarked, hcuts, hpieces⟩ :=
        exists_cuts hs m ts fun u hu => hmem u (List.mem_cons_of_mem t hu)
      obtain ⟨h, c, hh, hc⟩ := exists_mark hs m (hmem t List.mem_cons_self)
      by_cases hempty : t.origin.isEmpty
      · have horigin : t.origin.toList = [] := by simpa using hempty
        refine ⟨[] :: cuts, marked, ?_, .cons ⟨h, c, hh, hc, ?_⟩ hcuts, hpieces⟩
        · rw [List.filter_cons_of_neg (by simpa using hempty), hmarked]
        · rw [horigin]
          exact isCut_nil h c
      · have hmark : s.mark m t = .ok ⟨h, c, t.origin.toList⟩ := by
          rw [mark, hh, hc]
          rfl
        refine ⟨joinPieces (tokenLines ⟨h, c, t.origin.toList⟩) :: cuts,
          ⟨h, c, t.origin.toList⟩ :: marked, ?_, .cons ⟨h, c, hh, hc, ?_⟩ hcuts, ?_⟩
        · rw [List.filter_cons_of_pos (by simpa using hempty), markAll, hmark]
          dsimp only
          rw [hmarked]
        · exact isCut_tokenLines ⟨h, c, t.origin.toList⟩
        · rw [joinPieces_layoutLines, List.flatMap_cons, ← joinPieces_layoutLines, hpieces,
            List.flatten_cons]

/-- The texts of the pieces of all cuts are the text of the stream. -/
lemma CutsOf.text_eq {m : Matches} {cuts : List (List Piece)} (h : s.CutsOf m cuts) :
    String.join (cuts.flatten.map Piece.shown) = s.text := by
  rw [Piece.join_shown, Stream.text]
  refine congrArg String.ofList ?_
  rw [CutsOf] at h
  generalize s.tokens.toList = ts at h
  induction h with
  | nil => rfl
  | cons hcut _ ih =>
      obtain ⟨_, _, -, -, hcut⟩ := hcut
      rw [List.flatten_cons, List.flatMap_append, hcut.text_eq, ih, List.flatMap_cons]

end Stream

/-- **A rendered stream is made of pieces.** In an indexed stream the texts of the tokens are cut,
whatever the matches are, so that with any two palettes of functions the stream is written piece by
piece: as it stands, or through the one function of the palette and the category of the token. Put
together the pieces are the text of the stream, and palettes that change nothing write that text. -/
theorem render_pieces {s : Stream} (hs : s.IsIndexed) (m : Matches) :
    ∃ cuts, s.CutsOf m cuts ∧ String.join (cuts.flatten.map Piece.shown) = s.text ∧
      (∀ f g gutter separator, ((Printer.ofFunctions f g gutter separator).render s m false).map
        (·.1) = .ok (String.join (cuts.flatten.map (Piece.emit f g)))) ∧
      ∀ gutter separator, ((Printer.ofFunctions (fun _ x => x) (fun _ x => x) gutter
        separator).render s m false).map (·.1) = .ok s.text := by
  obtain ⟨cuts, marked, hmarked, hcuts, hpieces⟩ :=
    Stream.exists_cuts hs m s.tokens.toList fun _ ht => ht
  have htext := Stream.CutsOf.text_eq (s := s) (m := m) hcuts
  have hrender : ∀ f g gutter separator,
      ((Printer.ofFunctions f g gutter separator).render s m false).map (·.1) =
        .ok (String.join (cuts.flatten.map (Piece.emit f g))) := by
    intro f g gutter separator
    rw [Printer.render]
    split
    · next hsize =>
        have hnil : s.tokens.toList = [] := by
          simpa [Stream.size] using hsize
        rw [hnil] at hcuts
        cases hcuts
        rfl
    · rw [Stream.layout, hmarked]
      dsimp only
      rw [write_ofFunctions, hpieces]
      rfl
  refine ⟨cuts, hcuts, htext, hrender, fun gutter separator => ?_⟩
  have hemit : Piece.emit (fun _ x => x) (fun _ x => x) = Piece.shown := funext Piece.emit_id
  rw [hrender, hemit, htext]

/-- A quoted scalar on two lines, the second of which is indented, is rendered for a query that
matches it. -/
theorem render_pieces_quotedLines :
    ∃ d, parse "a:\r\n  - 'x\r\n    y' # c\n  - z\n" = .ok d ∧ d.tokens.IsIndexed ∧
      ∃ cuts, d.tokens.CutsOf (d.documents.query "a.0") cuts ∧
        String.join (cuts.flatten.map Piece.shown) = d.tokens.text ∧
        ∀ f g gutter separator, ((Printer.ofFunctions f g gutter separator).render d.tokens
          (d.documents.query "a.0") false).map (·.1) =
            .ok (String.join (cuts.flatten.map (Piece.emit f g))) := by
  obtain ⟨d, hd⟩ := Except.exists_ok_of_toBool
    (x := parse "a:\r\n  - 'x\r\n    y' # c\n  - z\n") (by decide +kernel)
  obtain ⟨cuts, hcuts, htext, hrender, -⟩ := render_pieces d.isIndexed (d.documents.query "a.0")
  exact ⟨d, hd, d.isIndexed, cuts, hcuts, htext, hrender⟩

end YamlNavigator
