import YamlNavigator.Proofs.Yaml.Mirror
import YamlNavigator.Yaml.Lexeme.Block
import YamlNavigator.Yaml.Lexeme.Directive
import YamlNavigator.Yaml.Lexeme.Plain
import YamlNavigator.Yaml.Lexeme.Quoted

/-!
The readers of lexical units, side by side in a text and in its spelling.

* `Lexeme.mapMarks`: a unit that is moved to other places;
* `Scan.Respells`: a reader answers the same unit in both texts, at the places that correspond;
* `respells_namedLexeme`, `respells_tagLexeme`, `respells_directiveLexeme`, `respells_quotedLexeme`,
  `respells_blockLexeme`, `mirrors_plainLexeme`: every reader of a unit does.
-/

namespace YamlNavigator.Yaml

/-- A unit with its marks changed by a function. -/
def Lexeme.mapMarks (f : Mark → Mark) (l : Lexeme) : Lexeme :=
  { l with start := f l.start, stop := f l.stop }

namespace Scan

open Cursor Text

variable {γ δ : Type} {w : Spelling} {s : List Char} {c d e e' : Cursor} {ch : Char}

/-- A unit that is read in both texts, at the places that correspond, with twin cursors behind. -/
def Respelled (w : Spelling) (s : List Char) (l k : Lexeme) (c d : Cursor) : Prop :=
  k = l.mapMarks (Mark.spelled w s) ∧ Twins w s c d

/-- The reader answers the same unit in both texts, at the places that correspond. -/
def Respells (w : Spelling) (s : List Char) (x : Scan Lexeme) (c d : Cursor) : Prop :=
  x.Mirrors x c d (Respelled w s)

/-- The end of a unit that began at twin cursors. -/
lemma mirrors_unitEnd (h : Twins w s c d) (h' : Twins w s e e') (content : Content) :
    (here >>= fun stop => Pure.pure (⟨content, c.mark, stop⟩ : Lexeme)).Mirrors
      (here >>= fun stop => Pure.pure (⟨content, d.mark, stop⟩ : Lexeme)) e e'
      (Respelled w s) := by
  refine mirrors_here.mpr (mirrors_pure.mpr ⟨?_, h'⟩)
  rw [h.mark, h'.mark]
  rfl

/-- A refusal of all characters but one, or of all that a class leaves out. -/
lemma mirrors_unlessNext {α β : Type} {Q : α → β → Cursor → Cursor → Prop} {f : Unit → Scan α}
    {g : Unit → Scan β} {cause : Option Char → Problem} (h : Twins w s c d)
    (hch : isBreak ch = false) (hfg : c.peek 0 = some ch → (f ()).Mirrors (g ()) c d Q) :
    (if c.peek 0 != some ch then fail (cause (c.peek 0)) >>= f else f ()).Mirrors
      (if d.peek 0 != some ch then fail (cause (d.peek 0)) >>= g else g ()) c d Q := by
  refine mirrors_unless (fun hd => ?_) fun hc => hfg (by simpa using hc)
  rwa [bne, ← h.nextIs hch]

lemma mirrors_unlessAll {α β : Type} {Q : α → β → Cursor → Cursor → Prop} {f : Unit → Scan α}
    {g : Unit → Scan β} {cause : Option Char → Problem} {p : Char → Bool} (h : Twins w s c d)
    (hp : p '\r' = p '\n') (hfg : (f ()).Mirrors (g ()) c d Q) :
    (if !(c.peek 0).all p then fail (cause (c.peek 0)) >>= f else f ()).Mirrors
      (if !(d.peek 0).all p then fail (cause (d.peek 0)) >>= g else g ()) c d Q := by
  refine mirrors_unless (fun hd => ?_) fun _ => hfg
  rwa [← h.all_peek hp]

/-! ### Names and tags -/

lemma respells_namedLexeme (h : Twins w s c d) (hc : c.peek 0 = some ch) (hn : ch ≠ '\n')
    (content : String → Content) : (namedLexeme content).Respells w s c d := by
  refine mirrors_here.mpr (mirrors_advance.mpr ?_)
  refine (agrees_takeWhile (h.forward_char hc hn) (by decide) (by decide)).bind
    fun name c' d' _ h' => mirrors_peek.mpr (mirrors_unless ?_ fun _ => ?_)
  · rw [h'.all_peek (by decide)]
    exact id
  · exact mirrors_unitEnd h h' _

lemma agrees_tagHandle (h : Twins w s c d) : tagHandle.Agrees w s c d := by
  refine mirrors_peek.mpr (mirrors_unlessNext h (by decide) fun hc => mirrors_advance.mpr ?_)
  have h' := h.forward_char hc (by decide)
  refine mirrors_nextIs.mpr ?_
  rw [h'.nextIs (by decide)]
  refine mirrors_ite Iff.rfl (fun _ => agrees_pure h') fun _ => ?_
  refine (agrees_takeWhile h' (by decide) (by decide)).bind fun name c' d' _ h' =>
    mirrors_peek.mpr (mirrors_unlessNext h' (by decide) fun hc => mirrors_advance.mpr ?_)
  exact agrees_pure (h'.forward_char hc (by decide))

lemma agrees_uriByte (h : Twins w s c d) : uriByte.Agrees w s c d := by
  refine mirrors_peek.mpr ?_
  refine mirrors_unless ?_ fun hfirst => mirrors_peek.mpr ?_
  · rw [h.any_peek (by decide)]
    exact id
  obtain ⟨a, ha, hahex⟩ : ∃ a, c.peek 0 = some a ∧ isHexDigit a = true := by
    simpa [Option.any_eq_true] using hfirst
  have han : a ≠ '\n' := by rintro rfl; exact absurd hahex (by decide)
  have h' := h.forward_char ha han
  rw [h.peek_of_ne ha han, h.peek_one ha han]
  refine mirrors_unless (fun hd => ?_) fun hsecond => mirrors_advance.mpr ?_
  · cases hb : c.peek 1 with
    | none => rfl
    | some b => simpa [hb, Spelling.class_first (p := isHexDigit) (by decide)] using hd
  obtain ⟨b, hb, hbhex⟩ : ∃ b, c.peek 1 = some b ∧ isHexDigit b = true := by
    simpa [Option.any_eq_true] using hsecond
  have hbn : b ≠ '\n' := by rintro rfl; exact absurd hbhex (by decide)
  have hb' : (c.forward 1).peek 0 = some b := by
    simpa [Cursor.peek, rest_forward] using hb
  rw [ha, hb, Option.map_some, Spelling.first_of_ne hbn]
  have h'' := h'.forward_char hb' hbn
  rw [← forward_add, ← forward_add] at h''
  exact mirrors_pure.mpr ⟨rfl, h''⟩

/-- Escapes take at least the first percent sign. -/
lemma uriEscapes_reads (hc : c.peek 0 = some '%') :
    uriEscapes.Ensures c fun _ d => c.mark.index < d.mark.index := by
  rw [uriEscapes, ensures_bind, ensures_here, ensures_bind]
  refine (ensures_iterate (I := fun _ d => d = c ∨ c.mark.index < d.mark.index)
    (Q := fun _ d => c.mark.index < d.mark.index) (.inl rfl) fun bytes d hd => ?_).mono
      fun bytes d hd => ?_
  · rw [ensures_bind, ensures_nextIs]
    split
    · next hnext =>
        have hne : d.rest ≠ [] := by rintro hnil; simp [Cursor.peek, hnil] at hnext
        rw [ensures_bind, ensures_advance, ensures_bind]
        refine .of_before fun byte e he => ensures_pure.mpr ?_
        have hlt : c.mark.index < e.mark.index := by
          have hone := index_lt_forward hne Nat.one_pos
          have hle := index_le_of_before he
          rcases hd with rfl | hd <;> omega
        exact ⟨hlt, .inr hlt⟩
    · next hnext =>
        refine ensures_pure.mpr (hd.resolve_left ?_)
        rintro rfl
        simp [hc] at hnext
  · split
    · exact ensures_pure.mpr hd
    · exact ensures_raise

lemma agrees_uriEscapes (h : Twins w s c d) : uriEscapes.Agrees w s c d := by
  have hbytes : Agrees w s (iterate (fun bytes => do
      if ← nextIs '%' then
        advance 1
        return .yield (bytes ++ [← uriByte])
      else return .done bytes) []) c d := by
    refine mirrors_iterate (fun a b c' d' => b = a ∧ Twins w s c' d') ⟨rfl, h⟩ h.length_le ?_
    rintro a _ c' d' ⟨rfl, h'⟩
    refine mirrors_nextIs.mpr ?_
    rw [h'.nextIs (by decide)]
    refine mirrors_ite Iff.rfl (fun hnext => mirrors_advance.mpr ?_) fun _ =>
      mirrors_pure.mpr (.done ⟨rfl, h'⟩)
    have hnext : c'.peek 0 = some '%' := by simpa using hnext
    have hlt : c'.mark.index < (c'.forward 1).mark.index :=
      index_lt_forward (by rw [rest_of_peek hnext]; simp) Nat.one_pos
    refine (agrees_uriByte (h'.forward_char hnext (by decide))).bind fun byte c'' d'' hc'' h'' =>
      mirrors_pure.mpr (.yield ⟨⟨rfl, h''⟩, Nat.lt_of_lt_of_le hlt (index_le_of_before hc'')⟩)
  refine mirrors_here.mpr (hbytes.bind fun bytes c' d' _ h' => ?_)
  split
  · exact agrees_pure h'
  · exact mirrors_raise

lemma agrees_tagUri (h : Twins w s c d) : tagUri.Agrees w s c d := by
  have hparts : Agrees w s (iterate (fun parts => do
      if ← nextIs '%' then
        return .yield (parts ++ [← uriEscapes])
      else
        let run ← takeWhile fun c => isUriChar c && c != '%'
        if run.isEmpty then return .done parts else return .yield (parts ++ [run])) []) c d := by
    refine mirrors_iterate (fun a b c' d' => b = a ∧ Twins w s c' d') ⟨rfl, h⟩ h.length_le ?_
    rintro a _ c' d' ⟨rfl, h'⟩
    refine mirrors_nextIs.mpr ?_
    rw [h'.nextIs (by decide)]
    refine mirrors_ite Iff.rfl (fun hnext => ?_) fun _ => ?_
    · exact (agrees_uriEscapes h').bind_ensures (uriEscapes_reads (by simpa using hnext))
        fun run c'' d'' _ hlt h'' => mirrors_pure.mpr (.yield ⟨⟨rfl, h''⟩, hlt⟩)
    · refine (agrees_takeWhile h' (by decide) (by decide)).bind_ensures
        (ensures_takeWhile fun run c'' hrun _ => hrun) fun run c'' d'' hc'' hrun h'' => ?_
      refine mirrors_ite Iff.rfl (fun _ => mirrors_pure.mpr (.done ⟨rfl, h''⟩)) fun hne =>
        mirrors_pure.mpr (.yield ⟨⟨rfl, h''⟩, ?_⟩)
      have hlen := hc''.index_add_length
      have hpos : 0 < run.length := List.length_pos_iff.mpr (by simpa using hne)
      rw [hrun, List.length_append] at hlen
      omega
  refine hparts.bind fun parts c' d' _ h' => ?_
  refine mirrors_ite Iff.rfl (fun _ => mirrors_peek.mpr ?_) fun _ => agrees_pure h'
  exact fun _ _ hx => by cases hx

/-- A handle stands behind an exclamation mark in both texts or in none. -/
lemma usesHandle_body (u : List Char) : usesHandle (w.body u) = usesHandle u := by
  rw [usesHandle, usesHandle, Spelling.takeWhile_body_of_eq_false (by decide) (by decide)]

/-- The end of a tag that began at twin cursors. -/
private lemma mirrors_tagEnd (h : Twins w s c d) (h' : Twins w s e e')
    (p : Option (List Char) × List Char) :
    (match p with
      | (handle, suffix) => do
          let a ← peek 0
          if !a.all isSpaceOrBreak then fail (.expectedSpace a)
          return ⟨.tag (handle.map String.ofList) (String.ofList suffix), c.mark, ← here⟩ :
      Scan Lexeme).Mirrors
    (match p with
      | (handle, suffix) => do
          let a ← peek 0
          if !a.all isSpaceOrBreak then fail (.expectedSpace a)
          return ⟨.tag (handle.map String.ofList) (String.ofList suffix), d.mark, ← here⟩ :
      Scan Lexeme) e e' (Respelled w s) :=
  mirrors_peek.mpr (mirrors_unlessAll h' (by decide) (mirrors_unitEnd h h' _))

lemma respells_tagLexeme (h : Twins w s c d) (hc : c.peek 0 = some '!') :
    tagLexeme.Respells w s c d := by
  have hone := h.forward_char hc (by decide)
  refine mirrors_here.mpr (mirrors_peek.mpr (mirrors_ahead.mpr ?_))
  rw [h.secondIs (by decide) hc (by decide), h.all_peek_one (by decide) hc (by decide)]
  refine mirrors_ite Iff.rfl (fun hangle => ?_) fun _ => mirrors_ite Iff.rfl (fun _ => ?_)
    fun _ => mirrors_ite ?_ (fun _ => ?_) fun _ => ?_
  · -- in full, between angle brackets
    have hangle' : (c.forward 1).peek 0 = some '<' := by
      simpa [Cursor.peek, rest_forward] using hangle
    have htwo := hone.forward_char hangle' (by decide)
    rw [← forward_add, ← forward_add] at htwo
    refine mirrors_advance.mpr ((agrees_tagUri htwo).bind fun suffix c' d' _ h' => ?_)
    refine mirrors_peek.mpr (mirrors_unlessNext h' (by decide) fun hclose => ?_)
    exact mirrors_advance.mpr (mirrors_tagEnd h (h'.forward_char hclose (by decide)) (none, suffix))
  · -- the lone exclamation mark
    exact mirrors_advance.mpr (mirrors_tagEnd h hone (none, ['!']))
  · have hdrop : d.rest.drop 1 = w.body (c.rest.drop 1) := by
      rw [← rest_forward, ← rest_forward]
      exact hone.rest
    rw [hdrop, usesHandle_body]
  · -- a handle with a suffix
    refine (agrees_tagHandle h).bind fun handle c' d' _ h' => ?_
    refine (agrees_tagUri h').bind fun suffix c'' d'' _ h'' => ?_
    exact mirrors_tagEnd h h'' (some handle, suffix)
  · refine mirrors_advance.mpr ((agrees_tagUri hone).bind fun suffix c' d' _ h' => ?_)
    exact mirrors_tagEnd h h' (some ['!'], suffix)

/-! ### Directives -/

lemma agrees_directiveName (h : Twins w s c d) : directiveName.Agrees w s c d := by
  refine (agrees_takeWhile h (by decide) (by decide)).bind fun name c' d' _ h' =>
    mirrors_peek.mpr (mirrors_unless ?_ fun _ => agrees_pure h')
  rw [h'.all_peek (by decide)]
  exact id

lemma agrees_versionNumber (h : Twins w s c d) : versionNumber.Agrees w s c d := by
  refine mirrors_peek.mpr (mirrors_unless ?_ fun _ => mirrors_ahead.mpr ?_)
  · rw [h.any_peek (by decide)]
    exact id
  have hdigits : d.rest.takeWhile isAsciiDigit = c.rest.takeWhile isAsciiDigit := by
    rw [h.rest, Spelling.takeWhile_body_of_eq_false (by decide) (by decide)]
  have hmove := h.forward (List.takeWhile_append_dropWhile (p := isAsciiDigit)).symm
  rw [Spelling.body_of_not_mem] at hmove
  · dsimp only
    rw [hdigits]
    refine mirrors_ite Iff.rfl (fun _ => ?_) fun _ => mirrors_advance.mpr (agrees_pure hmove)
    exact fun _ _ hx => by cases hx
  · intro hmem
    exact absurd (List.mem_takeWhile_imp hmem) (by decide)

lemma agrees_versionValue (h : Twins w s c d) : versionValue.Agrees w s c d := by
  refine (agrees_skipWhile h (by decide) (by decide)).bind fun _ c₁ d₁ _ h₁ => ?_
  refine (agrees_versionNumber h₁).bind fun major c₂ d₂ _ h₂ => ?_
  refine mirrors_peek.mpr (mirrors_unlessNext h₂ (by decide) fun hpoint => mirrors_advance.mpr ?_)
  refine (agrees_versionNumber (h₂.forward_char hpoint (by decide))).bind
    fun minor c₃ d₃ _ h₃ => ?_
  exact mirrors_peek.mpr (mirrors_unlessAll h₃ (by decide) (agrees_pure h₃))

lemma agrees_tagHandleValue (h : Twins w s c d) : tagHandleValue.Agrees w s c d := by
  refine (agrees_skipWhile h (by decide) (by decide)).bind fun _ c₁ d₁ _ h₁ => ?_
  refine (agrees_tagHandle h₁).bind fun handle c₂ d₂ _ h₂ => ?_
  refine mirrors_peek.mpr (mirrors_unlessNext h₂ (by decide) fun _ => ?_)
  refine (agrees_skipWhile h₂ (by decide) (by decide)).bind fun _ c₃ d₃ _ h₃ => ?_
  refine (agrees_tagUri h₃).bind fun stem c₄ d₄ _ h₄ => ?_
  exact mirrors_peek.mpr (mirrors_unlessAll h₄ (by decide) (agrees_pure h₄))

/-- The end of a directive that began at twin cursors. -/
private lemma mirrors_directiveEnd (h : Twins w s c d) (he : Twins w s e e') (v : Directive) :
    Mirrors
      (do
        let stop ← here
        if let .unknown _ := v then skipWhile fun c => !isBreak c
        ignoredLine
        return (⟨.directive v, c.mark, stop⟩ : Lexeme))
      (do
        let stop ← here
        if let .unknown _ := v then skipWhile fun c => !isBreak c
        ignoredLine
        return (⟨.directive v, d.mark, stop⟩ : Lexeme)) e e' (Respelled w s) := by
  have hend : ∀ {f f' : Cursor}, Twins w s f f' →
      (ignoredLine >>= fun _ => Pure.pure (⟨.directive v, c.mark, e.mark⟩ : Lexeme)).Mirrors
        (ignoredLine >>= fun _ => Pure.pure (⟨.directive v, d.mark, e'.mark⟩ : Lexeme)) f f'
        (Respelled w s) := by
    intro f f' hf
    refine (agrees_ignoredLine hf).bind fun _ f₁ f₁' _ hf₁ => mirrors_pure.mpr ⟨?_, hf₁⟩
    rw [h.mark, he.mark]
    rfl
  refine mirrors_here.mpr ?_
  cases v with
  | unknown name =>
      exact (agrees_skipWhile he (by decide) (by decide)).bind fun _ f f' _ hf => hend hf
  | version major minor => exact hend he
  | tagHandle handle stem => exact hend he

lemma respells_directiveLexeme (h : Twins w s c d) (hc : c.peek 0 = some '%') :
    directiveLexeme.Respells w s c d := by
  refine mirrors_here.mpr (mirrors_advance.mpr ?_)
  refine (agrees_directiveName (h.forward_char hc (by decide))).bind fun name c₁ d₁ _ h₁ => ?_
  refine mirrors_ite Iff.rfl (fun _ => ?_) fun _ => mirrors_ite Iff.rfl (fun _ => ?_) fun _ => ?_
  · exact (agrees_versionValue h₁).bind fun v c₂ d₂ _ h₂ => mirrors_directiveEnd h h₂ v
  · exact (agrees_tagHandleValue h₁).bind fun v c₂ d₂ _ h₂ => mirrors_directiveEnd h h₂ v
  · exact mirrors_directiveEnd h h₁ (.unknown (String.ofList name))

/-! ### Plain scalars -/

/-- A run of plain text is the same in both texts. -/
lemma plainRun_body (flow : Bool) (u : List Char) :
    plainRun flow (w.body u) = plainRun flow u := by
  induction u with
  | nil => rfl
  | cons ch u ih =>
      by_cases hn : ch = '\n'
      · subst hn
        have hstop : ∀ e u, isBlankOrBreak e = true → plainRun flow (e :: u) = [] := by
          intro e u he
          rw [plainRun, if_pos (by rw [he]; rfl)]
        rw [Spelling.body_cons, Spelling.char_lineFeed, hstop '\n' u (by decide)]
        cases w.returns
        · exact hstop '\n' _ (by decide)
        · exact hstop '\r' _ (by decide)
      · have hhead : ∀ p : Char → Bool, p '\r' = p '\n' →
            (w.body u).head?.all p = u.head?.all p := by
          intro p hp
          rw [Spelling.head?_body]
          cases u.head? with
          | none => rfl
          | some e => exact Spelling.class_first hp e
        rw [Spelling.body_cons_of_ne hn, plainRun, plainRun, ih,
          hhead _ (by simp [isBlankOrBreak, isBreak])]

/-- A run of plain text stands at the front of the text, and holds no blanks and line breaks. -/
lemma plainRun_prefix (flow : Bool) (u : List Char) :
    plainRun flow u <+: u ∧ ∀ ch ∈ plainRun flow u, isBlankOrBreak ch = false := by
  induction u with
  | nil => exact ⟨List.prefix_rfl, by simp [plainRun]⟩
  | cons ch u ih =>
      rw [plainRun]
      split
      · exact ⟨List.nil_prefix, by simp⟩
      · next hstop =>
          refine ⟨List.cons_prefix_cons.mpr ⟨rfl, ih.1⟩, fun e he => ?_⟩
          rcases List.mem_cons.mp he with rfl | he
          · simp only [Bool.or_eq_true, not_or, Bool.not_eq_true] at hstop
            exact hstop.1.1
          · exact ih.2 e he

lemma agrees_plainBreaks (h : Twins w s c d) : plainBreaks.Agrees w s c d := by
  refine bind_atSeparator h fun b _ => mirrors_ite Iff.rfl (fun _ => agrees_pure h) fun _ => ?_
  refine mirrors_iterate (fun a b c' d' => b = a ∧ Twins w s c' d') ⟨rfl, h⟩ h.length_le ?_
  rintro _ a c' d' ⟨rfl, h'⟩
  cases a with
  | none => exact mirrors_pure.mpr (.done ⟨rfl, h'⟩)
  | some breaks =>
      refine mirrors_nextIs.mpr ?_
      rw [h'.nextIs (by decide)]
      refine mirrors_ite Iff.rfl (fun hspace => ?_) fun _ => ?_
      · have hspace : c'.peek 0 = some ' ' := by simpa using hspace
        exact mirrors_advance.mpr (mirrors_pure.mpr (.yield
          ⟨⟨rfl, h'.forward_char hspace (by decide)⟩,
            index_lt_forward (by rw [rest_of_peek hspace]; simp) Nat.one_pos⟩))
      · refine bind_lineBreak h' (fun _ => mirrors_pure.mpr (.done ⟨rfl, h'⟩))
          fun ch c'' d'' _ hlt h'' => bind_atSeparator h'' fun b _ => ?_
        exact mirrors_ite Iff.rfl (fun _ => mirrors_pure.mpr (.done ⟨rfl, h''⟩)) fun _ =>
          mirrors_pure.mpr (.yield ⟨⟨rfl, h''⟩, hlt⟩)

lemma agrees_plainBlanks (h : Twins w s c d) : plainBlanks.Agrees w s c d := by
  refine (agrees_takeWhile h (by decide) (by decide)).bind fun blanks c' d' _ h' => ?_
  refine bind_lineBreak h' (fun _ => agrees_pure h') fun ch c'' d'' _ _ h'' => ?_
  refine (agrees_plainBreaks h'').bind fun more e e' _ h₃ => ?_
  cases more with
  | none => exact agrees_pure h₃
  | some more => exact agrees_pure h₃

/-- The text of a plain scalar with its mark changed by a function. -/
def PlainText.mapMarks (f : Mark → Mark) (t : PlainText) : PlainText := { t with stop := f t.stop }

/-- A plain scalar is the same unit in both texts, and a line break is crossed in both or in none.
-/
lemma mirrors_plainLexeme (h : Twins w s c d) (flow : Bool) (parent : Int) :
    (plainLexeme flow parent).Mirrors (plainLexeme flow parent) c d fun p q c' d' =>
      q = (p.1.mapMarks (Mark.spelled w s), p.2) ∧ Twins w s c' d' := by
  refine mirrors_here.mpr (mirrors_bind ?_)
  refine (mirrors_iterate
    (Q := fun a b c' d' => b = a.mapMarks (Mark.spelled w s) ∧ Twins w s c' d')
    (fun a b c' d' => b = a.mapMarks (Mark.spelled w s) ∧ Twins w s c' d') ⟨?_, h⟩ h.length_le
    ?_).mono ?_
  · rw [h.mark]
    rfl
  · rintro a _ c' d' ⟨rfl, h'⟩
    refine mirrors_nextIs.mpr ?_
    rw [h'.nextIs (by decide)]
    refine mirrors_ite Iff.rfl (fun _ => mirrors_pure.mpr (.done ⟨rfl, h'⟩)) fun _ => ?_
    refine mirrors_ahead.mpr ?_
    rw [h'.rest, plainRun_body]
    refine mirrors_ite Iff.rfl (fun _ => mirrors_pure.mpr (.done ⟨rfl, h'⟩)) fun hne => ?_
    obtain ⟨hfront, hblank⟩ := plainRun_prefix flow c'.rest
    obtain ⟨t, ht⟩ := hfront
    have hmove := h'.forward ht.symm
    rw [Spelling.body_of_not_mem fun hmem => absurd (hblank _ hmem) (by decide)] at hmove
    have hpos : 0 < (plainRun flow c'.rest).length := List.length_pos_iff.mpr (by simpa using hne)
    have hrest : c'.rest ≠ [] := by
      rintro hnil
      rw [hnil] at hpos
      exact absurd hpos (by simp [plainRun])
    have hlt := index_lt_forward hrest hpos
    refine mirrors_advance.mpr (mirrors_here.mpr ?_)
    refine (agrees_plainBlanks hmove).bind fun gap c'' d'' hc'' h'' => mirrors_column.mpr ?_
    rw [h''.column_eq, hmove.mark]
    refine mirrors_ite Iff.rfl (fun _ => mirrors_pure.mpr (.done ⟨rfl, h''⟩)) fun _ =>
      mirrors_pure.mpr (.yield ⟨⟨rfl, h''⟩, Nat.lt_of_lt_of_le hlt (index_le_of_before hc'')⟩)
  · rintro a _ c' d' ⟨rfl, h'⟩
    refine mirrors_pure.mpr ⟨?_, h'⟩
    rw [h.mark]
    rfl

/-! ### Quoted scalars -/

lemma agrees_numericEscape (h : Twins w s c d) (width : Nat) :
    (numericEscape width).Agrees w s c d := by
  refine mirrors_ahead.mpr ?_
  dsimp only
  by_cases hvalid : ((c.rest.take width).takeWhile isHexDigit).length < width
  · rw [if_pos hvalid]
    exact fun _ _ hx => by cases hx
  · -- all characters that the escape takes are digits
    have hfront := List.takeWhile_prefix (l := c.rest.take width) isHexDigit
    have hlen : (c.rest.take width).length ≤ width := List.length_take_le width c.rest
    have heq := hfront.eq_of_length_le (by omega)
    have hn : '\n' ∉ c.rest.take width := by
      intro hmem
      rw [← heq] at hmem
      exact absurd (List.mem_takeWhile_imp hmem) (by decide)
    have hwidth : (c.rest.take width).length = width := by
      rw [heq] at hvalid
      omega
    have hdigits : d.rest.take width = c.rest.take width := by
      have hrest := h.rest
      rw [← List.take_append_drop width c.rest, Spelling.body_append,
        Spelling.body_of_not_mem hn] at hrest
      rw [hrest, List.take_left' hwidth]
    rw [hdigits, if_neg hvalid]
    refine mirrors_ite Iff.rfl (fun _ _ _ hx => by cases hx) fun _ => ?_
    refine mirrors_ite Iff.rfl (fun _ _ _ hx => by cases hx) fun _ => ?_
    exact mirrors_advance.mpr (agrees_pure (h.forward_of_not_mem hn))

lemma agrees_foldedBreaks (h : Twins w s c d) : foldedBreaks.Agrees w s c d := by
  refine mirrors_iterate (fun a b c' d' => b = a ∧ Twins w s c' d') ⟨rfl, h⟩ h.length_le ?_
  rintro _ breaks c' d' ⟨rfl, h'⟩
  refine bind_atSeparator h' fun b _ => mirrors_unless id fun _ => ?_
  refine (agrees_skipWhile h' (by decide) (by decide)).bind fun _ c'' d'' hc'' h'' => ?_
  refine bind_lineBreak h'' (fun _ => mirrors_pure.mpr (.done ⟨rfl, h''⟩))
    fun ch c₃ d₃ _ hlt h₃ => mirrors_pure.mpr (.yield ⟨⟨rfl, h₃⟩, ?_⟩)
  exact Nat.lt_of_le_of_lt (index_le_of_before hc'') hlt

/-- What is looked up for characters that are no part of a line break is the same in both texts. -/
lemma bind_peek {α : Type} {f : Char → Option α} (h : Twins w s c d) (hr : f '\r' = none)
    (hn : f '\n' = none) : (d.peek 0).bind f = (c.peek 0).bind f := by
  rw [h.peek_zero]
  cases c.peek 0 with
  | none => rfl
  | some ch =>
      rw [Option.map_some, Option.bind_some, Option.bind_some, Spelling.first]
      split
      · next hfeed =>
          simp only [Bool.and_eq_true, beq_iff_eq] at hfeed
          rw [hfeed.2, hr, hn]
      · rfl

lemma agrees_escape (h : Twins w s c d) : escape.Agrees w s c d := by
  have hstep : ∀ {α : Type} {f : Char → Option α} {r : α}, (c.peek 0).bind f = some r →
      f '\n' = none → Twins w s (c.forward 1) (d.forward 1) := by
    intro α f r hr hn
    obtain ⟨ch, hch, hf⟩ := Option.bind_eq_some_iff.mp hr
    refine h.forward_char hch ?_
    rintro rfl
    rw [hn] at hf
    cases hf
  refine mirrors_peek.mpr ?_
  rw [bind_peek h (f := namedEscape?) rfl rfl, bind_peek h (f := escapeWidth?) rfl rfl,
    h.any_peek (by decide)]
  cases hnamed : (c.peek 0).bind namedEscape? with
  | some r => exact mirrors_advance.mpr (agrees_pure (hstep hnamed rfl))
  | none =>
      cases hwidth : (c.peek 0).bind escapeWidth? with
      | some width =>
          refine mirrors_advance.mpr ?_
          exact (agrees_numericEscape (hstep hwidth rfl) width).bind fun _ _ _ _ h' =>
            agrees_pure h'
      | none =>
          refine mirrors_ite Iff.rfl (fun _ => ?_) fun _ => mirrors_fail
          exact (agrees_lineBreak h).bind fun _ _ _ _ h' => agrees_foldedBreaks h'

/-- A run inside quotes is the same in both texts. Behind it stands a blank, a line break, the
closing quote or nothing. -/
lemma mirrors_quotedRun (h : Twins w s c d) (double : Bool) :
    (quotedRun double).Mirrors (quotedRun double) c d fun a b c' d' =>
      (b = a ∧ Twins w s c' d') ∧ ∀ ch, c'.peek 0 = some ch →
        isBlankOrBreak ch = true ∨ ch = if double then '\x22' else '\x27' := by
  refine mirrors_iterate (fun a b c' d' => b = a ∧ Twins w s c' d') ⟨rfl, h⟩ h.length_le ?_
  rintro _ run c' d' ⟨rfl, h'⟩
  refine mirrors_peek.mpr ?_
  rw [h'.peek_zero]
  cases hch : c'.peek 0 with
  | none => exact mirrors_pure.mpr (.done ⟨⟨rfl, h'⟩, by simp [hch]⟩)
  | some ch =>
      rw [Option.map_some]
      by_cases hn : ch = '\n'
      · -- at a line break the run ends
        subst hn
        have hbreak : isBreak (w.first '\n') = true := Spelling.class_first (by decide) '\n'
        generalize w.first '\n' = e at hbreak ⊢
        have hne : ∀ q, isBreak q = false → e ≠ q := by
          rintro q hq rfl
          rw [hq] at hbreak
          cases hbreak
        have hstops : stopsQuotedRun e = true := by simp [stopsQuotedRun, isBlankOrBreak, hbreak]
        have hsingle := hne '\x27' (by decide)
        have hdouble := hne '\x22' (by decide)
        have hslash := hne '\\' (by decide)
        refine mirrors_ite (by rw [hstops]; decide) (fun hplain => absurd hplain (by decide))
          fun _ => mirrors_peek.mpr ?_
        refine mirrors_ite (by simp [hsingle]) (fun htwo => by simp at htwo) fun _ => ?_
        refine mirrors_ite (by simp [hsingle, hdouble, hslash]) (fun hquote => by simp at hquote)
          fun _ => ?_
        refine mirrors_ite (by simp [hslash]) (fun hescape => by simp at hescape) fun _ => ?_
        exact mirrors_pure.mpr (.done ⟨⟨rfl, h'⟩, by simp [hch, isBlankOrBreak, isBreak]⟩)
      · rw [Spelling.first_of_ne hn]
        have hone := h'.forward_char hch hn
        have hlt : ∀ {n}, 0 < n → c'.mark.index < (c'.forward n).mark.index :=
          fun hpos => index_lt_forward (by rw [rest_of_peek hch]; simp) hpos
        refine mirrors_ite Iff.rfl (fun hplain => ?_) fun hstops => mirrors_peek.mpr ?_
        · refine (agrees_takeWhile h' (by decide) (by decide)).bind_ensures
            (E := fun run e => c'.mark.index < e.mark.index) ?_
            fun text c'' d'' _ hlt h'' => mirrors_pure.mpr (.yield ⟨⟨rfl, h''⟩, hlt⟩)
          refine ensures_takeWhile_iff.mpr (hlt ?_)
          rw [rest_of_peek hch, List.takeWhile_cons_of_pos (p := fun e => !stopsQuotedRun e) hplain,
            List.length_cons]
          exact Nat.succ_pos _
        · rw [h'.secondIs (by decide) hch hn]
          refine mirrors_ite Iff.rfl (fun htwo => mirrors_advance.mpr ?_) fun _ => ?_
          · have hsecond : (c'.forward 1).peek 0 = some '\x27' := by
              simp only [Bool.and_eq_true, beq_iff_eq] at htwo
              simpa [Cursor.peek, rest_forward] using htwo.2
            have hboth := hone.forward_char hsecond (by decide)
            rw [← forward_add, ← forward_add] at hboth
            exact mirrors_pure.mpr (.yield ⟨⟨rfl, hboth⟩, hlt Nat.two_pos⟩)
          · refine mirrors_ite Iff.rfl (fun _ => mirrors_advance.mpr ?_) fun hquote => ?_
            · exact mirrors_pure.mpr (.yield ⟨⟨rfl, hone⟩, hlt Nat.one_pos⟩)
            · refine mirrors_ite Iff.rfl (fun _ => mirrors_advance.mpr ?_) fun hescape => ?_
              · refine (agrees_escape hone).bind fun r c'' d'' hc'' h'' =>
                  mirrors_pure.mpr (.yield ⟨⟨rfl, h''⟩, ?_⟩)
                exact Nat.lt_of_lt_of_le (hlt Nat.one_pos) (index_le_of_before hc'')
              · refine mirrors_pure.mpr (.done ⟨⟨rfl, h'⟩, fun e he => ?_⟩)
                rw [hch, Option.some_inj] at he
                subst he
                simp only [stopsQuotedRun] at hstops
                cases double <;> grind

/-- The blanks between two runs are the same in both texts. They take at least the blank or the line
break that is next. -/
lemma mirrors_quotedBlanks (h : Twins w s c d) :
    quotedBlanks.Mirrors quotedBlanks c d fun a b c' d' => b = a ∧ Twins w s c' d' ∧
      ((c.peek 0).all isBlankOrBreak = true → c.mark.index < c'.mark.index) := by
  refine mirrors_bind (Mirrors.mono_ensures (agrees_takeWhile h (by decide) (by decide))
    (E := fun run e => run = c.rest.takeWhile (fun c => c = ' ' || c = '\t') ∧
      e = c.forward run.length) (ensures_takeWhile_iff.mpr ⟨rfl, rfl⟩) ?_)
  rintro _ blanks c' d' ⟨hblanks, hc'⟩ ⟨rfl, h'⟩
  refine mirrors_peek.mpr (mirrors_unless ?_ fun hnone => ?_)
  · rw [h'.peek_zero, Option.isNone_map]
    exact id
  have hle : c.mark.index ≤ c'.mark.index := by
    rw [hc', index_forward]
    omega
  refine bind_lineBreak h' (fun hbreak => mirrors_pure.mpr ⟨rfl, h', fun hblank => ?_⟩)
    fun ch c'' d'' _ hlt h'' => ?_
  · -- without a line break there is a blank
    have hne : blanks ≠ [] := by
      rintro rfl
      rw [List.length_nil, forward_zero] at hc'
      subst hc'
      cases hch : c'.peek 0 with
      | none => simp [hch] at hnone
      | some ch =>
          rw [hch, Option.any_some] at hbreak
          rw [hch, Option.all_some, isBlankOrBreak, hbreak, Bool.or_false] at hblank
          rw [rest_of_peek hch, List.takeWhile_cons_of_pos (by simpa using hblank)] at hblanks
          cases hblanks
    have hpos := List.length_pos_iff.mpr hne
    rw [hc']
    refine index_lt_forward ?_ hpos
    rintro hnil
    rw [hnil] at hblanks
    exact hne hblanks
  · refine Agrees.bind (agrees_foldedBreaks h'') fun more e e' he h₃ =>
      mirrors_pure.mpr ⟨rfl, h₃, fun _ => ?_⟩
    exact Nat.lt_of_lt_of_le (Nat.lt_of_le_of_lt hle hlt) (index_le_of_before he)

lemma respells_quotedLexeme (h : Twins w s c d) (double : Bool)
    (hc : c.peek 0 = some (if double then '\x22' else '\x27')) :
    (quotedLexeme double).Respells w s c d := by
  have hplain : ∀ double : Bool, isBreak (if double then '\x22' else '\x27') = false ∧
      (if double then '\x22' else '\x27') ≠ '\n' := by decide
  refine mirrors_here.mpr (mirrors_advance.mpr (mirrors_bind ?_))
  refine (mirrors_quotedRun (h.forward_char hc (hplain double).2) double).mono ?_
  rintro first _ c₁ d₁ ⟨⟨rfl, h₁⟩, hstop₁⟩
  refine mirrors_bind ((mirrors_iterate
    (fun a b c' d' => (b = a ∧ Twins w s c' d') ∧ ∀ ch, c'.peek 0 = some ch →
      isBlankOrBreak ch = true ∨ ch = if double then '\x22' else '\x27')
    (Q := fun a b c' d' => (b = a ∧ Twins w s c' d') ∧
      c'.peek 0 = some (if double then '\x22' else '\x27')) ⟨⟨rfl, h₁⟩, hstop₁⟩ h₁.length_le
    ?_).mono ?_)
  · rintro _ text c' d' ⟨⟨rfl, h'⟩, hstop⟩
    refine mirrors_nextIs.mpr ?_
    rw [h'.nextIs (hplain double).1]
    refine mirrors_ite Iff.rfl
      (fun hquote => mirrors_pure.mpr (.done ⟨⟨rfl, h'⟩, by simpa using hquote⟩)) fun hquote => ?_
    refine mirrors_bind ((mirrors_quotedBlanks h').mono ?_)
    rintro _ blanks c'' d'' ⟨rfl, h'', hlt⟩
    refine mirrors_bind ((mirrors_quotedRun h'' double).mono_before ?_)
    rintro _ run c₃ d₃ hc₃ ⟨⟨rfl, h₃⟩, hstop₃⟩
    refine mirrors_pure.mpr (.yield ⟨⟨⟨rfl, h₃⟩, hstop₃⟩, ?_⟩)
    refine Nat.lt_of_lt_of_le (hlt ?_) (index_le_of_before hc₃)
    cases hch : c'.peek 0 with
    | none => rfl
    | some ch => exact (hstop ch hch).resolve_right fun heq => hquote (by simp [hch, heq])
  · rintro _ text c' d' ⟨⟨rfl, h'⟩, hquote⟩
    exact mirrors_advance.mpr (mirrors_unitEnd h (h'.forward_char hquote (hplain double).2) _)

/-! ### Block scalars -/

lemma agrees_chomping (h : Twins w s c d) : chomping.Agrees w s c d := by
  refine mirrors_peek.mpr ?_
  by_cases hkeep : c.peek 0 = some '+'
  · rw [hkeep, h.peek_of_ne hkeep (by decide)]
    exact mirrors_advance.mpr (agrees_pure (h.forward_char hkeep (by decide)))
  by_cases hstrip : c.peek 0 = some '-'
  · rw [hstrip, h.peek_of_ne hstrip (by decide)]
    exact mirrors_advance.mpr (agrees_pure (h.forward_char hstrip (by decide)))
  · -- neither indicator is next in either text
    have hother : ∀ e, isBreak e = false → c.peek 0 ≠ some e → d.peek 0 ≠ some e :=
      fun e he hc hd => hc (by simpa [hd] using h.nextIs he)
    have hkeep' := hother '+' (by decide) hkeep
    have hstrip' := hother '-' (by decide) hstrip
    split
    · contradiction
    · contradiction
    · exact agrees_pure h

lemma agrees_indentationIndicator (h : Twins w s c d) :
    indentationIndicator.Agrees w s c d := by
  refine mirrors_peek.mpr ?_
  rw [h.peek_zero]
  cases hc : c.peek 0 with
  | none => exact agrees_pure h
  | some ch =>
      rw [Option.map_some]
      refine mirrors_ite ?_ (fun _ => agrees_pure h) fun hdigit => ?_
      · rw [Spelling.class_first (p := isAsciiDigit) (by decide)]
      have hn : ch ≠ '\n' := by rintro rfl; exact hdigit (by decide)
      rw [Spelling.first_of_ne hn]
      exact mirrors_unless id fun _ => mirrors_advance.mpr (agrees_pure (h.forward_char hc hn))

lemma agrees_blockHeader (h : Twins w s c d) : blockHeader.Agrees w s c d := by
  refine (agrees_chomping h).bind fun first c₁ d₁ _ h₁ => ?_
  refine (agrees_indentationIndicator h₁).bind fun indentation c₂ d₂ _ h₂ => ?_
  have hend : ∀ {e e' : Cursor} (second : Option Chomping), Twins w s e e' → Agrees w s
      (do
        let a ← peek 0
        if !a.all isSpaceOrBreak then fail (.expectedBlockHeader a)
        return ((first.or second).getD .clip, indentation)) e e' := fun second he =>
    mirrors_peek.mpr (mirrors_unlessAll he (by decide) (agrees_pure he))
  refine mirrors_ite Iff.rfl (fun _ => ?_) fun _ => hend none h₂
  exact (agrees_chomping h₂).bind fun second c₃ d₃ _ h₃ => hend second h₃

/-- Empty lines with the mark behind them changed by a function. -/
def Breaks.mapMarks (f : Mark → Mark) (b : Breaks) : Breaks := { b with stop := f b.stop }

/-- The lines of a block scalar with the mark behind them changed by a function. -/
def BlockText.mapMarks (f : Mark → Mark) (t : BlockText) : BlockText :=
  { t with after := t.after.mapMarks f }

lemma mirrors_blockIndentation (h : Twins w s c d) :
    blockIndentation.Mirrors blockIndentation c d fun a b c' d' =>
      b = (a.1.mapMarks (Mark.spelled w s), a.2) ∧ Twins w s c' d' := by
  refine mirrors_here.mpr (mirrors_iterate (fun a b c' d' =>
    b = (a.1.mapMarks (Mark.spelled w s), a.2) ∧ Twins w s c' d') ⟨?_, h⟩ h.length_le ?_)
  · rw [h.mark]
    rfl
  rintro a _ c' d' ⟨rfl, h'⟩
  refine bind_lineBreak h' (fun _ => ?_) fun ch c'' d'' _ hlt h'' => ?_
  · refine mirrors_nextIs.mpr ?_
    rw [h'.nextIs (by decide)]
    refine mirrors_ite Iff.rfl (fun hspace => ?_) fun _ => mirrors_pure.mpr (.done ⟨rfl, h'⟩)
    have hspace : c'.peek 0 = some ' ' := by simpa using hspace
    have hone := h'.forward_char hspace (by decide)
    refine mirrors_advance.mpr (mirrors_column.mpr ?_)
    rw [hone.column_eq]
    exact mirrors_pure.mpr (.yield ⟨⟨rfl, hone⟩,
      index_lt_forward (by rw [rest_of_peek hspace]; simp) Nat.one_pos⟩)
  · refine mirrors_here.mpr (mirrors_pure.mpr (.yield ⟨⟨?_, h''⟩, hlt⟩))
    rw [h''.mark]
    rfl

lemma agrees_indentTo (h : Twins w s c d) (indent : Nat) :
    (indentTo indent).Agrees w s c d := by
  refine mirrors_ahead.mpr (mirrors_column.mpr ?_)
  have hspaces : d.rest.takeWhile (· = ' ') = c.rest.takeWhile (· = ' ') := by
    rw [h.rest, Spelling.takeWhile_body_of_eq_false (by decide) (by decide)]
  rw [hspaces, h.column_eq]
  refine mirrors_advance.mpr (agrees_pure (h.forward_of_not_mem fun hmem => ?_))
  have hfront := List.prefix_iff_eq_take.mp (List.takeWhile_prefix (l := c.rest) (· = ' '))
  have hmem' : '\n' ∈ c.rest.takeWhile (· = ' ') := by
    rw [hfront]
    exact List.take_subset_take_left _ (Nat.min_le_left _ _) hmem
  exact absurd (List.mem_takeWhile_imp hmem') (by decide)

lemma mirrors_blockBreaks (h : Twins w s c d) (indent : Nat) :
    (blockBreaks indent).Mirrors (blockBreaks indent) c d fun a b c' d' =>
      b = a.mapMarks (Mark.spelled w s) ∧ Twins w s c' d' := by
  refine mirrors_here.mpr ((agrees_indentTo h indent).bind fun _ c₁ d₁ _ h₁ => ?_)
  refine mirrors_iterate (fun a b c' d' => b = a.mapMarks (Mark.spelled w s) ∧ Twins w s c' d')
    ⟨?_, h₁⟩ h₁.length_le ?_
  · rw [h.mark]
    rfl
  rintro a _ c' d' ⟨rfl, h'⟩
  refine bind_lineBreak h' (fun _ => mirrors_pure.mpr (.done ⟨rfl, h'⟩))
    fun ch c'' d'' _ hlt h'' => mirrors_here.mpr ?_
  refine (agrees_indentTo h'' indent).bind fun _ c₃ d₃ hc₃ h₃ =>
    mirrors_pure.mpr (.yield ⟨⟨?_, h₃⟩, Nat.lt_of_lt_of_le hlt (index_le_of_before hc₃)⟩)
  rw [h''.mark]
  rfl

/-- A line of a block scalar is ahead in both texts or in none. -/
lemma bind_atBlockLine {indent : Nat} {f : Bool → Scan γ} {g : Bool → Scan δ}
    {R : γ → δ → Cursor → Cursor → Prop} (h : Twins w s c d)
    (hfg : ∀ b, (b = true → c.rest ≠ []) → (f b).Mirrors (g b) c d R) :
    (atBlockLine indent >>= f).Mirrors (atBlockLine indent >>= g) c d R := by
  have hsame : (atBlockLine indent).Mirrors (atBlockLine indent) c d fun a b c' d' =>
      b = a ∧ c' = c ∧ d' = d ∧ (a = true → c.rest ≠ []) := by
    refine mirrors_column.mpr (mirrors_peek.mpr (mirrors_pure.mpr ?_))
    rw [h.column_eq, h.peek_zero, Option.isSome_map]
    refine ⟨rfl, rfl, rfl, fun hline => ?_⟩
    rintro hnil
    simp [Cursor.peek, hnil] at hline
  refine mirrors_bind (hsame.mono ?_)
  rintro _ b c' d' ⟨rfl, rfl, rfl, hb⟩
  exact hfg b hb

lemma mirrors_blockLines (h : Twins w s c d) (folded : Bool) (indent : Nat) (before : Breaks) :
    (blockLines folded indent before).Mirrors
      (blockLines folded indent (before.mapMarks (Mark.spelled w s))) c d fun a b c' d' =>
        b = a.mapMarks (Mark.spelled w s) ∧ Twins w s c' d' := by
  refine mirrors_iterate (fun a b c' d' => b = a.mapMarks (Mark.spelled w s) ∧ Twins w s c' d')
    ⟨rfl, h⟩ h.length_le ?_
  rintro a _ c' d' ⟨rfl, h'⟩
  have hindents : ∀ {e e' : Cursor}, Twins w s e e' →
      (e'.peek 0).any blockLines.indents = (e.peek 0).any blockLines.indents :=
    fun he => he.any_peek (by decide)
  refine bind_atBlockLine h' fun b hb => ?_
  refine mirrors_ite Iff.rfl (fun _ => mirrors_pure.mpr (.done ⟨rfl, h'⟩)) fun hb' =>
    mirrors_peek.mpr ?_
  rw [hindents h']
  refine mirrors_bind (Mirrors.mono_ensures (agrees_takeWhile h' (by decide) (by decide))
    (E := fun run e => run = c'.rest.takeWhile (fun c => !isBreak c) ∧
      e = c'.forward run.length) (ensures_takeWhile_iff.mpr ⟨rfl, rfl⟩) ?_)
  rintro _ line c₁ d₁ ⟨hline, hc₁⟩ ⟨rfl, h₁⟩
  refine mirrors_bind ((mirrors_lineBreak h₁).mono_before ?_)
  rintro _ last c₂ d₂ hc₂ ⟨rfl, h₂, hstay, hmove⟩
  -- the line or the break behind it holds a character
  have hlt : c'.mark.index < c₂.mark.index := by
    by_cases hempty : line = []
    · obtain rfl : c₁ = c' := by rw [hc₁, hempty]; rfl
      refine hmove (Option.isSome_iff_ne_none.mpr fun hnone => ?_)
      obtain ⟨ch, t, hrest⟩ := List.exists_cons_of_ne_nil (hb (by simpa using hb'))
      have hpeek : c₁.peek 0 = some ch := by rw [Cursor.peek, hrest]; rfl
      have hbreak : isBreak ch = false := by simpa [hpeek] using (hstay hnone).2
      rw [hempty, hrest, List.takeWhile_cons_of_pos (by simpa using hbreak)] at hline
      cases hline
    · refine Nat.lt_of_lt_of_le ?_ (index_le_of_before hc₂)
      rw [hc₁]
      exact index_lt_forward (hb (by simpa using hb')) (List.length_pos_iff.mpr hempty)
  refine mirrors_bind ((mirrors_blockBreaks h₂ indent).mono_before ?_)
  rintro after _ c₃ d₃ hc₃ ⟨rfl, h₃⟩
  have hlt₃ := Nat.lt_of_lt_of_le hlt (index_le_of_before hc₃)
  refine bind_atBlockLine h₃ fun b' _ => ?_
  refine mirrors_ite Iff.rfl (fun _ => mirrors_pure.mpr (.done ⟨rfl, h₃⟩)) fun _ =>
    mirrors_peek.mpr ?_
  rw [hindents h₃]
  exact mirrors_ite Iff.rfl (fun _ => mirrors_pure.mpr (.yield ⟨⟨rfl, h₃⟩, hlt₃⟩)) fun _ =>
    mirrors_pure.mpr (.yield ⟨⟨rfl, h₃⟩, hlt₃⟩)

lemma respells_blockLexeme (h : Twins w s c d) (hc : c.peek 0 = some ch) (hn : ch ≠ '\n')
    (folded : Bool) (parent : Int) : (blockLexeme folded parent).Respells w s c d := by
  refine mirrors_here.mpr (mirrors_advance.mpr ?_)
  refine (agrees_blockHeader (h.forward_char hc hn)).bind fun header c₁ d₁ _ h₁ => ?_
  obtain ⟨chomp, indentation⟩ := header
  refine (agrees_ignoredLine h₁).bind fun _ c₂ d₂ _ h₂ => ?_
  have hbody : ∀ (content : BlockText → Content) (indent : Nat) (before : Breaks) {e e' : Cursor},
      (∀ t, content (t.mapMarks (Mark.spelled w s)) = content t) → Twins w s e e' →
      Mirrors
        (do
          let body ← blockLines folded indent before
          return (⟨content body, c.mark, body.after.stop⟩ : Lexeme))
        (do
          let body ← blockLines folded indent (before.mapMarks (Mark.spelled w s))
          return (⟨content body, d.mark, body.after.stop⟩ : Lexeme)) e e' (Respelled w s) := by
    intro content indent before e e' hcontent he
    refine mirrors_bind ((mirrors_blockLines he folded indent before).mono ?_)
    rintro body _ c₃ d₃ ⟨rfl, h₃⟩
    refine mirrors_pure.mpr ⟨?_, h₃⟩
    rw [h.mark, hcontent]
    rfl
  cases indentation with
  | none =>
      refine mirrors_bind ((mirrors_blockIndentation h₂).mono ?_)
      rintro ⟨before, found⟩ _ c₃ d₃ ⟨rfl, h₃⟩
      exact hbody _ _ before (fun _ => rfl) h₃
  | some n =>
      refine mirrors_bind ((mirrors_blockBreaks h₂ _).mono ?_)
      rintro before _ c₃ d₃ ⟨rfl, h₃⟩
      exact hbody _ _ before (fun _ => rfl) h₃

end Scan

end YamlNavigator.Yaml
