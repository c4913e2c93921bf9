import YamlNavigator.Proofs.Ansi.Codes
import YamlNavigator.Proofs.Yaml.Order

/-!
How the reading of units fails.

* `HoldsEscape`, `HoldsVersion`: a text holds an escape of eight digits, or a version number;
* `Failure.IsFounded`: a failure that is no problem at a place comes from a number in the text that
  is too large;
* `Scan.Fails`, `fails_bind`: how a step that begins at a cursor can fail;
* `Scan.IsFounded`: a step fails with what stands in the unread text, wherever it begins; it does if
  the steps that it is put together from do;
* `isFounded_scan`: so fails the reading of the units of a text.

Two readers need what stands in front of them: an escape its backslash, and a version the name of
its directive.
-/

namespace YamlNavigator.Yaml

open Text

/-- The text holds an escape of eight digits, which write the number `n`. -/
def HoldsEscape (s : List Char) (n : Nat) : Prop :=
  ∃ before digits after, s = before ++ '\\' :: 'U' :: (digits ++ after) ∧ digits.length = 8 ∧
    digits.all isHexDigit = true ∧ numberOf 16 digits = n

/-- The text holds a directive with a version, of which a number has `count` digits: it is the first
number, or stands behind the first one and a point. -/
def HoldsVersion (s : List Char) (count : Nat) : Prop :=
  ∃ before blanks major digits after,
    s = before ++ '%' :: ("YAML".toList ++ (blanks ++ (major ++ (digits ++ after)))) ∧
      blanks.all (· = ' ') = true ∧
      (major = [] ∨ ∃ ds, major = ds ++ ['.'] ∧ ds.all isAsciiDigit = true) ∧
      digits.all isAsciiDigit = true ∧ digits.length = count

/-- A failure that is none of a place has its cause in the text: a number that is too large. -/
def Failure.IsFounded (s : List Char) : Failure → Prop
  | .unacceptable _ _ | .problem _ _ => True
  | .escapeTooLarge => ∃ n, HoldsEscape s n ∧ 0x7fffffff < n
  | .escapeNoCodePoint => ∃ n, HoldsEscape s n ∧ 0x10ffff < n ∧ n ≤ 0x7fffffff
  | .versionTooLong count => HoldsVersion s count ∧ Integer.digitLimit < count

/-- What the end of a text holds, the text holds. -/
lemma HoldsEscape.mono {s t : List Char} {n : Nat} (h : HoldsEscape s n) (hst : s <:+ t) :
    HoldsEscape t n := by
  obtain ⟨before, digits, after, rfl, h⟩ := h
  obtain ⟨pre, rfl⟩ := hst
  exact ⟨pre ++ before, digits, after, by simp, h⟩

/-- What the end of a text holds, the text holds. -/
lemma HoldsVersion.mono {s t : List Char} {count : Nat} (h : HoldsVersion s count) (hst : s <:+ t) :
    HoldsVersion t count := by
  obtain ⟨before, blanks, major, digits, after, rfl, h⟩ := h
  obtain ⟨pre, rfl⟩ := hst
  exact ⟨pre ++ before, blanks, major, digits, after, by simp, h⟩

/-- The cause may stand in the end of a text. -/
lemma Failure.IsFounded.mono {s t : List Char} {f : Failure} (h : f.IsFounded s) (hst : s <:+ t) :
    f.IsFounded t := by
  cases f with
  | unacceptable c offset => trivial
  | problem cause mark => trivial
  | escapeTooLarge =>
      obtain ⟨n, hn, hlt⟩ := h
      exact ⟨n, hn.mono hst, hlt⟩
  | escapeNoCodePoint =>
      obtain ⟨n, hn, hlt⟩ := h
      exact ⟨n, hn.mono hst, hlt⟩
  | versionTooLong count => exact ⟨h.1.mono hst, h.2⟩

namespace Scan

variable {α β σ : Type} {c : Cursor}

/-! ### Failing steps -/

/-- If the step that begins at `c` fails, its failure satisfies `P`. -/
def Fails (x : Scan α) (c : Cursor) (P : Failure → Prop) : Prop :=
  ∀ f, x.run c = .error f → P f

/-- What a step fails with may be weakened. -/
lemma Fails.mono {x : Scan α} {P Q : Failure → Prop} (h : x.Fails c P) (hPQ : ∀ f, P f → Q f) :
    x.Fails c Q :=
  fun f hf => hPQ f (h f hf)

/-- Two steps in turn fail as the first one does, or behind it as the second one does. -/
lemma fails_bind {x : Scan α} {f : α → Scan β} {P : Failure → Prop} :
    (x >>= f).Fails c P ↔ x.Fails c P ∧ x.Ensures c fun a d => (f a).Fails d P := by
  constructor
  · intro h
    refine ⟨fun e he => h e ?_, fun a d hx e he => h e ?_⟩
    · show (Scan.bind x f).run c = .error e
      dsimp only [Scan.bind]
      rw [he]
    · show (Scan.bind x f).run c = .error e
      dsimp only [Scan.bind]
      rw [hx]
      exact he
  · rintro ⟨hx, hf⟩ e he
    replace he : (Scan.bind x f).run c = .error e := he
    dsimp only [Scan.bind] at he
    split at he
    · next hrun =>
        cases he
        exact hx _ hrun
    · next a d hrun => exact hf a d hrun e he

lemma fails_pure {a : α} {P : Failure → Prop} : (Pure.pure a : Scan α).Fails c P :=
  fun _ hf => by cases hf

lemma fails_here {P : Failure → Prop} : here.Fails c P := fun _ hf => by cases hf

lemma fails_ahead {P : Failure → Prop} : ahead.Fails c P := fun _ hf => by cases hf

lemma fails_peek {k : Nat} {P : Failure → Prop} : (peek k).Fails c P := fun _ hf => by cases hf

lemma fails_advance {n : Nat} {P : Failure → Prop} : (advance n).Fails c P :=
  fun _ hf => by cases hf

lemma fails_raise {e : Failure} {P : Failure → Prop} : (raise e : Scan α).Fails c P ↔ P e :=
  ⟨fun h => h e rfl, fun h f hf => by cases hf; exact h⟩

/-- A step that is chosen by a condition fails as one of the choices does. -/
lemma fails_ite {p : Prop} [Decidable p] {x y : Scan α} {P : Failure → Prop}
    (hx : p → x.Fails c P) (hy : ¬p → y.Fails c P) : (if p then x else y).Fails c P := by
  split
  · exact hx ‹_›
  · exact hy ‹_›

/-- A refusal fails with a problem. -/
lemma fails_fail {cause : Problem} {P : Failure → Prop} (h : P (.problem cause c.mark)) :
    (fail cause : Scan α).Fails c P := by
  rw [fail, fails_bind, ensures_here, fails_raise]
  exact ⟨fails_here, h⟩

/-- A failure, whatever would be behind it. -/
lemma fails_raise_bind {e : Failure} {f : α → Scan β} {P : Failure → Prop} (h : P e) :
    (raise e >>= f).Fails c P :=
  fails_bind.mpr ⟨fails_raise.mpr h, ensures_raise⟩

/-- A refusal in front of a step. -/
lemma fails_orFail {p : Prop} [Decidable p] {cause : Problem} {f : Unit → Scan α}
    {P : Failure → Prop} (hcause : P (.problem cause c.mark)) (h : ¬p → (f ()).Fails c P) :
    (if p then fail cause >>= f else f ()).Fails c P :=
  fails_ite (fun _ => fails_bind.mpr ⟨fails_fail hcause, ensures_fail⟩) h

/-! ### Founded steps -/

/-- Wherever the step begins, it fails with a problem at a place or with what stands in the unread
text. -/
def IsFounded (x : Scan α) : Prop := ∀ c, x.Fails c (·.IsFounded c.rest)

/-- A founded step fails so at each cursor. -/
lemma IsFounded.fails {x : Scan α} (h : x.IsFounded) : x.Fails c (·.IsFounded c.rest) := h c

namespace IsFounded

lemma pure (a : α) : (Pure.pure a : Scan α).IsFounded := fun _ => fails_pure

lemma here : here.IsFounded := fun _ => fails_here

lemma ahead : ahead.IsFounded := fun _ => fails_ahead

lemma peek (k : Nat) : (peek k).IsFounded := fun _ => fails_peek

lemma advance (n : Nat) : (advance n).IsFounded := fun _ => fails_advance

lemma fail (cause : Problem) : (fail cause : Scan α).IsFounded := fun _ => fails_fail trivial

/-- Two founded steps in turn are founded: what is left behind the first one is the end of what it
found. -/
lemma bind {x : Scan α} {f : α → Scan β} (hx : x.IsFounded) (hf : ∀ a, (f a).IsFounded) :
    (x >>= f).IsFounded := by
  intro c
  rw [fails_bind]
  refine ⟨hx c, .of_before fun a d hcd => (hf a d).mono fun e he => ?_⟩
  exact he.mono hcd.rest_suffix

lemma ite {p : Prop} [Decidable p] {x y : Scan α} (hx : x.IsFounded) (hy : y.IsFounded) :
    (if p then x else y).IsFounded := by
  split
  · exact hx
  · exact hy

/-- A refusal in front of a founded step. -/
lemma orFail {p : Prop} [Decidable p] {cause : Problem} {f : Unit → Scan α}
    (h : (f ()).IsFounded) : (if p then Scan.fail cause >>= f else f ()).IsFounded :=
  .ite (.bind (.fail cause) fun _ => h) h

/-- A repetition is founded if its rounds are. -/
lemma iterate {step : σ → Scan (ForInStep σ)} (hstep : ∀ s, (step s).IsFounded) (s : σ) :
    (iterate step s).IsFounded := by
  refine .bind .ahead fun bound => ?_
  induction bound generalizing s with
  | nil =>
      refine .bind (hstep s) fun r => ?_
      cases r <;> exact .pure _
  | cons ch bound ih =>
      refine .bind (hstep s) fun r => ?_
      cases r with
      | done t => exact .pure t
      | yield t => exact ih t

lemma takeWhile (p : Char → Bool) : (takeWhile p).IsFounded :=
  .bind .ahead fun _ => .bind (.advance _) fun _ => .pure _

lemma skipWhile (p : Char → Bool) : (skipWhile p).IsFounded :=
  .bind (.takeWhile p) fun _ => .pure _

lemma column : column.IsFounded := .bind .here fun _ => .pure _

lemma nextIs (ch : Char) : (nextIs ch).IsFounded := .bind (.peek 0) fun _ => .pure _

lemma lineBreak : lineBreak.IsFounded := by
  refine .bind (.peek 0) fun r => ?_
  cases r with
  | none => exact .pure none
  | some ch =>
      refine .bind (.peek 1) fun after => ?_
      exact .ite (.bind (.advance 2) fun _ => .pure _) <|
        .ite (.bind (.advance 1) fun _ => .pure _) <|
        .ite (.bind (.advance 1) fun _ => .pure _) (.pure none)

lemma atSeparator : atSeparator.IsFounded := .bind .ahead fun _ => .bind (.peek 3) fun _ => .pure _

lemma ignoredLine : ignoredLine.IsFounded := by
  have hend : (do
      let c ← Scan.peek 0
      if !c.all isBreak then Scan.fail (.expectedCommentOrBreak c)
      let _ ← Scan.lineBreak : Scan Unit).IsFounded :=
    .bind (.peek 0) fun _ => .orFail (.bind .lineBreak fun _ => .pure _)
  exact .bind (.skipWhile _) fun _ => .bind (.nextIs '#') fun _ =>
    .ite (.bind (.skipWhile _) fun _ => hend) hend

/-! ### Names, tags and plain scalars -/

lemma namedLexeme (content : String → Content) : (namedLexeme content).IsFounded :=
  .bind .here fun _ => .bind (.advance 1) fun _ => .bind (.takeWhile _) fun _ =>
    .bind (.peek 0) fun _ => .orFail (.bind .here fun _ => .pure _)

lemma tagHandle : tagHandle.IsFounded := by
  have hname : (do
      let name ← Scan.takeWhile isNameChar
      let c ← Scan.peek 0
      if c != some '!' then Scan.fail (.expectedExclamation c)
      Scan.advance 1
      return '!' :: name ++ ['!'] : Scan (List Char)).IsFounded :=
    .bind (.takeWhile _) fun _ => .bind (.peek 0) fun _ =>
      .orFail (.bind (.advance 1) fun _ => .pure _)
  exact .bind (.peek 0) fun _ => .orFail (.bind (.advance 1) fun _ =>
    .bind (.nextIs ' ') fun _ => .ite (.pure _) hname)

lemma uriByte : uriByte.IsFounded :=
  .bind (.peek 0) fun _ => .orFail (.bind (.peek 1) fun _ =>
    .orFail (.bind (.advance 2) fun _ => .pure _))

lemma uriEscapes : uriEscapes.IsFounded := by
  refine .bind .here fun start => .bind (.iterate (fun bytes => ?_) _) fun bytes => ?_
  · exact .bind (.nextIs '%') fun _ => .ite
      (.bind (.advance 1) fun _ => .bind .uriByte fun _ => .pure _) (.pure _)
  · split
    · exact .pure _
    · exact fun _ => fails_raise.mpr trivial

lemma tagUri : tagUri.IsFounded := by
  refine .bind (.iterate (fun parts => ?_) _) fun parts => ?_
  · exact .bind (.nextIs '%') fun _ => .ite (.bind .uriEscapes fun _ => .pure _)
      (.bind (.takeWhile _) fun _ => .ite (.pure _) (.pure _))
  · exact .ite (.bind (.peek 0) fun _ => .bind (.fail _) fun _ => .pure _) (.pure _)

/-- The end of a tag: what follows is checked. -/
private lemma tagEnd (start : Mark) (p : Option (List Char) × List Char) :
    (match p with
      | (handle, suffix) => do
          let e ← Scan.peek 0
          if !e.all isSpaceOrBreak then Scan.fail (.expectedSpace e)
          return ⟨.tag (handle.map String.ofList) (String.ofList suffix), start, ← Scan.here⟩ :
      Scan Lexeme).IsFounded := by
  obtain ⟨handle, suffix⟩ := p
  exact .bind (.peek 0) fun _ => .orFail (.bind .here fun _ => .pure _)

lemma tagLexeme : tagLexeme.IsFounded := by
  refine .bind .here fun start => .bind (.peek 1) fun c => .bind .ahead fun rest => ?_
  refine .ite ?_ (.ite ?_ (.ite ?_ ?_))
  · exact .bind (.advance 2) fun _ => .bind .tagUri fun _ => .bind (.peek 0) fun _ =>
      .orFail (.bind (.advance 1) fun _ => .bind (.pure _) (tagEnd start))
  · exact .bind (.advance 1) fun _ => .bind (.pure _) (tagEnd start)
  · exact .bind .tagHandle fun _ => .bind .tagUri fun _ => .bind (.pure _) (tagEnd start)
  · exact .bind (.advance 1) fun _ => .bind .tagUri fun _ => .bind (.pure _) (tagEnd start)

lemma plainBreaks : plainBreaks.IsFounded := by
  refine .bind .atSeparator fun _ => .ite (.pure none) (.iterate (fun breaks? => ?_) _)
  cases breaks? with
  | none => exact .pure _
  | some breaks =>
      refine .bind (.nextIs ' ') fun _ => .ite (.bind (.advance 1) fun _ => .pure _)
        (.bind .lineBreak fun r => ?_)
      cases r with
      | none => exact .pure _
      | some ch => exact .bind .atSeparator fun _ => .ite (.pure _) (.pure _)

lemma plainBlanks : plainBlanks.IsFounded := by
  refine .bind (.takeWhile _) fun blanks => .bind .lineBreak fun r => ?_
  cases r with
  | none => exact .pure _
  | some first =>
      refine .bind .plainBreaks fun more => ?_
      cases more <;> exact .pure _

lemma plainLexeme (flow : Bool) (parent : Int) : (plainLexeme flow parent).IsFounded := by
  refine .bind .here fun start => .bind (.iterate (fun s => ?_) _) fun s => .pure _
  refine .bind (.nextIs '#') fun _ => .ite (.pure _) (.bind .ahead fun rest => .ite (.pure _) ?_)
  refine .bind (.advance _) fun _ => .bind .here fun _ => .bind .plainBlanks fun _ =>
    .bind .column fun _ => .ite (.pure _) (.pure _)

/-! ### Block scalars -/

lemma chomping : chomping.IsFounded := by
  refine .bind (.peek 0) fun c => ?_
  split
  · exact .bind (.advance 1) fun _ => .pure _
  · exact .bind (.advance 1) fun _ => .pure _
  · exact .pure _

lemma indentationIndicator : indentationIndicator.IsFounded := by
  refine .bind (.peek 0) fun c => ?_
  cases c with
  | none => exact .pure _
  | some ch => exact .ite (.pure _) (.orFail (.bind (.advance 1) fun _ => .pure _))

lemma blockHeader : blockHeader.IsFounded := by
  refine .bind .chomping fun first => .bind .indentationIndicator fun indentation => ?_
  have hend : ∀ second : Option Chomping, (do
      let c ← Scan.peek 0
      if !c.all isSpaceOrBreak then Scan.fail (.expectedBlockHeader c)
      return ((first.or second).getD .clip, indentation) :
      Scan (Chomping × Option Nat)).IsFounded := fun _ =>
    .bind (.peek 0) fun _ => .orFail (.pure _)
  exact .ite (.bind .chomping hend) (.bind (.pure _) hend)

lemma blockIndentation : blockIndentation.IsFounded := by
  refine .bind .here fun start => .iterate (fun s => .bind .lineBreak fun r => ?_) _
  cases r with
  | some ch => exact .bind .here fun _ => .pure _
  | none =>
      exact .bind (.nextIs ' ') fun _ => .ite
        (.bind (.advance 1) fun _ => .bind .column fun _ => .pure _) (.pure _)

lemma indentTo (indent : Nat) : (indentTo indent).IsFounded :=
  .bind .ahead fun _ => .bind .column fun _ => .advance _

lemma blockBreaks (indent : Nat) : (blockBreaks indent).IsFounded := by
  refine .bind .here fun start => .bind (.indentTo indent) fun _ =>
    .iterate (fun s => .bind .lineBreak fun r => ?_) _
  cases r with
  | some ch => exact .bind .here fun _ => .bind (.indentTo indent) fun _ => .pure _
  | none => exact .pure _

lemma atBlockLine (indent : Nat) : (atBlockLine indent).IsFounded :=
  .bind .column fun _ => .bind (.peek 0) fun _ => .pure _

lemma blockLines (folded : Bool) (indent : Nat) (before : Breaks) :
    (blockLines folded indent before).IsFounded := by
  refine .iterate (fun s => .bind (.atBlockLine indent) fun _ => .ite (.pure _) ?_) _
  refine .bind (.peek 0) fun _ => .bind (.takeWhile _) fun _ => .bind .lineBreak fun _ =>
    .bind (.blockBreaks indent) fun _ => .bind (.atBlockLine indent) fun _ => .ite (.pure _) ?_
  exact .bind (.peek 0) fun _ => .ite (.pure _) (.pure _)

lemma blockLexeme (folded : Bool) (parent : Int) : (blockLexeme folded parent).IsFounded := by
  refine .bind .here fun start => .bind (.advance 1) fun _ => .bind .blockHeader fun header => ?_
  obtain ⟨chomp, indentation⟩ := header
  refine .bind .ignoredLine fun _ => ?_
  cases indentation with
  | none =>
      refine .bind .blockIndentation fun p => ?_
      exact .bind (.pure _) fun _ => .bind (.blockLines _ _ _) fun _ => .pure _
  | some n =>
      refine .bind (.blockBreaks _) fun before => ?_
      exact .bind (.pure _) fun _ => .bind (.blockLines _ _ _) fun _ => .pure _

/-! ### Quoted scalars -/

lemma foldedBreaks : foldedBreaks.IsFounded := by
  refine .iterate (fun breaks => .bind .atSeparator fun _ => .orFail ?_) _
  refine .bind (.skipWhile _) fun _ => .bind .lineBreak fun r => ?_
  cases r <;> exact .pure _

lemma quotedBlanks : quotedBlanks.IsFounded := by
  refine .bind (.takeWhile _) fun blanks => .bind (.peek 0) fun _ => .orFail ?_
  refine .bind .lineBreak fun r => ?_
  cases r with
  | none => exact .pure _
  | some first => exact .bind .foldedBreaks fun _ => .pure _

end IsFounded

/-- The number of digits in base sixteen is bounded by their count. -/
lemma numberOf_lt (ds : List Char) : numberOf 16 ds < 16 ^ ds.length := by
  induction ds using List.reverseRecOn with
  | nil => simp [numberOf]
  | append_singleton ds d ih =>
      have hd := Ansi.Color.hexValue_lt d
      rw [numberOf, List.foldl_append, List.length_append, Nat.pow_add]
      simp only [List.foldl_cons, List.foldl_nil, List.length_singleton, pow_one]
      rw [numberOf] at ih
      omega

/-- A run as long as asked for holds nothing else. -/
lemma all_of_length_takeWhile {p : Char → Bool} {s : List Char} {n : Nat}
    (h : ¬(s.take n |>.takeWhile p).length < n) :
    (s.take n).length = n ∧ (s.take n).all p = true := by
  have hle : (s.take n).length ≤ n := List.length_take_le n s
  have hpre : (s.take n).takeWhile p <+: s.take n := List.takeWhile_prefix p
  have hrun := hpre.length_le
  have heq : (s.take n).takeWhile p = s.take n := hpre.eq_of_length (by omega)
  exact ⟨by omega, by rw [← heq]; exact List.all_takeWhile⟩

/-- The failures of an escape whose digits write a number that is too large. -/
inductive TooLarge (digits : List Char) : Failure → Prop
  | thirtyOneBits (h : 0x7fffffff < numberOf 16 digits) : TooLarge digits .escapeTooLarge
  | codePoints (h : 0x10ffff < numberOf 16 digits) (le : numberOf 16 digits ≤ 0x7fffffff) :
      TooLarge digits .escapeNoCodePoint

/-- An escape that its digits make too large fails for that reason, and any other with a problem. -/
lemma fails_numericEscape (width : Nat) : (numericEscape width).Fails c fun f =>
    (∃ cause mark, f = .problem cause mark) ∨
      ∃ digits after, c.rest = digits ++ after ∧ digits.length = width ∧
        digits.all isHexDigit = true ∧ TooLarge digits f := by
  rw [numericEscape, fails_bind, ensures_ahead]
  refine ⟨fails_ahead, ?_⟩
  dsimp only
  refine fails_ite (fun _ => ?_) fun hvalid => ?_
  · rw [fails_bind, ensures_peek, fails_bind]
    exact ⟨fails_peek, fails_fail (.inl ⟨_, _, rfl⟩), ensures_fail⟩
  · obtain ⟨hlen, hall⟩ := all_of_length_takeWhile hvalid
    have hdigits {f : Failure} (hf : TooLarge (c.rest.take width) f) :
        ∃ digits after, c.rest = digits ++ after ∧ digits.length = width ∧
          digits.all isHexDigit = true ∧ TooLarge digits f :=
      ⟨_, _, (List.take_append_drop width c.rest).symm, hlen, hall, hf⟩
    refine fails_ite (fun hlarge => fails_raise_bind (.inr (hdigits (.thirtyOneBits hlarge))))
      fun hle => fails_ite (fun hlarge => fails_raise_bind (.inr (hdigits
        (.codePoints hlarge (Nat.le_of_not_lt hle))))) fun _ => ?_
    rw [fails_bind]
    exact ⟨fails_advance, .of_before fun _ _ _ => fails_pure⟩

/-- An escape that is too large is one of eight digits. -/
lemma isFounded_of_tooLarge {ch : Char} {width : Nat} (hwidth : escapeWidth? ch = some width)
    {digits after : List Char} (hlen : digits.length = width)
    (hall : digits.all isHexDigit = true) {f : Failure} (hf : TooLarge digits f) :
    f.IsFounded ('\\' :: ch :: (digits ++ after)) := by
  have hlt := numberOf_lt digits
  have hmin : 0x10ffff < numberOf 16 digits := by
    cases hf with
    | thirtyOneBits h => omega
    | codePoints h le => exact h
  obtain ⟨rfl, rfl⟩ : ch = 'U' ∧ width = 8 := by
    unfold escapeWidth? at hwidth
    split at hwidth
    · cases hwidth
      rw [hlen] at hlt
      omega
    · cases hwidth
      rw [hlen] at hlt
      omega
    · cases hwidth
      exact ⟨rfl, rfl⟩
    · cases hwidth
  have hholds : HoldsEscape ('\\' :: 'U' :: (digits ++ after)) (numberOf 16 digits) :=
    ⟨[], digits, after, rfl, hlen, hall, rfl⟩
  cases hf with
  | thirtyOneBits h => exact ⟨_, hholds, h⟩
  | codePoints h le => exact ⟨_, hholds, h, le⟩

/-- An escape fails with what stands behind its backslash. -/
lemma fails_escape : escape.Fails c fun f => f.IsFounded ('\\' :: c.rest) := by
  have hbehind {x : Scan (List Char)} (hx : x.IsFounded) :
      x.Fails c fun f => f.IsFounded ('\\' :: c.rest) :=
    (hx c).mono fun f hf => hf.mono (List.suffix_cons _ _)
  rw [escape, fails_bind, ensures_peek]
  refine ⟨fails_peek, ?_⟩
  split
  · exact hbehind (.bind (.advance 1) fun _ => .pure _)
  · split
    · next width hwidth =>
        obtain ⟨ch, hch, hwidth⟩ := Option.bind_eq_some_iff.mp hwidth
        rw [fails_bind, ensures_advance, fails_bind]
        refine ⟨fails_advance, (fails_numericEscape width).mono fun f hf => ?_,
          .of_before fun _ _ _ => fails_pure⟩
        rcases hf with ⟨cause, mark, rfl⟩ | ⟨digits, after, hrest, hlen, hall, hf⟩
        · trivial
        · rw [Cursor.rest_of_peek hch, hrest]
          exact isFounded_of_tooLarge hwidth hlen hall hf
    · refine hbehind (.ite (.bind .lineBreak fun _ => .foldedBreaks) (.fail _))

/-- In front of an escape the run has its backslash. -/
lemma isFounded_quotedRun (double : Bool) : (quotedRun double).IsFounded := by
  refine .iterate (fun s c => ?_) _
  rw [fails_bind, ensures_peek]
  refine ⟨fails_peek, ?_⟩
  cases hpeek : c.peek 0 with
  | none => exact fails_pure
  | some ch =>
      refine fails_ite (fun _ => (IsFounded.bind (.takeWhile _) fun _ => .pure _).fails)
        fun _ => ?_
      rw [fails_bind, ensures_peek]
      refine ⟨fails_peek, ?_⟩
      refine fails_ite (fun _ => (IsFounded.bind (.advance 2) fun _ => .pure _).fails) fun _ => ?_
      refine fails_ite (fun _ => (IsFounded.bind (.advance 1) fun _ => .pure _).fails) fun _ => ?_
      refine fails_ite (fun hslash => ?_) fun _ => fails_pure
      obtain rfl : ch = '\\' := by simpa using (Bool.and_eq_true_iff.mp hslash).2
      rw [fails_bind, ensures_advance, fails_bind]
      refine ⟨fails_advance, ?_, .of_before fun _ _ _ => fails_pure⟩
      rw [Cursor.rest_of_peek hpeek]
      exact fails_escape

lemma isFounded_quotedLexeme (double : Bool) : (quotedLexeme double).IsFounded := by
  refine .bind .here fun start => .bind (.advance 1) fun _ =>
    .bind (isFounded_quotedRun double) fun first => .bind (.iterate (fun s => ?_) _) fun text => ?_
  · exact .bind (.nextIs _) fun _ => .ite (.pure _)
      (.bind .quotedBlanks fun _ => .bind (isFounded_quotedRun double) fun _ => .pure _)
  · exact .bind (.advance 1) fun _ => .bind .here fun _ => .pure _

/-! ### Directives -/

/-- A number of a version that is too long fails for that reason, and any other with a problem. -/
lemma fails_versionNumber : versionNumber.Fails c fun f =>
    (∃ cause mark, f = .problem cause mark) ∨
      ∃ digits after, c.rest = digits ++ after ∧ digits.all isAsciiDigit = true ∧
        f = .versionTooLong digits.length ∧ Integer.digitLimit < digits.length := by
  rw [versionNumber, fails_bind, ensures_peek]
  refine ⟨fails_peek, fails_orFail (.inl ⟨_, _, rfl⟩) fun _ => ?_⟩
  rw [fails_bind, ensures_ahead]
  refine ⟨fails_ahead, fails_ite (fun hlong => fails_raise_bind (.inr ?_)) fun _ => ?_⟩
  · exact ⟨_, _, List.takeWhile_append_dropWhile.symm, List.all_takeWhile, rfl, hlong⟩
  · rw [fails_bind]
    exact ⟨fails_advance, .of_before fun _ _ _ => fails_pure⟩

/-- A number of a version takes digits. -/
lemma ensures_versionNumber {Q : Nat → Cursor → Prop}
    (h : ∀ digits m d, c.rest = digits ++ d.rest → digits.all isAsciiDigit = true → Q m d) :
    versionNumber.Ensures c Q := by
  rw [versionNumber, ensures_bind, ensures_peek]
  refine ensures_unless fun _ => ?_
  rw [ensures_bind, ensures_ahead]
  refine ensures_ite (fun _ => ?_) fun _ => ?_
  · rw [ensures_bind]
    exact ensures_raise
  · rw [ensures_bind, ensures_advance, ensures_pure]
    refine h (c.rest.takeWhile isAsciiDigit) _ _ ?_ List.all_takeWhile
    rw [Cursor.rest_forward]
    exact (List.prefix_iff_eq_append.mp (List.takeWhile_prefix isAsciiDigit)).symm

/-- A version fails with one of its two numbers, or with a problem. -/
lemma fails_versionValue : versionValue.Fails c fun f =>
    f.IsFounded ('%' :: ("YAML".toList ++ c.rest)) := by
  rw [versionValue, fails_bind]
  refine ⟨(IsFounded.skipWhile _ c).mono fun f hf => hf.mono ?_, ?_⟩
  · exact (List.suffix_append _ _).trans (List.suffix_cons _ _)
  rw [skipWhile, ensures_bind]
  refine ensures_takeWhile fun blanks d hblanks hall => ensures_pure.mpr ?_
  -- either number
  have hnumber (major digits after : List Char) {f : Failure}
      (hd : d.rest = major ++ (digits ++ after))
      (hmajor : major = [] ∨ ∃ ds, major = ds ++ ['.'] ∧ ds.all isAsciiDigit = true)
      (hdigits : digits.all isAsciiDigit = true) (hf : f = .versionTooLong digits.length)
      (hlong : Integer.digitLimit < digits.length) :
      f.IsFounded ('%' :: ("YAML".toList ++ c.rest)) := by
    rw [hf, hblanks, hd]
    exact ⟨⟨[], blanks, major, digits, after, rfl, hall, hmajor, hdigits, rfl⟩, hlong⟩
  rw [fails_bind]
  refine ⟨fails_versionNumber.mono fun f hf => ?_, ?_⟩
  · rcases hf with ⟨cause, mark, rfl⟩ | ⟨digits, after, hd, hdigits, hf, hlong⟩
    · trivial
    · exact hnumber [] digits after hd (.inl rfl) hdigits hf hlong
  · refine ensures_versionNumber fun ds _ e hd hds => ?_
    rw [fails_bind, ensures_peek]
    refine ⟨fails_peek, fails_orFail trivial fun hpoint => ?_⟩
    rw [fails_bind, ensures_advance, fails_bind]
    refine ⟨fails_advance, fails_versionNumber.mono fun f hf => ?_, .of_before fun _ e _ => ?_⟩
    · rcases hf with ⟨cause, mark, rfl⟩ | ⟨digits, after, he, hdigits, hf, hlong⟩
      · trivial
      · refine hnumber (ds ++ ['.']) digits after ?_ (.inr ⟨ds, rfl, hds⟩) hdigits hf hlong
        rw [hd, Cursor.rest_of_peek (by simpa using hpoint), he, List.append_assoc]
        rfl
    · rw [fails_bind]
      exact ⟨fails_peek, .of_before fun _ _ _ => fails_orFail trivial fun _ => fails_pure⟩

/-- The name of a directive is read as it stands. -/
lemma ensures_directiveName {Q : List Char → Cursor → Prop}
    (h : ∀ name d, c.rest = name ++ d.rest → Q name d) : directiveName.Ensures c Q := by
  rw [directiveName, ensures_bind]
  refine ensures_takeWhile fun name d hd _ => ?_
  rw [ensures_bind, ensures_peek]
  exact ensures_unless fun _ => ensures_pure.mpr (h name d hd)

namespace IsFounded

lemma directiveName : directiveName.IsFounded :=
  .bind (.takeWhile _) fun _ => .bind (.peek 0) fun _ => .orFail (.pure _)

lemma tagHandleValue : tagHandleValue.IsFounded :=
  .bind (.skipWhile _) fun _ => .bind .tagHandle fun _ => .bind (.peek 0) fun _ =>
    .orFail (.bind (.skipWhile _) fun _ => .bind .tagUri fun _ => .bind (.peek 0) fun _ =>
      .orFail (.pure _))

end IsFounded

/-- What is read behind the value of a directive is founded. -/
private lemma isFounded_directiveEnd (start : Mark) (v : Directive) : (do
    let stop ← here
    if let .unknown _ := v then skipWhile fun c => !isBreak c
    ignoredLine
    return (⟨.directive v, start, stop⟩ : Lexeme) : Scan Lexeme).IsFounded := by
  refine .bind .here fun stop => ?_
  have hline := IsFounded.bind .ignoredLine fun _ : Unit =>
    IsFounded.pure (⟨.directive v, start, stop⟩ : Lexeme)
  dsimp only
  split
  · exact .bind (.skipWhile _) fun _ => hline
  · exact hline

/-- A directive fails with what stands behind its percent sign. -/
lemma fails_directiveLexeme (hc : c.peek 0 = some '%') :
    directiveLexeme.Fails c fun f => f.IsFounded c.rest := by
  rw [directiveLexeme, fails_bind, ensures_here, fails_bind, ensures_advance, fails_bind]
  refine ⟨fails_here, fails_advance, ?_, ?_⟩
  · refine (IsFounded.directiveName _).mono fun f hf => hf.mono ?_
    rw [Cursor.rest_of_peek hc]
    exact List.suffix_cons _ _
  · refine ensures_directiveName fun name d hd => ?_
    have hrest : c.rest = '%' :: (name ++ d.rest) := by rw [Cursor.rest_of_peek hc, hd]
    have hbehind {x : Scan Lexeme} {e : Cursor} (hx : x.IsFounded) (he : d.Before e) :
        x.Fails e fun f => f.IsFounded c.rest := by
      refine (hx e).mono fun f hf => hf.mono (he.rest_suffix.trans ?_)
      rw [hrest]
      exact (List.suffix_append _ _).trans (List.suffix_cons _ _)
    dsimp only
    refine fails_ite (fun hname => ?_) fun _ => ?_
    · have hname : name = "YAML".toList := by rw [← hname, String.toList_ofList]
      rw [fails_bind]
      refine ⟨?_, .of_before fun v e he => hbehind (isFounded_directiveEnd c.mark v) he⟩
      rw [hrest, hname]
      exact fails_versionValue
    · have hend := isFounded_directiveEnd c.mark
      exact hbehind (.ite (.bind .tagHandleValue hend) (.bind (.pure _) hend))
        (Cursor.before_refl d)

end Scan

/-! ### The units of a whole text -/

namespace Context

open Scan Scan.IsFounded

variable {c : Cursor}

lemma isFounded_dropPending (x : Context) : x.dropPending.IsFounded := .orFail (.pure _)

lemma isFounded_savePending (x : Context) : x.savePending.IsFounded :=
  .ite (.pure _) (.bind .here fun _ => .bind (isFounded_dropPending _) fun _ => .pure _)

lemma isFounded_dropStale (x : Context) : x.dropStale.IsFounded :=
  .bind .here fun _ => .orFail (.pure _)

/-- The end of a line of blanks. -/
private lemma isFounded_blankBreak (x : Context) : (do
    match ← lineBreak with
    | none => return .done x
    | some _ => return .yield (if x.inFlow then x else { x with keyAllowed := true }) :
    Scan (ForInStep Context)).IsFounded := by
  refine .bind .lineBreak fun r => ?_
  cases r <;> exact .pure _

private lemma isFounded_blankLines (x : Context) : (iterate (fun x : Context => do
    skipWhile (· = ' ')
    if ← nextIs '#' then skipWhile fun c => !isBreak c
    match ← lineBreak with
    | none => return .done x
    | some _ => return .yield (if x.inFlow then x else { x with keyAllowed := true }))
    x).IsFounded :=
  .iterate (fun y => .bind (.skipWhile _) fun _ => .bind (.nextIs '#') fun _ =>
    .ite (.bind (.skipWhile _) fun _ => isFounded_blankBreak y) (isFounded_blankBreak y)) x

lemma isFounded_skipBlanks (x : Context) : x.skipBlanks.IsFounded :=
  .bind .here fun _ => .bind (.nextIs _) fun _ =>
    .ite (.bind (.advance 1) fun _ => isFounded_blankLines x) (isFounded_blankLines x)

lemma isFounded_readMark (x : Context) (content : Content) (n : Nat) :
    (x.readMark content n).IsFounded :=
  .bind .here fun _ => .bind (.advance n) fun _ => .bind .here fun _ => .pure _

lemma isFounded_closeDocument (x : Context) : x.closeDocument.IsFounded :=
  .bind .here fun _ => .bind (isFounded_dropPending _) fun _ => .pure _

lemma isFounded_readEnd (x : Context) : x.readEnd.IsFounded :=
  .bind (isFounded_closeDocument x) fun _ => .bind .here fun _ => .pure _

/-- A directive is read at the cursor, where its percent sign stands. -/
lemma fails_readDirective (x : Context) (hc : c.peek 0 = some '%') :
    x.readDirective.Fails c (·.IsFounded c.rest) := by
  rw [readDirective, fails_bind]
  refine ⟨isFounded_closeDocument x c, ?_⟩
  rw [closeDocument, ensures_bind, ensures_here]
  dsimp only
  rw [ensures_bind]
  refine ensures_dropPending (ensures_pure.mpr ?_)
  rw [fails_bind]
  exact ⟨fails_directiveLexeme hc, .of_before fun _ _ _ => fails_pure⟩

lemma isFounded_readSeparator (x : Context) (content : Content) :
    (x.readSeparator content).IsFounded :=
  .bind (isFounded_closeDocument x) fun _ => isFounded_readMark _ content 3

lemma isFounded_readFlowStart (x : Context) (content : Content) :
    (x.readFlowStart content).IsFounded :=
  .bind (isFounded_savePending x) fun _ => isFounded_readMark _ content 1

lemma isFounded_readFlowEnd (x : Context) (content : Content) :
    (x.readFlowEnd content).IsFounded :=
  .bind (isFounded_dropPending x) fun _ => isFounded_readMark _ content 1

lemma isFounded_readFlowEntry (x : Context) : x.readFlowEntry.IsFounded :=
  .bind (isFounded_dropPending x) fun _ => isFounded_readMark _ .flowEntry 1

lemma isFounded_openBlockHere (x : Context) (content : Content) (refusal : Problem) :
    (x.openBlockHere content refusal).IsFounded :=
  .ite (.pure _) (.orFail (.bind .here fun _ => .pure _))

/-- An indicator that may begin a block collection. -/
lemma isFounded_readIndicator (x : Context) (content unit : Content) (refusal : Problem)
    (f : Context → Context) : (do
      let x ← x.openBlockHere content refusal
      let x ← x.dropPending
      (f x).readMark unit 1 : Scan Context).IsFounded :=
  .bind (isFounded_openBlockHere x content refusal) fun _ =>
    .bind (isFounded_dropPending _) fun _ => isFounded_readMark _ unit 1

lemma isFounded_readBlockEntry (x : Context) : x.readBlockEntry.IsFounded :=
  isFounded_readIndicator x _ _ _ _

lemma isFounded_readKey (x : Context) : x.readKey.IsFounded :=
  isFounded_readIndicator x _ _ _ fun y => { y with keyAllowed := !y.inFlow }

lemma isFounded_readValue (x : Context) : x.readValue.IsFounded := by
  rw [readValue]
  split
  · exact isFounded_readMark _ .value 1
  · exact isFounded_readIndicator x _ _ _ fun y => { y with keyAllowed := !y.inFlow }

lemma isFounded_readNode (x : Context) {unit : Scan Lexeme} (h : unit.IsFounded) :
    (x.readNode unit).IsFounded :=
  .bind (isFounded_savePending x) fun _ => .bind h fun _ => .pure _

lemma isFounded_readBlock (x : Context) (folded : Bool) : (x.readBlock folded).IsFounded :=
  .bind (isFounded_dropPending x) fun _ => .bind (.blockLexeme folded _) fun _ => .pure _

lemma isFounded_readPlain (x : Context) : x.readPlain.IsFounded :=
  .bind (isFounded_savePending x) fun _ => .bind (.plainLexeme _ _) fun _ => .pure _

/-- Whatever unit begins at the cursor, its reading fails with what stands in the unread text. -/
lemma fails_readAt (x : Context) {ch : Char} (hc : c.peek 0 = some ch) :
    (x.readAt ch).Fails c (·.IsFounded c.rest) := by
  rw [readAt, fails_bind, ensures_column, fails_bind, ensures_peek]
  refine ⟨IsFounded.column c, fails_peek, fails_ite (fun hdirective => ?_) fun _ => ?_⟩
  · obtain rfl : ch = '%' := by simpa using (Bool.and_eq_true_iff.mp hdirective).1
    exact fails_readDirective x hc
  · -- all other units are founded wherever they begin
    refine IsFounded.fails ?_
    refine .bind .atSeparator fun _ => .ite (isFounded_readSeparator x _) ?_
    refine .bind .atSeparator fun _ => .ite (isFounded_readSeparator x _) ?_
    refine .ite (isFounded_readFlowStart x _) (.ite (isFounded_readFlowStart x _) ?_)
    refine .ite (isFounded_readFlowEnd x _) (.ite (isFounded_readFlowEnd x _) ?_)
    refine .ite (isFounded_readFlowEntry x) (.ite (isFounded_readBlockEntry x) ?_)
    refine .ite (isFounded_readKey x) (.ite (isFounded_readValue x) ?_)
    refine .ite (isFounded_readNode x (.namedLexeme _)) ?_
    refine .ite (isFounded_readNode x (.namedLexeme _)) ?_
    refine .ite (isFounded_readNode x .tagLexeme) ?_
    refine .ite (isFounded_readBlock x _) (.ite (isFounded_readBlock x _) ?_)
    refine .ite (isFounded_readNode x (isFounded_quotedLexeme _)) ?_
    refine .ite (isFounded_readNode x (isFounded_quotedLexeme _)) ?_
    exact .ite (isFounded_readPlain x) (.fail _)

/-- A round of reading fails with what stands in the unread text. -/
lemma isFounded_read (x : Context) : x.read.IsFounded := by
  refine .bind (isFounded_skipBlanks x) fun y => .bind (isFounded_dropStale y) fun z =>
    .bind .column fun _ => .bind .here fun _ => fun c => ?_
  rw [fails_bind, ensures_peek]
  refine ⟨fails_peek, ?_⟩
  cases hpeek : c.peek 0 with
  | none => exact (IsFounded.bind (isFounded_readEnd _) fun _ => .pure _) c
  | some ch =>
      rw [fails_bind]
      refine ⟨fails_readAt _ hpeek, .of_before fun w d hcd => ?_⟩
      refine ((IsFounded.bind (isFounded_dropStale w) fun _ => .pure _) d).mono fun f hf => ?_
      exact hf.mono hcd.rest_suffix

end Context

/-- **The reading of units fails with a character that no text may hold, with a problem at a place,
or with a number in the text that is too large.** -/
theorem isFounded_scan {s : List Char} {f : Failure} (h : Lexeme.scan s = .error f) :
    f.IsFounded s := by
  rw [Lexeme.scan] at h
  split at h
  · cases h
    trivial
  · exact Scan.IsFounded.iterate Context.isFounded_read _ _ f (Except.map_eq_error_iff.mp h)

end YamlNavigator.Yaml
