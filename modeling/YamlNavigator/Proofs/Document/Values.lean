import Mathlib.Data.List.TakeWhile
import YamlNavigator.Proofs.Document.Neighbours
import YamlNavigator.Proofs.Document.Positions
import YamlNavigator.Proofs.Document.Tiles
import YamlNavigator.Proofs.Yaml.Gaps

/-!
The values of tokens, and what stands at their positions.

A token is read as its reader expects if its value is the text of its unit, if the value of a
comment begins with a number sign, and if the value stands at the position of the token. White space
in front of a token is left out of its value, but the line breaks of Unicode are not, and what
stands behind the name of a directive that is not known is no white space at all.

* `blank_lead_iff`, `blank_behind_sign`: the front of a gap between units, and what is left behind
  its comments, are blank;
* `leadOf`, `Token.lead`: what stands in front of the text of a token;
* `Token.Reads`, `Tile.Cut`, `Tile.Cut.reads_iff`: a token is read if what stands in front of its
  text is left out of its value;
* `cut_of_mem_tiles`, `blank_lead_tiles`: what stands in front of the tokens is blank if the
  directives that are not known have no parameters;
* `tokens_read_iff`: the tokens of a text that are read, and the texts with all tokens read;
* `tokens_misread`: a line break of Unicode in a value, and parameters in a comment.
-/

namespace YamlNavigator

open Text Yaml

/-! ### Characters -/

/-- The line breaks that Unicode has beside carriage returns and line feeds. -/
def isUnicodeBreak (c : Char) : Bool := c = '\x85' || c = '\u2028' || c = '\u2029'

/-- Of the blanks and line breaks those of Unicode are not left out of values. -/
lemma isSpace_iff (c : Char) :
    Token.isSpace c = true ↔ isBlankOrBreak c = true ∧ isUnicodeBreak c = false := by
  simp only [Token.isSpace, isBlankOrBreak, isBreak, isUnicodeBreak, Bool.or_eq_true,
    decide_eq_true_eq, Bool.or_eq_false_iff, decide_eq_false_iff_not]
  constructor
  · rintro (((rfl | rfl) | rfl) | rfl) <;> decide
  · tauto

/-! ### The text between units -/

/-- The text up to a number sign or the end of the line. -/
def restOfLine (s : List Char) : List Char := s.takeWhile fun c => c != '#' && !isBreak c

/-- The rest of a line stands in front of the first number sign. -/
lemma prefix_restOfLine (s : List Char) : restOfLine s <+: s.takeWhile (· != '#') := by
  have htake := List.takeWhile_takeWhile (fun c => !isBreak c) (· != '#') s
  have hrest : restOfLine s = (s.takeWhile (· != '#')).takeWhile fun c => !isBreak c := by
    rw [htake, restOfLine]
    refine congrArg (List.takeWhile · s) (funext fun c => ?_)
    rw [Bool.and_comm, Bool.decide_and, Bool.decide_coe, Bool.decide_coe]
  rw [hrest]
  exact List.takeWhile_prefix _

/-- Without a number sign, all text stands in front of the first one. -/
lemma takeWhile_of_not_mem {s : List Char} (h : '#' ∉ s) : s.takeWhile (· != '#') = s :=
  List.takeWhile_eq_self_iff.mpr fun c hc => by
    rw [bne_iff_ne]
    rintro rfl
    exact h hc

/-- What stands in front of a number sign is not changed by what stands behind it. -/
lemma takeWhile_append_sign {lead : List Char} (h : '#' ∉ lead) (more : List Char) :
    (lead ++ '#' :: more).takeWhile (· != '#') = lead := by
  rw [List.takeWhile_append, takeWhile_of_not_mem h, if_pos rfl,
    List.takeWhile_cons_of_neg (by simp), List.append_nil]

/-- Outside of comments only blanks and line breaks stand in front of a number sign. -/
lemma blank_of_commentState : ∀ {gap : List Char}, commentState false gap ≠ none →
    ∀ c ∈ gap.takeWhile (· != '#'), isBlankOrBreak c = true
  | [], _, c, hc => by cases hc
  | d :: gap, h, c, hc => by
      rw [commentState] at h
      rw [List.takeWhile_cons] at hc
      split at h
      · next hsign => simp [hsign] at hc
      · next hsign =>
          split at h
          · next hblank =>
              rw [if_pos (by simpa using hsign)] at hc
              rcases List.mem_cons.mp hc with rfl | hc
              · exact hblank
              · exact blank_of_commentState h c hc
          · exact absurd rfl h

/-- What stands in front of the first number sign is blank, if the rest of the line is that passes
for a comment. -/
lemma blank_lead_iff {reserved : Bool} : ∀ {gap : List Char}, commentState reserved gap ≠ none →
    ((∀ c ∈ gap.takeWhile (· != '#'), isBlankOrBreak c = true) ↔
      (reserved = true → ∀ c ∈ restOfLine gap, isBlankOrBreak c = true)) := by
  intro gap h
  refine ⟨fun hlead _ c hc => hlead c ((prefix_restOfLine gap).subset hc), fun hrest => ?_⟩
  cases reserved with
  | false => exact blank_of_commentState h
  | true =>
      induction gap with
      | nil => simp
      | cons d gap ih =>
          have hrest' := hrest rfl
          rw [restOfLine, List.takeWhile_cons] at hrest'
          rw [commentState] at h
          intro c hc
          rw [List.takeWhile_cons] at hc
          split at hc
          · next hsign =>
              cases hbreak : isBreak d with
              | true =>
                  rw [hbreak] at h
                  rcases List.mem_cons.mp hc with rfl | hc
                  · simp [isBlankOrBreak, hbreak]
                  · exact blank_of_commentState h c hc
              | false =>
                  rw [hbreak] at h
                  rw [if_pos (by simpa [hbreak] using hsign)] at hrest'
                  obtain ⟨hd, hrest'⟩ := List.forall_mem_cons.mp hrest'
                  rcases List.mem_cons.mp hc with rfl | hc
                  · exact hd
                  · exact ih h (fun _ => hrest') c hc
          · cases hc

/-- What is left behind the comments is blank. -/
lemma blank_behind_sign {reserved : Bool} {pre after : List Char}
    (h : commentState reserved (pre ++ '#' :: after) ≠ none) (hafter : '#' ∉ after) :
    ∀ c ∈ after.dropWhile (· != '\n'), isBlankOrBreak c = true := by
  have hline : pre ++ '#' :: after = (pre ++ '#' :: after.takeWhile (· != '\n')) ++
      after.dropWhile (· != '\n') := by
    rw [List.append_assoc, List.cons_append, List.takeWhile_append_dropWhile]
  rw [hline] at h
  obtain ⟨inside, hrest⟩ := exists_commentState_of_append h
  have hnone : '#' ∉ after.dropWhile (· != '\n') := fun hmem =>
    hafter ((List.dropWhile_suffix _).subset hmem)
  have hhead := List.head?_dropWhile_not (· != '\n') after
  intro c hc
  generalize after.dropWhile (· != '\n') = rest at hrest hnone hhead hc
  cases rest with
  | nil => cases hc
  | cons d rest =>
      obtain rfl : d = '\n' := by simpa using hhead
      -- behind the line feed no comment goes on
      have hfeed : commentState inside ('\n' :: rest) = commentState false rest := by
        cases inside <;> rfl
      rw [hfeed] at hrest
      rcases List.mem_cons.mp hc with rfl | hc
      · rfl
      · refine blank_of_commentState hrest c ?_
        rwa [takeWhile_of_not_mem fun hmem => hnone (List.mem_cons_of_mem _ hmem)]

/-! ### Values -/

/-- The parameters of a directive that is not known: what stands behind its name on its line, in
front of a comment. -/
def Yaml.Lexeme.parameters (s : List Char) (l : Lexeme) : List Char :=
  restOfLine (s.drop l.stop.index)

/-- What stands in front of the text of a token: of that of its unit, and of the first number sign
of a comment. Other text is all in front if it begins with white space that values leave out. -/
def leadOf (s : List Char) (unit? : Option Lexeme) (kind : TokenKind) (origin : List Char) :
    List Char :=
  match unit? with
  | some l => origin.take (origin.length - (l.slice s).length)
  | none =>
      if kind = .comment then origin.takeWhile (· != '#')
      else if origin.head?.any Token.isSpace then origin
      else []

/-- In front of the text of a unit stands what its origin holds beside it. -/
lemma leadOf_unit (s : List Char) (l : Lexeme) (kind : TokenKind) (blank : List Char) :
    leadOf s (some l) kind (blank ++ l.slice s) = blank := by
  rw [leadOf, List.length_append, Nat.add_sub_cancel, List.take_left]

namespace Token

/-- What stands in front of the text of a token. -/
def lead (s : List Char) (unit? : Option Lexeme) (t : Token) : List Char :=
  leadOf s unit? t.kind t.origin.toList

/-- A token is read as its reader expects: white space and then the text of its unit, which is its
value and begins with no white space; the value of a comment begins with a number sign; and at the
position of the token stands its value. -/
@[mk_iff reads_iff]
structure Reads (s : List Char) (unit? : Option Lexeme) (t : Token) : Prop where
  unit : ∀ l ∈ unit?, l.isEmpty = false →
    ∃ lead ch more, (∀ c ∈ lead, isBlankOrBreak c = true) ∧ isBlankOrBreak ch = false ∧
      l.slice s = ch :: more ∧ t.origin.toList = lead ++ l.slice s ∧ t.value.toList = l.slice s
  comment : t.kind = .comment → t.value.toList.head? = some '#'
  position : t.value.toList <+: textAt s t.position

end Token

/-- White space is left out of a value if there is nothing else in front of the rest. -/
lemma dropWhile_append_eq_iff {lead rest : List Char} {ch : Char} (hch : Token.isSpace ch = false) :
    (lead ++ ch :: rest).dropWhile Token.isSpace = ch :: rest ↔
      ∀ c ∈ lead, Token.isSpace c = true := by
  have hrest : (ch :: rest).dropWhile Token.isSpace = ch :: rest := by
    rw [List.dropWhile_cons_of_neg (by simp [hch])]
  rw [List.dropWhile_append, hrest, ← List.dropWhile_eq_nil_iff]
  split
  · next hnil => simpa using hnil
  · next hnil => simp

/-- The value of a comment begins with a number sign if there is only white space in front of the
first one. -/
lemma head?_dropWhile_eq_iff {lead rest : List Char} (hlead : '#' ∉ lead) :
    ((lead ++ '#' :: rest).dropWhile Token.isSpace).head? = some '#' ↔
      ∀ c ∈ lead, Token.isSpace c = true := by
  refine ⟨fun h => ?_, fun h => by rw [(dropWhile_append_eq_iff rfl).mpr h, List.head?_cons]⟩
  rw [List.dropWhile_append] at h
  rw [← List.dropWhile_eq_nil_iff]
  split at h
  · next hnil => simpa using hnil
  · next hnil =>
      cases hdrop : lead.dropWhile Token.isSpace with
      | nil => rfl
      | cons c more =>
          rw [hdrop, List.cons_append, List.head?_cons, Option.some_inj] at h
          have hmem : c ∈ lead.dropWhile Token.isSpace := hdrop ▸ List.mem_cons_self
          exact absurd (h ▸ (List.dropWhile_suffix _).subset hmem) hlead

/-! ### How tiles are cut -/

/-- What the tiles of a text are: the byte order mark, comments with all that stands in front of
them, what is left at the end of the text, and units with what stands in front of them. -/
inductive Tile.Cut (s : List Char) : Tile → Prop
  | mark (hs : ['\ufeff'] <+: s) : Cut s .mark
  | comment {offset : Nat} {lead more : List Char} (hlead : '#' ∉ lead)
      (hs : lead ++ '#' :: more <+: s.drop offset) :
      Cut s ⟨.comment, lead ++ '#' :: more, offset + lead.length, none⟩
  | ending (offset : Nat) : Cut s ⟨.other, s.drop offset, offset, none⟩
  | empty {l : Lexeme} (hl : l.isEmpty = true) (offset : Nat) :
      Cut s ⟨.ofLexeme l, [], offset, some l⟩
  | unit {l : Lexeme} {ch : Char} {more : List Char} (hl : l.slice s = ch :: more)
      (hch : isBlankOrBreak ch = false) (blank : List Char) :
      Cut s ⟨.ofLexeme l, blank ++ l.slice s, l.start.index, some l⟩

namespace Tile

variable {s : List Char} {t : Tile}

/-- What is read of the token of a tile. -/
lemma reads_token_iff (i : Nat) : (t.token (LineTable.ofText s) i).Reads s t.lexeme ↔
    (∀ l ∈ t.lexeme, l.isEmpty = false →
      ∃ lead ch more, (∀ c ∈ lead, isBlankOrBreak c = true) ∧ isBlankOrBreak ch = false ∧
        l.slice s = ch :: more ∧ t.origin = lead ++ l.slice s ∧
        t.origin.dropWhile Token.isSpace = l.slice s) ∧
    (t.kind = .comment → (t.origin.dropWhile Token.isSpace).head? = some '#') ∧
    t.origin.dropWhile Token.isSpace <+: s.drop t.offset := by
  have hposition : textAt s (t.token (LineTable.ofText s) i).position = s.drop t.offset :=
    LineTable.textAt_position s t.offset
  have hvalue : (t.token (LineTable.ofText s) i).value.toList =
      t.origin.dropWhile Token.isSpace := by
    simp [Tile.token, Token.value]
  have horigin : (t.token (LineTable.ofText s) i).origin.toList = t.origin := by
    simp [Tile.token]
  have hreads := Token.reads_iff s t.lexeme (t.token (LineTable.ofText s) i)
  rwa [hposition, hvalue, horigin] at hreads

/-- All of a stretch is left out of its value, or nothing, if the value is its front. -/
lemma dropWhile_prefix_iff {origin rest : List Char} (h : origin <+: rest) :
    origin.dropWhile Token.isSpace <+: rest ↔
      ∀ c ∈ if origin.head?.any Token.isSpace then origin else [], Token.isSpace c = true := by
  cases origin with
  | nil => simp
  | cons c origin =>
      cases hc : Token.isSpace c with
      | false =>
          have hhead : ((c :: origin).head?.any Token.isSpace) = false := by simp [hc]
          rw [List.dropWhile_cons_of_neg (by simp [hc]), hhead]
          simpa using h
      | true =>
          have hhead : ((c :: origin).head?.any Token.isSpace) = true := by simp [hc]
          rw [hhead, if_pos rfl, ← List.dropWhile_eq_nil_iff]
          refine ⟨fun hprefix => ?_, fun hnil => hnil ▸ List.nil_prefix⟩
          -- the value would begin with the white space that it leaves out
          cases hvalue : (c :: origin).dropWhile Token.isSpace with
          | nil => rfl
          | cons d value =>
              have hd := List.head?_dropWhile_not Token.isSpace (c :: origin)
              rw [hvalue] at hd hprefix
              obtain ⟨more, rfl⟩ := h
              obtain ⟨more', heq⟩ := hprefix
              obtain rfl : d = c := by simpa using congrArg List.head? heq
              simp [hc] at hd

/-- Byte order marks and what is left at the end of the text. -/
private lemma reads_other {origin : List Char} {offset : Nat} (h : origin <+: s.drop offset)
    (i : Nat) :
    (token (LineTable.ofText s) ⟨.other, origin, offset, none⟩ i).Reads s none ↔
      ∀ c ∈ leadOf s none .other origin, Token.isSpace c = true := by
  rw [reads_token_iff (t := ⟨.other, origin, offset, none⟩)]
  refine Iff.trans ⟨fun hreads => hreads.2.2, fun hreads => ?_⟩ (dropWhile_prefix_iff h)
  exact ⟨by simp, by simp, hreads⟩

/-- Comments. -/
private lemma reads_comment {offset : Nat} {lead more : List Char} (hlead : '#' ∉ lead)
    (hs : lead ++ '#' :: more <+: s.drop offset) (i : Nat) :
    (token (LineTable.ofText s) ⟨.comment, lead ++ '#' :: more, offset + lead.length, none⟩ i).Reads
        s none ↔
      ∀ c ∈ leadOf s none .comment (lead ++ '#' :: more), Token.isSpace c = true := by
  have hposition : '#' :: more <+: s.drop (offset + lead.length) := by
    obtain ⟨rest, hrest⟩ := hs
    rw [← List.drop_drop, ← hrest, List.append_assoc, List.drop_left]
    exact List.prefix_append _ _
  rw [reads_token_iff (t := ⟨.comment, lead ++ '#' :: more, offset + lead.length, none⟩), leadOf,
    if_pos rfl, takeWhile_append_sign hlead]
  refine ⟨fun hreads => (head?_dropWhile_eq_iff hlead).mp (hreads.2.1 rfl), fun hspace => ?_⟩
  refine ⟨by simp, fun _ => (head?_dropWhile_eq_iff hlead).mpr hspace, ?_⟩
  rw [(dropWhile_append_eq_iff rfl).mpr hspace]
  exact hposition

/-- Units without text. -/
private lemma reads_empty {l : Lexeme} (hl : l.isEmpty = true) (offset i : Nat) :
    (token (LineTable.ofText s) ⟨.ofLexeme l, [], offset, some l⟩ i).Reads s (some l) ↔
      ∀ c ∈ leadOf s (some l) (.ofLexeme l) [], Token.isSpace c = true := by
  rw [reads_token_iff (t := ⟨.ofLexeme l, [], offset, some l⟩)]
  refine ⟨fun _ c hc => by simp [leadOf] at hc, fun _ => ⟨fun k hk hne => ?_, fun hc => ?_, ?_⟩⟩
  · cases hk
    rw [hl] at hne
    cases hne
  · exact absurd hc (ofLexeme_ne_comment l)
  · exact List.nil_prefix

/-- Units with text. -/
private lemma reads_unit {l : Lexeme} {ch : Char} {more : List Char} (hl : l.slice s = ch :: more)
    (hch : isBlankOrBreak ch = false) (blank : List Char) (i : Nat) :
    (token (LineTable.ofText s) ⟨.ofLexeme l, blank ++ l.slice s, l.start.index, some l⟩ i).Reads s
        (some l) ↔
      ∀ c ∈ leadOf s (some l) (.ofLexeme l) (blank ++ l.slice s), Token.isSpace c = true := by
  have hspace : Token.isSpace ch = false := by
    rw [← Bool.not_eq_true, isSpace_iff, hch]
    simp
  have htext : l.isEmpty = false := by
    rw [Lexeme.slice] at hl
    rw [Lexeme.isEmpty, decide_eq_false_iff_not]
    intro hle
    rw [Nat.sub_eq_zero_of_le hle, List.take_zero] at hl
    cases hl
  have hvalue : (blank ++ l.slice s).dropWhile Token.isSpace = l.slice s ↔
      ∀ c ∈ blank, Token.isSpace c = true := by
    rw [hl]
    exact dropWhile_append_eq_iff hspace
  rw [reads_token_iff (t := ⟨.ofLexeme l, blank ++ l.slice s, l.start.index, some l⟩), leadOf_unit]
  refine ⟨fun hreads => ?_, fun hblank => ⟨fun k hk _ => ?_, fun hc => ?_, ?_⟩⟩
  · obtain ⟨_, _, _, _, _, _, _, heq⟩ := hreads.1 l rfl htext
    exact hvalue.mp heq
  · cases hk
    exact ⟨blank, ch, more, fun c hc => ((isSpace_iff c).mp (hblank c hc)).1, hch, hl, rfl,
      hvalue.mpr hblank⟩
  · exact absurd hc (ofLexeme_ne_comment l)
  · dsimp only
    rw [hvalue.mpr hblank]
    exact List.take_prefix _ _

/-- **A token is read if what stands in front of its text is left out of its value.** -/
theorem Cut.reads_iff (h : t.Cut s) (i : Nat) :
    (t.token (LineTable.ofText s) i).Reads s t.lexeme ↔
      ∀ c ∈ leadOf s t.lexeme t.kind t.origin, Token.isSpace c = true := by
  cases h with
  | mark hs => exact reads_other hs i
  | comment hlead hs => exact reads_comment hlead hs i
  | ending offset => exact reads_other (List.prefix_refl _) i
  | empty hl offset => exact reads_empty hl offset i
  | unit hl hch blank => exact reads_unit hl hch blank i

end Tile

/-! ### Gaps -/

/-- A gap with a number sign is cut behind the comments in it, and what is left of it is blank. -/
lemma exists_split_of_sign {gap : List Char} (h : '#' ∈ gap) :
    ∃ lead more blank, '#' ∉ lead ∧ gap = (lead ++ '#' :: more) ++ blank ∧
      splitComment gap = (lead ++ '#' :: more, blank) ∧
      ∀ reserved, commentState reserved gap ≠ none → ∀ c ∈ blank, isBlankOrBreak c = true := by
  obtain ⟨pre, after, rfl, hafter⟩ := exists_last h
  have hsplit := splitComment_append_cons pre hafter
  obtain ⟨lead, more, hcomment, hlead⟩ := List.eq_append_cons_of_mem
    (show '#' ∈ pre ++ '#' :: after.takeWhile (· != '\n') by simp)
  refine ⟨lead, more, _, hlead, ?_, hcomment ▸ hsplit, fun _ hstate =>
    blank_behind_sign hstate hafter⟩
  rw [← hcomment, List.append_assoc, List.cons_append, List.takeWhile_append_dropWhile]

/-- The tile of comments. -/
lemma commentTiles_sign (offset : Nat) {lead : List Char} (h : '#' ∉ lead) (more : List Char) :
    commentTiles offset (lead ++ '#' :: more) =
      [⟨.comment, lead ++ '#' :: more, offset + lead.length, none⟩] := by
  rw [commentTiles, if_neg (by simp), takeWhile_append_sign h]

section Gaps

variable {s gap : List Char} {reserved : Bool} {offset : Nat}

/-- Comments are cut out of the text. -/
lemma cut_commentTiles (hs : gap <+: s.drop offset) :
    ∀ t ∈ commentTiles offset (splitComment gap).1, t.Cut s := by
  by_cases hsign : '#' ∈ gap
  · obtain ⟨lead, more, blank, hlead, hgap, hsplit, -⟩ := exists_split_of_sign hsign
    have hcomment : lead ++ '#' :: more <+: gap := hgap ▸ List.prefix_append _ _
    rw [hsplit, commentTiles_sign offset hlead]
    intro t ht
    rw [List.mem_singleton.mp ht]
    exact .comment hlead (hcomment.trans hs)
  · rw [splitComment_of_not_mem hsign]
    exact fun _ ht => absurd ht List.not_mem_nil

/-- What stands in front of the comments and in front of the unit behind a gap is blank, if the rest
of the line is that passes for a comment. -/
lemma blank_gap_iff (s : List Char) (offset : Nat) (h : commentState reserved gap ≠ none) :
    ((∀ t ∈ commentTiles offset (splitComment gap).1, ∀ c ∈ leadOf s t.lexeme t.kind t.origin,
        isBlankOrBreak c = true) ∧ ∀ c ∈ (splitComment gap).2, isBlankOrBreak c = true) ↔
      (reserved = true → ∀ c ∈ restOfLine gap, isBlankOrBreak c = true) := by
  rw [← blank_lead_iff h]
  by_cases hsign : '#' ∈ gap
  · obtain ⟨lead, more, blank, hlead, hgap, hsplit, hblank⟩ := exists_split_of_sign hsign
    have hfront : gap.takeWhile (· != '#') = lead := by
      rw [hgap, List.append_assoc, List.cons_append, takeWhile_append_sign hlead]
    have hcomment : leadOf s none .comment (lead ++ '#' :: more) = lead := by
      rw [leadOf, if_pos rfl, takeWhile_append_sign hlead]
    rw [hsplit, commentTiles_sign offset hlead, hfront]
    dsimp only
    rw [List.forall_mem_singleton, hcomment]
    exact ⟨fun h' => h'.1, fun h' => ⟨h', hblank reserved h⟩⟩
  · rw [splitComment_of_not_mem hsign, takeWhile_of_not_mem hsign]
    exact ⟨fun h' => h'.2, fun h' => ⟨fun _ ht => absurd ht List.not_mem_nil, h'⟩⟩

/-- What is left at the end of the text is blank as well: behind the name of a directive it begins
with white space that values leave out, or with a line break. -/
lemma blank_end_iff (s : List Char) (offset : Nat) {inside : Bool}
    (h : IsSpacing reserved gap inside) :
    ((∀ t ∈ commentTiles offset (splitComment gap).1, ∀ c ∈ leadOf s t.lexeme t.kind t.origin,
        isBlankOrBreak c = true) ∧
      ∀ c ∈ leadOf s none .other (splitComment gap).2, isBlankOrBreak c = true) ↔
      (reserved = true → ∀ c ∈ restOfLine gap, isBlankOrBreak c = true) := by
  have hne : commentState reserved gap ≠ none := by simp [h.reads]
  have hsubset : ∀ tail, leadOf s none .other tail ⊆ tail := fun tail c hc => by
    rw [leadOf, if_neg (by simp)] at hc
    split at hc
    · exact hc
    · cases hc
  rw [← blank_gap_iff s offset hne]
  refine and_congr_right fun _ => ⟨fun hlead => ?_, fun hblank c hc => hblank c (hsubset _ hc)⟩
  by_cases hsign : '#' ∈ gap
  · obtain ⟨lead, more, blank, -, -, hsplit, hblank⟩ := exists_split_of_sign hsign
    rw [hsplit]
    exact hblank reserved hne
  · rw [splitComment_of_not_mem hsign] at hlead ⊢
    rw [← takeWhile_of_not_mem hsign, blank_lead_iff hne]
    intro hreserved
    cases gap with
    | nil => exact fun c hc => absurd hc List.not_mem_nil
    | cons d gap =>
        have hspaced := h.spaced hreserved d rfl
        cases hbreak : isBreak d with
        | true => simp [restOfLine, hbreak]
        | false =>
            obtain rfl : d = ' ' := by simpa [isSpaceOrBreak, hbreak] using hspaced
            intro c hc
            refine hlead c ?_
            have hall : leadOf s none .other (' ' :: gap) = ' ' :: gap := rfl
            rw [hall]
            exact ((prefix_restOfLine _).trans (List.takeWhile_prefix _)).subset hc

end Gaps

/-! ### The tiles of a text -/

section Tiles

variable {s : List Char} {l : Lexeme} {offset : Nat}

/-- A unit with text begins with the character at its start. -/
lemma slice_eq_cons (htext : l.isEmpty = false) {ch : Char} {more : List Char}
    (h : s.drop l.start.index = ch :: more) :
    l.slice s = ch :: more.take (l.stop.index - l.start.index - 1) := by
  have hlt : l.start.index < l.stop.index := by simpa [Lexeme.isEmpty] using htext
  rw [Lexeme.slice, h, List.take_cons (by omega)]

/-- What is left at the end of a text is cut out of it. -/
lemma cut_tailTiles : ∀ t ∈ tailTiles (offset + (splitComment (s.drop offset)).1.length)
    (splitComment (s.drop offset)).2, t.Cut s := by
  have htail : (splitComment (s.drop offset)).2 =
      s.drop (offset + (splitComment (s.drop offset)).1.length) := by
    have happend := congrArg (List.drop (splitComment (s.drop offset)).1.length)
      (splitComment_append (s.drop offset))
    rwa [List.drop_left, List.drop_drop] at happend
  intro t ht
  rw [tailTiles] at ht
  split at ht
  · cases ht
  · rw [List.mem_singleton.mp ht, htail]
    exact .ending _

/-- The tiles of units that are spaced are cut out of the text. -/
lemma cut_of_mem_tilesFrom {last : Lexeme} (hlast : last.content = .streamEnd)
    (hempty : last.isEmpty = true) :
    ∀ (front : List Lexeme) (reserved : Bool) (offset : Nat),
      (∀ l ∈ front, l.content ≠ .streamEnd) →
      SpacedFrom s reserved offset (front.filter fun l => !l.isEmpty) →
      ∀ t ∈ tilesFrom offset (s.drop offset) (front ++ [last]), t.Cut s
  | [], reserved, offset, _, _, t, ht => by
      rw [List.nil_append, tilesFrom_end hlast] at ht
      simp only [List.mem_append, List.mem_singleton] at ht
      rcases ht with ht | ht | rfl
      · exact cut_commentTiles (List.prefix_refl _) t ht
      · exact cut_tailTiles t ht
      · exact .empty hempty _
  | l :: front, reserved, offset, hin, hspaced, t, ht => by
      have hl := hin l List.mem_cons_self
      have hin' := fun k hk => hin k (List.mem_cons_of_mem l hk)
      rw [List.cons_append] at ht
      cases htext : l.isEmpty with
      | true =>
          rw [List.filter_cons_of_neg (by simp [htext])] at hspaced
          rw [tilesFrom_of_isEmpty hl htext] at ht
          rcases List.mem_cons.mp ht with rfl | ht
          · exact .empty htext _
          · exact cut_of_mem_tilesFrom hlast hempty front reserved offset hin' hspaced t ht
      | false =>
          rw [List.filter_cons_of_pos (by simp [htext])] at hspaced
          cases hspaced with
          | unit hle hspacing hstart hrest =>
              rw [tilesFrom_of_text hl htext hle, List.mem_append, List.mem_cons] at ht
              rcases ht with ht | rfl | ht
              · exact cut_commentTiles (List.take_prefix _ _) t ht
              · obtain ⟨ch, more, hdrop, hch⟩ := hstart
                exact .unit (slice_eq_cons htext hdrop) hch _
              · exact cut_of_mem_tilesFrom hlast hempty front _ _ hin' hrest t ht

/-- The rest of the line that passes for a comment ends in front of the next unit. -/
lemma restOfLine_take {n : Nat} (h : commentState true (s.take n) = some false) :
    restOfLine (s.take n) = restOfLine s := by
  have hends : (restOfLine (s.take n)).length ≠ (s.take n).length := fun hlen => by
    -- otherwise the comment would go on
    have hall := List.takeWhile_eq_self_iff.mp ((List.takeWhile_prefix _).eq_of_length hlen)
    have hopen := commentState_true fun c hc => (by simpa using (hall c hc) : c ≠ '#' ∧ _).2
    rw [hopen] at h
    cases h
  have happend : restOfLine (s.take n ++ s.drop n) = _ := List.takeWhile_append
  rw [List.take_append_drop] at happend
  exact (happend.trans (if_neg hends)).symm

/-- What stands in front of the texts of the tokens is blank if and only if the directives that are
not known have no parameters. -/
lemma blank_lead_tilesFrom {last : Lexeme} (hlast : last.content = .streamEnd) :
    ∀ (front : List Lexeme) (reserved : Bool) (offset : Nat),
      (∀ l ∈ front, l.content ≠ .streamEnd) →
      (∀ l ∈ front, l.isReserved = true → l.isEmpty = false) →
      SpacedFrom s reserved offset (front.filter fun l => !l.isEmpty) →
      ((∀ t ∈ tilesFrom offset (s.drop offset) (front ++ [last]),
          ∀ c ∈ leadOf s t.lexeme t.kind t.origin, isBlankOrBreak c = true) ↔
        (reserved = true → ∀ c ∈ restOfLine (s.drop offset), isBlankOrBreak c = true) ∧
          ∀ l ∈ front, l.isReserved = true →
            ∀ c ∈ l.parameters s, isBlankOrBreak c = true)
  | [], reserved, offset, _, _, hspaced => by
      cases hspaced with
      | tail hspacing =>
          have htail : ∀ (k : Nat) (tail : List Char), (∀ t ∈ tailTiles k tail,
              ∀ c ∈ leadOf s t.lexeme t.kind t.origin, isBlankOrBreak c = true) ↔
                ∀ c ∈ leadOf s none .other tail, isBlankOrBreak c = true := by
            intro k tail
            cases tail with
            | nil => simp [tailTiles, leadOf]
            | cons c tail => simp [tailTiles]
          rw [List.nil_append, tilesFrom_end hlast, List.forall_mem_append, List.forall_mem_append,
            htail, List.forall_mem_singleton, ← blank_end_iff s offset hspacing]
          simp [leadOf]
  | l :: front, reserved, offset, hin, htext, hspaced => by
      have hl := hin l List.mem_cons_self
      have hin' := fun k hk => hin k (List.mem_cons_of_mem l hk)
      have htext' := fun k hk => htext k (List.mem_cons_of_mem l hk)
      rw [List.cons_append, List.forall_mem_cons]
      cases hempty : l.isEmpty with
      | true =>
          rw [List.filter_cons_of_neg (by simp [hempty])] at hspaced
          rw [tilesFrom_of_isEmpty hl hempty, List.forall_mem_cons,
            blank_lead_tilesFrom hlast front reserved offset hin' htext' hspaced]
          have hknown : l.isReserved ≠ true := fun h => by
            rw [htext l List.mem_cons_self h] at hempty
            cases hempty
          simp [leadOf, hknown]
      | false =>
          rw [List.filter_cons_of_pos (by simp [hempty])] at hspaced
          cases hspaced with
          | unit hle hspacing hstart hrest =>
              have hne : commentState reserved
                  ((s.drop offset).take (l.start.index - offset)) ≠ none := by
                simp [hspacing.reads]
              rw [tilesFrom_of_text hl hempty hle, List.forall_mem_append, List.forall_mem_cons,
                blank_lead_tilesFrom hlast front _ _ hin' htext' hrest, leadOf_unit, ← and_assoc,
                blank_gap_iff s offset hne]
              refine and_congr_left fun _ => forall_congr' fun hreserved => ?_
              rw [restOfLine_take (hreserved ▸ hspacing.reads)]

variable {ls : List Lexeme}

/-- The units in front of the end of the stream are spaced. -/
lemma exists_front_of_scan (h : Lexeme.scan s = .ok ls) :
    ∃ front last, ls = front ++ [last] ∧ last.content = .streamEnd ∧ last.isEmpty = true ∧
      (∀ l ∈ front, l.content ≠ .streamEnd) ∧
      SpacedFrom s false (markWidth s) (front.filter fun l => !l.isEmpty) := by
  have hspaced := spacedFrom_of_scan h
  have hcover := cover_of_scan h
  obtain ⟨front, last, rfl, hlast, -, hfront⟩ := hcover.streamEnd
  have hempty : last.isEmpty = true := hcover.isEmpty_streamEnd (by simp) hlast
  rw [List.filter_append, List.filter_cons_of_neg (by simp [hempty]), List.filter_nil,
    List.append_nil] at hspaced
  exact ⟨front, last, rfl, hlast, hempty, hfront, hspaced⟩

/-- The tiles of a text are cut out of it. -/
theorem cut_of_mem_tiles (h : Lexeme.scan s = .ok ls) : ∀ t ∈ tiles s ls, t.Cut s := by
  obtain ⟨front, last, rfl, hlast, hempty, hfront, hspaced⟩ := exists_front_of_scan h
  intro t ht
  rw [tiles_eq, List.mem_append, List.mem_replicate] at ht
  rcases ht with ⟨hmark, rfl⟩ | ht
  · refine .mark ?_
    unfold markWidth at hmark
    split at hmark
    · exact List.prefix_append _ _
    · exact absurd rfl hmark
  · exact cut_of_mem_tilesFrom hlast hempty front false _ hfront hspaced t ht

/-- What stands in front of the texts of the tokens of a text is blank if and only if the directives
that are not known have no parameters. -/
theorem blank_lead_tiles (h : Lexeme.scan s = .ok ls) :
    (∀ t ∈ tiles s ls, ∀ c ∈ leadOf s t.lexeme t.kind t.origin, isBlankOrBreak c = true) ↔
      ∀ l ∈ ls, l.isReserved = true → ∀ c ∈ l.parameters s, isBlankOrBreak c = true := by
  have htext : ∀ l ∈ ls, l.isReserved = true → l.isEmpty = false := fun l hl hreserved => by
    have hsound := (cover_of_scan h).isSound l hl
    rw [Lexeme.isReserved] at hreserved
    split at hreserved
    · next heq =>
        rw [Lexeme.IsSound, heq] at hsound
        simpa [Content.isPoint, Lexeme.isEmpty] using hsound
    · cases hreserved
  obtain ⟨front, last, rfl, hlast, -, hfront, hspaced⟩ := exists_front_of_scan h
  have hknown : last.isReserved = false := by rw [Lexeme.isReserved, hlast]
  have hmark : ∀ t ∈ List.replicate (markWidth s) Tile.mark,
      ∀ c ∈ leadOf s t.lexeme t.kind t.origin, isBlankOrBreak c = true := fun t ht c hc => by
    rw [List.eq_of_mem_replicate ht] at hc
    cases hc
  rw [tiles_eq, List.forall_mem_append, and_iff_right hmark, List.forall_mem_append,
    List.forall_mem_singleton, blank_lead_tilesFrom hlast front false _ hfront
      (fun l hl => htext l (List.mem_append_left _ hl)) hspaced]
  simp [hknown]

end Tiles

/-! ### Tokens -/

/-- The unit that a token was made from, if it was made from one. -/
def Token.unit? (units : List (Lexeme × Token)) (t : Token) : Option Lexeme :=
  (units.find? fun u => u.2 == t).map Prod.fst

section Tokens

variable {s : List Char} {ls : List Lexeme}

/-- The unit of the token of a tile is the unit that the tile was made from. -/
lemma unit?_token {i : Nat} {t : Tile} (h : (tiles s ls)[i]? = some t) :
    (t.token (LineTable.ofText s) i).unit? (unitsOf s ls) = t.lexeme := by
  -- units with the same token were made from the same tile
  have hunique : ∀ u ∈ unitsOf s ls, u.2 = t.token (LineTable.ofText s) i →
      t.lexeme = some u.1 := by
    intro u hu heq
    obtain ⟨j, t', ht', hl, htoken⟩ := exists_tile_of_mem_unitsOf hu
    obtain rfl : j = i := by
      rw [htoken] at heq
      exact Int.ofNat_inj.mp (congrArg Token.index heq)
    rw [h, Option.some_inj] at ht'
    rw [ht', hl]
  rw [Token.unit?]
  cases hfind : (unitsOf s ls).find? fun u => u.2 == t.token (LineTable.ofText s) i with
  | some u =>
      have htoken : u.2 = t.token (LineTable.ofText s) i := by
        simpa using List.find?_some hfind
      exact (hunique u (List.mem_of_find?_eq_some hfind) htoken).symm
  | none =>
      cases hl : t.lexeme with
      | none => rfl
      | some l =>
          have hmem : (l, t.token (LineTable.ofText s) i) ∈ unitsOf s ls := by
            rw [unitsOf, unitsOfTiles]
            exact List.mem_filterMap.mpr
              ⟨(t, i), List.mem_zipIdx_iff_getElem?.mpr h, by simp [hl]⟩
          have hnone := List.find?_eq_none.mp hfind _ hmem
          simp at hnone

/-- What holds of all tokens of a text and the units that they were made from. -/
lemma forall_mem_tokens_iff {P : Option Lexeme → Token → Prop} :
    (∀ t ∈ (Stream.ofTiles (LineTable.ofText s) (tiles s ls)).tokens,
        P (t.unit? (unitsOf s ls)) t) ↔
      ∀ (i : Nat) (t : Tile), (tiles s ls)[i]? = some t →
        P t.lexeme (t.token (LineTable.ofText s) i) := by
  simp only [Stream.ofTiles, tokensOfTiles, List.mem_toArray, List.forall_mem_map, Prod.forall,
    List.mem_zipIdx_iff_getElem?]
  rw [forall_comm]
  refine forall_congr' fun i => forall_congr' fun t => forall_congr' fun h => ?_
  rw [unit?_token h]

end Tokens

/-- **Values and positions of tokens.** Every token of a text that is accepted is read as its reader
expects if and only if the text in front of its own is white space that values leave out. So all
tokens are read if and only if no directive that is not known has parameters, and no line break of
Unicode stands in front of the text of a token. -/
theorem tokens_read_iff {source : String} {d : Parsed} (h : parse source = .ok d) :
    ∃ ls, Lexeme.scan source.toList = .ok ls ∧ (unitsOf source.toList ls).map Prod.fst = ls ∧
      (∀ t ∈ d.tokens.tokens, t.Reads source.toList (t.unit? (unitsOf source.toList ls)) ↔
        ∀ c ∈ t.lead source.toList (t.unit? (unitsOf source.toList ls)),
          Token.isSpace c = true) ∧
      ((∀ t ∈ d.tokens.tokens, t.Reads source.toList (t.unit? (unitsOf source.toList ls))) ↔
        (∀ l ∈ ls, l.isReserved = true →
          ∀ c ∈ l.parameters source.toList, isBlankOrBreak c = true) ∧
        ∀ t ∈ d.tokens.tokens, ∀ c ∈ t.lead source.toList (t.unit? (unitsOf source.toList ls)),
          isUnicodeBreak c = false) := by
  obtain ⟨ls, es, rest, hls, -, -, htokens, -⟩ := exists_stages_of_parse h
  refine ⟨ls, hls, map_fst_unitsOf _ _, ?_⟩
  have hlead : ∀ (i : Nat) (t : Tile), (t.token (LineTable.ofText source.toList) i).lead
      source.toList t.lexeme = leadOf source.toList t.lexeme t.kind t.origin := fun i t => by
    simp [Token.lead, Tile.token]
  have hreads : ∀ t ∈ d.tokens.tokens,
      t.Reads source.toList (t.unit? (unitsOf source.toList ls)) ↔
        ∀ c ∈ t.lead source.toList (t.unit? (unitsOf source.toList ls)),
          Token.isSpace c = true := by
    rw [htokens]
    refine forall_mem_tokens_iff (P := fun u t => t.Reads source.toList u ↔
      ∀ c ∈ t.lead source.toList u, Token.isSpace c = true) |>.mpr fun i t ht => ?_
    rw [hlead]
    exact (cut_of_mem_tiles hls t (List.mem_of_getElem? ht)).reads_iff i
  have hblank : (∀ t ∈ d.tokens.tokens, ∀ c ∈ t.lead source.toList
      (t.unit? (unitsOf source.toList ls)), isBlankOrBreak c = true) ↔
        ∀ l ∈ ls, l.isReserved = true →
          ∀ c ∈ l.parameters source.toList, isBlankOrBreak c = true := by
    rw [← blank_lead_tiles hls, htokens, forall_mem_tokens_iff
      (P := fun u t => ∀ c ∈ t.lead source.toList u, isBlankOrBreak c = true)]
    simp only [hlead, List.mem_iff_getElem?, forall_exists_index]
    exact forall_comm
  refine ⟨hreads, ?_⟩
  calc (∀ t ∈ d.tokens.tokens, t.Reads source.toList (t.unit? (unitsOf source.toList ls)))
      ↔ ∀ t ∈ d.tokens.tokens, ∀ c ∈ t.lead source.toList (t.unit? (unitsOf source.toList ls)),
          Token.isSpace c = true := forall₂_congr hreads
    _ ↔ ∀ t ∈ d.tokens.tokens, ∀ c ∈ t.lead source.toList (t.unit? (unitsOf source.toList ls)),
          isBlankOrBreak c = true ∧ isUnicodeBreak c = false := by simp only [isSpace_iff]
    _ ↔ _ := by simp only [forall_and, ← hblank]

/-- In a text with comments, a known directive and line breaks of two kinds all tokens are read. -/
theorem tokens_read_iff_comments :
    ∃ d, parse "%YAML 1.1 # a\n---\n# b\nc: [1,\r\n 2]\n" = .ok d ∧
      ∃ ls, Lexeme.scan "%YAML 1.1 # a\n---\n# b\nc: [1,\r\n 2]\n".toList = .ok ls ∧
        ∀ t ∈ d.tokens.tokens, t.Reads "%YAML 1.1 # a\n---\n# b\nc: [1,\r\n 2]\n".toList
          (t.unit? (unitsOf "%YAML 1.1 # a\n---\n# b\nc: [1,\r\n 2]\n".toList ls)) := by
  obtain ⟨source, hsource⟩ : ∃ source, source = "%YAML 1.1 # a\n---\n# b\nc: [1,\r\n 2]\n" :=
    ⟨_, rfl⟩
  obtain ⟨d, hd, hcheck⟩ := Except.exists_ok_of_any (x := parse source) (p := fun d =>
    (Lexeme.scan source.toList).toOption.any fun ls =>
      (ls.all fun l => !l.isReserved) && d.tokens.tokens.toList.all fun t =>
        (t.lead source.toList (t.unit? (unitsOf source.toList ls))).all fun c => !isUnicodeBreak c)
    (by rw [hsource]; decide +kernel)
  obtain ⟨ls, hls, -, -, hiff⟩ := tokens_read_iff hd
  rw [hls] at hcheck
  simp only [Except.toOption, Option.any_some, Bool.and_eq_true, List.all_eq_true,
    Bool.not_eq_true', Array.mem_toList_iff] at hcheck
  rw [← hsource]
  refine ⟨d, hd, ls, hls, hiff.mpr ⟨fun l hl hreserved => ?_, hcheck.2⟩⟩
  rw [hcheck.1 l hl] at hreserved
  cases hreserved

/-- A line break of Unicode in front of a key belongs to its value, which does not stand at the
position of the token; and the parameters of a directive that is not known are the front of a
comment. -/
theorem tokens_misread :
    (∃ d, parse "a: 1\u0085b: 2\n" = .ok d ∧ ∃ t ∈ d.tokens.tokens, t.value = "\u0085b" ∧
      ¬t.value.toList <+: textAt "a: 1\u0085b: 2\n".toList t.position) ∧
    ∃ d, parse "%A b#c\n--- d\n" = .ok d ∧
      ∃ t ∈ d.tokens.tokens, t.kind = .comment ∧ t.value = "b#c" := by
  obtain ⟨d, hd, hcheck⟩ := Except.exists_ok_of_any (x := parse "a: 1\u0085b: 2\n") (p := fun d =>
    d.tokens.tokens.toList.any fun t => t.value == "\u0085b" &&
      !t.value.toList.isPrefixOf (textAt "a: 1\u0085b: 2\n".toList t.position))
    (by decide +kernel)
  obtain ⟨e, he, hcheck'⟩ := Except.exists_ok_of_any (x := parse "%A b#c\n--- d\n") (p := fun d =>
    d.tokens.tokens.toList.any fun t => t.kind == .comment && t.value == "b#c")
    (by decide +kernel)
  simp only [List.any_eq_true, Bool.and_eq_true, Bool.not_eq_true', beq_iff_eq,
    Array.mem_toList_iff] at hcheck hcheck'
  obtain ⟨t, ht, hvalue, hposition⟩ := hcheck
  refine ⟨⟨d, hd, t, ht, hvalue, fun h => ?_⟩, e, he, hcheck'⟩
  rw [List.isPrefixOf_iff_prefix.mpr h] at hposition
  cases hposition

end YamlNavigator
