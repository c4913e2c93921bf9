import YamlNavigator.Proofs.Render.Lines
import YamlNavigator.Proofs.Render.Respelling

/-!
Rendering with line numbers and without.

* `Text.IsLabel`, `Text.isLabel_padded`: numbers of a fixed width, with zeros in front;
* `Styling`, `Stream.stylings`: the texts that palettes are asked for;
* `Printer.write_eq_error_iff`, `Printer.write_congr`: what is written, with line numbers or
  without, depends on the answers for these, and all of them are asked for;
* `Printer.render_eq_write`: indexed streams are rendered as their lines are written;
* `render_numbered`: line numbers only add a gutter.
-/

namespace YamlNavigator

open Text

/-! ### Numbers in front of lines -/

/-- A number that is written with digits only, and with as many as a width tells. -/
structure Text.IsLabel (width n : Nat) (label : String) : Prop where
  digits : ∀ c ∈ label.toList, c.isDigit = true
  length : label.length = width
  value : Nat.ofDigitChars 10 label.toList 0 = n

/-- Zeros in front do not change the value of digits. -/
lemma Text.ofDigitChars_zeros (n : Nat) (ds : List Char) :
    Nat.ofDigitChars 10 (List.replicate n '0' ++ ds) 0 = Nat.ofDigitChars 10 ds 0 := by
  induction n with
  | zero => rfl
  | succ n ih =>
      rw [List.replicate_succ, List.cons_append, Nat.ofDigitChars_cons]
      exact ih

/-- The digits of a number have room in a width with room for those of a larger one. -/
lemma Text.isLabel_padded {n last : Nat} (h : n ≤ last) :
    IsLabel (Nat.toDigits 10 last).length n
      (Integer.padded (Nat.toDigits 10 last).length n) := by
  have hdecimal : Integer.decimal n = Nat.toDigits 10 n := rfl
  have hroom : (Nat.toDigits 10 n).length ≤ (Nat.toDigits 10 last).length := by
    have hpos : 0 < (Nat.toDigits 10 last).length := by
      rw [List.length_pos_iff]
      exact Nat.toDigits_ne_nil
    rw [Nat.length_toDigits_le_iff (by decide) hpos]
    exact Nat.lt_of_le_of_lt h ((Nat.length_toDigits_le_iff (by decide) hpos).mp (Nat.le_refl _))
  constructor
  · intro c hc
    rw [Integer.padded, String.toList_ofList, hdecimal, List.mem_append] at hc
    rcases hc with hc | hc
    · rw [List.eq_of_mem_replicate hc]
      rfl
    · exact Nat.isDigit_of_mem_toDigits (by decide) (by decide) hc
  · rw [Integer.padded, String.length_ofList, hdecimal, List.length_append, List.length_replicate]
    omega
  · rw [Integer.padded, String.toList_ofList, hdecimal, ofDigitChars_zeros,
      Nat.ofDigitChars_toDigits (by decide) (by decide)]

/-! ### Texts that are styled -/

/-- A text that a palette is asked for. -/
structure Styling where
  highlighted : Bool
  category : Category
  text : String
  deriving DecidableEq, Repr

/-- The text of a stroke that a palette is asked for. -/
def Stroke.styling? : Stroke → Option Styling
  | .plain _ => none
  | .styled on c s => some ⟨on, c, String.ofList s⟩

/-- The texts of a stream that palettes are asked for, in their order. -/
def Stream.stylings (s : Stream) (m : Matches) : List Styling :=
  (strokesOf (joinPieces (s.layout m).1)).filterMap Stroke.styling?

namespace Printer

/-- What the palettes of a printer answer when they are asked for a text. -/
def answer (p : Printer) (r : Styling) : Except Integer.Fault String :=
  (if r.highlighted then p.highlighted else p.plain) r.category r.text

variable {p q : Printer}

/-- Strokes are refused where the first of their styled texts is. -/
lemma writeStrokes_eq_error_iff {xs : List Stroke} {e : Integer.Fault} :
    p.writeStrokes xs = .error e ↔ (xs.filterMap Stroke.styling?).mapM p.answer = .error e := by
  have houtcome : (p.writeStrokes xs).map (fun _ => ()) =
      ((xs.filterMap Stroke.styling?).mapM p.answer).map fun _ => () := by
    induction xs with
    | nil => rfl
    | cons x xs ih =>
        cases x with
        | plain c =>
            rw [List.filterMap_cons_none rfl, ← ih, writeStrokes]
            cases p.writeStrokes xs <;> rfl
        | styled on c s =>
            have hstylings : (Stroke.styled on c s :: xs).filterMap Stroke.styling? =
                ⟨on, c, String.ofList s⟩ :: xs.filterMap Stroke.styling? := rfl
            have hanswer : p.answer ⟨on, c, String.ofList s⟩ = p.writeStroke (.styled on c s) := rfl
            rw [hstylings, List.mapM_cons, writeStrokes, hanswer]
            generalize (xs.filterMap Stroke.styling?).mapM p.answer = rest at ih
            cases p.writeStroke (.styled on c s) with
            | error e => rfl
            | ok out => cases hxs : p.writeStrokes xs <;> cases rest <;> rw [hxs] at ih <;> exact ih
  rw [← Except.map_eq_error_iff (f := fun _ => ()), houtcome, Except.map_eq_error_iff]

/-- Printers that style the texts of strokes alike write them alike. -/
lemma writeStrokes_congr {xs : List Stroke}
    (h : ∀ r ∈ xs.filterMap Stroke.styling?, q.answer r = p.answer r) :
    q.writeStrokes xs = p.writeStrokes xs := by
  induction xs with
  | nil => rfl
  | cons x xs ih =>
      have hx : q.writeStroke x = p.writeStroke x := by
        cases x with
        | plain c => rfl
        | styled on c s => exact h ⟨on, c, String.ofList s⟩ List.mem_cons_self
      have hxs : q.writeStrokes xs = p.writeStrokes xs := ih fun r hr => by
        obtain ⟨y, hy, hr⟩ := List.mem_filterMap.mp hr
        exact h r (List.mem_filterMap.mpr ⟨y, List.mem_cons_of_mem x hy, hr⟩)
      rw [writeStrokes, writeStrokes, hx, hxs]

/-- Lines are refused, with numbers or without, where the first of their styled texts is. -/
theorem write_eq_error_iff {layout : List (List Piece)} {shown : Bool} {e : Integer.Fault} :
    p.write shown layout = .error e ↔
      ((strokesOf (joinPieces layout)).filterMap Stroke.styling?).mapM p.answer = .error e := by
  rw [← writeStrokes_eq_error_iff, ← write_eq_writeStrokes, write, write,
    Except.map_eq_error_iff, Except.map_eq_error_iff]

/-- Printers with one gutter that style the texts of lines alike write them alike, with numbers or
without. -/
theorem write_congr {layout : List (List Piece)} (hgutter : q.gutter = p.gutter)
    (hseparator : q.separator = p.separator)
    (h : ∀ r ∈ (strokesOf (joinPieces layout)).filterMap Stroke.styling?, q.answer r = p.answer r)
    (shown : Bool) : q.write shown layout = p.write shown layout := by
  have hline : ∀ l ∈ layout, q.writeLine l = p.writeLine l := fun l hl => by
    rw [writeLine_eq_writeStrokes, writeLine_eq_writeStrokes]
    refine writeStrokes_congr fun r hr => h r ?_
    obtain ⟨x, hx, hr⟩ := List.mem_filterMap.mp hr
    obtain ⟨y, hy, hx⟩ := List.mem_flatMap.mp hx
    exact List.mem_filterMap.mpr
      ⟨x, List.mem_flatMap.mpr ⟨y, mem_joinPieces hl hy, hx⟩, hr⟩
  have hlines : layout.mapM q.writeLine = layout.mapM p.writeLine := by
    clear h
    induction layout with
    | nil => rfl
    | cons l ls ih =>
        rw [List.mapM_cons, List.mapM_cons, hline l List.mem_cons_self,
          ih fun k hk => hline k (List.mem_cons_of_mem l hk)]
  have hnumbers : q.numberLines = p.numberLines := funext fun ls => by
    rw [numberLines, numberLines, hgutter, hseparator]
  rw [write, write, hlines, hnumbers]

/-- Indexed streams are rendered as their lines are written. -/
lemma render_eq_write {s : Stream} (hs : s.IsIndexed) (m : Matches) (hsize : s.size ≠ 0)
    (shown : Bool) : p.render s m shown =
      ((p.write shown (s.layout m).1).mapError .code).map fun text => (text, m.nodes) := by
  obtain ⟨cuts, marked, hmarked, -⟩ := Stream.exists_cuts hs m s.tokens.toList fun _ ht => ht
  rw [render, if_neg hsize, Stream.layout, hmarked]
  dsimp only
  cases p.write shown (layoutLines marked) <;> rfl

/-- The palettes of a printer are asked for some texts to render a stream, with line numbers or
without, and for no others: what is rendered depends on the answers to these only; if all of them
are answered the stream is rendered, and if one is refused it is not, for the reason of the first
one that is. -/
structure AsksFor (p : Printer) (s : Stream) (m : Matches) (rs : List Styling) : Prop where
  depends : ∀ q : Printer, q.gutter = p.gutter → q.separator = p.separator →
    (∀ r ∈ rs, q.answer r = p.answer r) → ∀ shown, q.render s m shown = p.render s m shown
  answered : (∀ r ∈ rs, ∃ out, p.answer r = .ok out) → ∀ shown, ∃ out, p.render s m shown = .ok out
  refused : ∀ shown f, p.render s m shown = .error f ↔
    ∃ e, rs.mapM p.answer = .error e ∧ .code e = f

/-- A stream is rendered if and only if all texts that palettes are asked for are answered. -/
lemma AsksFor.exists_render_iff {s : Stream} {m : Matches} {rs : List Styling}
    (h : p.AsksFor s m rs) (shown : Bool) :
    (∃ out, p.render s m shown = .ok out) ↔ ∀ r ∈ rs, ∃ out, p.answer r = .ok out := by
  refine ⟨fun ⟨out, hout⟩ r hr => ?_, fun hall => h.answered hall shown⟩
  cases hanswers : rs.mapM p.answer with
  | ok outs =>
      have hforall := Except.forall₂_of_mapM hanswers
      clear h hanswers
      induction hforall with
      | nil => cases hr
      | cons hfirst _ ih =>
          rcases List.mem_cons.mp hr with rfl | hr
          · exact ⟨_, hfirst⟩
          · exact ih hr
  | error e =>
      have herror := (h.refused shown (.code e)).mpr ⟨e, hanswers, rfl⟩
      rw [hout] at herror
      cases herror

/-- A stream is refused, with line numbers or without, where the first of its styled texts is. -/
lemma render_eq_error_iff {s : Stream} (hs : s.IsIndexed) (m : Matches) (hsize : s.size ≠ 0)
    {shown : Bool} {f : Fault} : p.render s m shown = .error f ↔
      ∃ e, (s.stylings m).mapM p.answer = .error e ∧ .code e = f := by
  rw [render_eq_write hs m hsize, Except.map_eq_error_iff, Except.mapError_eq_error_iff]
  simp only [write_eq_error_iff, Stream.stylings]

/-- Palettes are asked for the same texts with line numbers and without. -/
lemma asksFor_stylings {s : Stream} (hs : s.IsIndexed) (m : Matches) (hsize : s.size ≠ 0)
    (p : Printer) : p.AsksFor s m (s.stylings m) where
  depends q hgutter hseparator h shown := by
    rw [render_eq_write hs m hsize, render_eq_write hs m hsize,
      write_congr hgutter hseparator h shown]
  answered h shown := by
    cases hrender : p.render s m shown with
    | ok out => exact ⟨out, rfl⟩
    | error f =>
        obtain ⟨e, he, -⟩ := (render_eq_error_iff hs m hsize).mp hrender
        obtain ⟨outs, houts, -⟩ := exists_mapM_of_forall (f := p.answer) (R := fun _ _ => True)
          fun r hr => (h r hr).imp fun out hout => ⟨hout, trivial⟩
        rw [houts] at he
        cases he
  refused _ _ := render_eq_error_iff hs m hsize

end Printer

/-- **Line numbers only add a gutter.** A stream without tokens is rendered as the empty text,
without matches. For an indexed stream with tokens, whatever the matches are, the palettes are asked
for the same texts with line numbers and without. If the printer adds no line feeds, both renders
give the same matches, and the lines of the numbered one are those of the other behind a gutter with
their number, counted from one and written with as many digits as that of the last line. -/
theorem render_numbered {s : Stream} (hs : s.IsIndexed) (m : Matches) (p : Printer) :
    (s.size = 0 → ∀ shown, p.render s m shown = .ok ("", [])) ∧
      (s.size ≠ 0 → p.AsksFor s m (s.stylings m) ∧
        (p.AddsNoBreaks → ∀ r, p.render s m false = .ok r → r.2 = m.nodes ∧
          ∃ label : Nat → String,
            (∀ k, 1 ≤ k → k ≤ (lines r.1.toList).length →
              IsLabel (Nat.toDigits 10 (lines r.1.toList).length).length k (label k)) ∧
            p.render s m true = .ok (String.ofList (joinLines (((lines r.1.toList).zipIdx 1).map
              fun l => (p.gutter (label l.2 ++ p.separator)).toList ++ l.1)), m.nodes))) := by
  refine ⟨fun hsize shown => by rw [Printer.render, if_pos hsize]; rfl, fun hsize =>
    ⟨Printer.asksFor_stylings hs m hsize p, fun hp r hr => ?_⟩⟩
  rw [Printer.render_eq_write hs m hsize] at hr
  obtain ⟨text, htext, rfl⟩ := Except.map_eq_ok_iff.mp hr
  obtain ⟨ls, hls, rfl⟩ := Except.map_eq_ok_iff.mp (Except.mapError_eq_ok_iff.mp htext)
  have hne : ls ≠ [] := by
    have hlength := (Except.forall₂_of_mapM hls).length_eq
    have hpos := List.length_pos_iff.mpr (layoutLines_ne_nil (s.markAll m
      (s.tokens.toList.filter fun t => !t.origin.isEmpty)).1)
    rw [← List.length_pos_iff, ← hlength]
    exact hpos
  have hlines : lines ("\n".intercalate ls).toList = ls.map String.toList :=
    Printer.lines_intercalate hne
      (Printer.not_mem_writeLines hp.palettes (not_mem_layoutLines _) hls)
  dsimp only
  rw [if_neg (by decide), hlines, List.length_map]
  refine ⟨rfl, Integer.padded (Nat.toDigits 10 ls.length).length,
    fun k _ hk => isLabel_padded hk, ?_⟩
  have hnumbered : p.write true (s.layout m).1 = .ok ("\n".intercalate (p.numberLines ls)) := by
    rw [Printer.write, Except.map_eq_ok_iff]
    exact ⟨ls, hls, rfl⟩
  rw [Printer.render_eq_write hs m hsize, hnumbered]
  refine congrArg (fun t => Except.ok (t, m.nodes)) (String.toList_injective ?_)
  rw [Printer.toList_intercalate_lines, String.toList_ofList, Printer.numberLines, List.map_map,
    List.zipIdx_map, List.map_map]
  refine congrArg joinLines (List.map_congr_left fun l _ => ?_)
  exact String.toList_append

/-- The printer that sets highlighted text in angle brackets, with a bar behind line numbers. -/
def Printer.barred : Printer := { Printer.bracketed with separator := "|" }

/-- A sequence on ten lines, with its first entry in angle brackets. -/
theorem render_numbered_tenLines :
    ∃ (d : Parsed) (r : String × List Found) (label : Nat → String),
      parse "- a\n- b\n- c\n- d\n- e\n- f\n- g\n- h\n- i\n- j" = .ok d ∧
      Printer.barred.render d.tokens (d.documents.query "0") false = .ok r ∧
      (lines r.1.toList).length = 10 ∧ (∀ k, 1 ≤ k → k ≤ 10 → IsLabel 2 k (label k)) ∧
      Printer.barred.render d.tokens (d.documents.query "0") true =
        .ok (String.ofList (joinLines (((lines r.1.toList).zipIdx 1).map
          fun l => (label l.2 ++ "|").toList ++ l.1)), (d.documents.query "0").nodes) := by
  obtain ⟨d, hd, hcheck⟩ := Except.exists_ok_of_any
    (x := parse "- a\n- b\n- c\n- d\n- e\n- f\n- g\n- h\n- i\n- j") (p := fun d =>
      d.tokens.size != 0 &&
        (Printer.barred.render d.tokens (d.documents.query "0") false).toOption.any fun r =>
          (lines r.1.toList).length == 10) (by decide +kernel)
  obtain ⟨hsize, hcheck⟩ := Bool.and_eq_true_iff.mp hcheck
  obtain ⟨r, hr, hlength⟩ := Except.exists_ok_of_any hcheck
  have hp : Printer.barred.AddsNoBreaks :=
    ⟨Printer.sparesBreaks_bracketed, fun _ hs => hs, by decide⟩
  obtain ⟨-, label, hlabel, htext⟩ :=
    ((render_numbered d.isIndexed (d.documents.query "0") Printer.barred).2
      (bne_iff_ne.mp hsize)).2 hp r hr
  have hten : (lines r.1.toList).length = 10 := eq_of_beq hlength
  rw [hten] at hlabel
  exact ⟨d, r, label, hd, hr, hten, hlabel, htext⟩

end YamlNavigator
