import YamlNavigator.Proofs.Render.Pieces
import YamlNavigator.Proofs.Text.Spelling

/-!
What is written of the pieces of a document: characters that stand as they are, and texts in a
style.

* `Stroke`, `strokesOf`: pieces, so far as it matters to the written text how they are cut;
* `Diverge`, `AgreeIff`: strokes that differ at a place within them, and strokes that do unless a
  condition holds;
* `Printer.writeStrokes`, `Printer.write_eq_writeStrokes`: every printer writes lines as their
  strokes;
* `Spelling.strokes`, `Printer.SparesBreaks`, `Printer.writeStrokes_spelled`: what is written of
  strokes is spelled in another way if the characters between the styled texts are, and the printer
  adds no line feeds.
-/

namespace YamlNavigator

open Text

/-! ### Strokes -/

/-- What is written at once: a character that stands as it is, or a text in the style of a
category. -/
inductive Stroke where
  | plain (c : Char)
  | styled (highlighted : Bool) (category : Category) (text : List Char)
  deriving DecidableEq, Repr

/-- What is written of a piece; without a category a painted text stands as it is. -/
def Piece.strokes : Piece → List Stroke
  | .bare s => s.map .plain
  | .painted _ none s => s.map .plain
  | .painted on (some c) s => [.styled on c s]

/-- What is written of pieces that follow one another. -/
def strokesOf (ps : List Piece) : List Stroke := ps.flatMap Piece.strokes

lemma strokesOf_append (ps qs : List Piece) : strokesOf (ps ++ qs) = strokesOf ps ++ strokesOf qs :=
  List.flatMap_append

/-- Pieces without a category stand as they are. -/
lemma strokesOf_of_none {ps : List Piece} (h : ∀ on c s, .painted on c s ∈ ps → c = none) :
    strokesOf ps = (ps.flatMap Piece.text).map .plain := by
  induction ps with
  | nil => rfl
  | cons x ps ih =>
      have hx : x.strokes = x.text.map .plain := by
        rcases x with s | ⟨on, c, s⟩
        · rfl
        · rw [h on c s List.mem_cons_self]
          rfl
      rw [strokesOf, List.flatMap_cons, ← strokesOf, hx, List.flatMap_cons, List.map_append,
        ih fun on c s hs => h on c s (List.mem_cons_of_mem x hs)]

/-! ### Strokes that agree or diverge -/

/-- Strokes that are the same up to a place within both, and differ there. -/
def Diverge (xs ys : List Stroke) : Prop :=
  ∃ before x y xs' ys', x ≠ y ∧ xs = before ++ x :: xs' ∧ ys = before ++ y :: ys'

namespace Diverge

variable {xs ys : List Stroke}

lemma ne (h : Diverge xs ys) : xs ≠ ys := by
  obtain ⟨before, x, y, xs', ys', hne, rfl, rfl⟩ := h
  intro heq
  exact hne (List.cons.inj (List.append_cancel_left heq)).1

lemma symm (h : Diverge xs ys) : Diverge ys xs := by
  obtain ⟨before, x, y, xs', ys', hne, rfl, rfl⟩ := h
  exact ⟨before, y, x, ys', xs', hne.symm, rfl, rfl⟩

/-- Strokes behind strokes that diverge. -/
lemma append_right (h : Diverge xs ys) (as bs : List Stroke) : Diverge (xs ++ as) (ys ++ bs) := by
  obtain ⟨before, x, y, xs', ys', hne, rfl, rfl⟩ := h
  exact ⟨before, x, y, xs' ++ as, ys' ++ bs, hne, by simp, by simp⟩

/-- The same strokes in front of strokes that diverge. -/
lemma append_left (h : Diverge xs ys) (as : List Stroke) : Diverge (as ++ xs) (as ++ ys) := by
  obtain ⟨before, x, y, xs', ys', hne, rfl, rfl⟩ := h
  exact ⟨as ++ before, x, y, xs', ys', hne, by simp, by simp⟩

end Diverge

/-- Strokes that are the same if a condition holds, and diverge if it does not. -/
structure AgreeIff (P : Prop) (xs ys : List Stroke) : Prop where
  eq : P → xs = ys
  diverge : ¬P → Diverge xs ys

namespace AgreeIff

variable {P Q : Prop} {xs ys as bs : List Stroke}

lemma of_eq (hP : P) (h : xs = ys) : AgreeIff P xs ys := ⟨fun _ => h, fun hnot => absurd hP hnot⟩

lemma congr (h : AgreeIff P xs ys) (hPQ : P ↔ Q) : AgreeIff Q xs ys :=
  ⟨fun hQ => h.eq (hPQ.mpr hQ), fun hQ => h.diverge fun hP => hQ (hPQ.mp hP)⟩

/-- The strokes are the same if and only if the condition holds. -/
lemma eq_iff (h : AgreeIff P xs ys) : xs = ys ↔ P := by
  refine ⟨fun heq => ?_, h.eq⟩
  by_contra hP
  exact (h.diverge hP).ne heq

/-- Strokes that are put together from such strokes. -/
lemma append (h : AgreeIff P xs ys) (h' : AgreeIff Q as bs) :
    AgreeIff (P ∧ Q) (xs ++ as) (ys ++ bs) where
  eq := fun ⟨hP, hQ⟩ => by rw [h.eq hP, h'.eq hQ]
  diverge hnot := by
    by_cases hP : P
    · rw [h.eq hP]
      exact (h'.diverge fun hQ => hnot ⟨hP, hQ⟩).append_left ys
    · exact (h.diverge hP).append_right as bs

end AgreeIff

/-! ### Writing strokes -/

namespace Printer

variable (p : Printer)

/-- The text of a stroke. -/
def writeStroke : Stroke → Except Integer.Fault String
  | .plain c => .ok (String.singleton c)
  | .styled on c s => (if on then p.highlighted else p.plain) c (String.ofList s)

/-- The text of strokes that follow one another. -/
def writeStrokes : List Stroke → Except Integer.Fault String
  | [] => .ok ""
  | x :: xs => do return (← p.writeStroke x) ++ (← writeStrokes xs)

/-- Strokes are written one behind another. -/
lemma writeStrokes_append (xs ys : List Stroke) : p.writeStrokes (xs ++ ys) =
    (do return (← p.writeStrokes xs) ++ (← p.writeStrokes ys)) := by
  induction xs with
  | nil =>
      rw [List.nil_append, writeStrokes]
      cases p.writeStrokes ys with
      | error e => rfl
      | ok b => exact congrArg Except.ok String.empty_append.symm
  | cons x xs ih =>
      rw [List.cons_append, writeStrokes, ih, writeStrokes]
      cases p.writeStroke x with
      | error e => rfl
      | ok a =>
          cases p.writeStrokes xs with
          | error e => rfl
          | ok b =>
              cases p.writeStrokes ys with
              | error e => rfl
              | ok c => exact congrArg Except.ok String.append_assoc.symm

/-- Characters that stand as they are. -/
lemma writeStrokes_plain (s : List Char) :
    p.writeStrokes (s.map .plain) = .ok (String.ofList s) := by
  induction s with
  | nil => rfl
  | cons c s ih =>
      rw [List.map_cons, writeStrokes, ih]
      show Except.ok (String.ofList [c] ++ String.ofList s) = .ok (String.ofList ([c] ++ s))
      rw [String.ofList_append]

/-- A piece is written as its strokes. -/
lemma writePiece_eq_writeStrokes (x : Piece) : p.writePiece x = p.writeStrokes x.strokes := by
  rcases x with s | ⟨on, _ | c, s⟩
  · exact (p.writeStrokes_plain s).symm
  · rw [Piece.strokes, writeStrokes_plain]
    cases on <;> rfl
  · rw [Piece.strokes, writeStrokes, writeStrokes, writePiece, Palette.paint, writeStroke]
    cases (if on then p.highlighted else p.plain) c (String.ofList s) with
    | error e => rfl
    | ok a => exact congrArg Except.ok String.append_empty.symm

/-- A line is written as its strokes. -/
lemma writeLine_eq_writeStrokes (line : List Piece) :
    p.writeLine line = p.writeStrokes (strokesOf line) := by
  induction line with
  | nil => rfl
  | cons x line ih =>
      rw [strokesOf, List.flatMap_cons, writeStrokes_append, ← strokesOf, ← ih,
        ← writePiece_eq_writeStrokes, writeLine, writeLine, List.mapM_cons]
      cases p.writePiece x with
      | error e => rfl
      | ok a =>
          cases line.mapM p.writePiece with
          | error e => rfl
          | ok as => exact congrArg Except.ok (String.join_cons ..)

/-- **Lines are written as the strokes of their pieces**, with line feeds between the lines. -/
theorem write_eq_writeStrokes (layout : List (List Piece)) :
    p.write false layout = p.writeStrokes (strokesOf (joinPieces layout)) := by
  induction layout with
  | nil => rfl
  | cons l ls ih =>
      cases ls with
      | nil =>
          rw [joinPieces, List.intercalate_singleton, ← writeLine_eq_writeStrokes, write,
            List.mapM_cons]
          cases p.writeLine l with
          | error e => rfl
          | ok a => exact congrArg Except.ok String.intercalate_singleton
      | cons k ls =>
          have hfeed : p.writeStrokes (strokesOf [Piece.lineFeed]) = .ok "\n" := rfl
          rw [joinPieces, List.intercalate_cons_cons, strokesOf_append, strokesOf_append,
            writeStrokes_append, writeStrokes_append, ← joinPieces, ← ih, hfeed,
            ← writeLine_eq_writeStrokes, write, write, List.mapM_cons]
          cases p.writeLine l with
          | error e => rfl
          | ok a =>
              rw [List.mapM_cons]
              cases p.writeLine k with
              | error e => rfl
              | ok b =>
                  cases ls.mapM p.writeLine with
                  | error e => rfl
                  | ok bs => exact congrArg Except.ok String.intercalate_cons_cons

end Printer

/-! ### Strokes in another spelling -/

namespace Spelling

variable (w : Spelling)

/-- A character that stands as it is in its spelling; a styled text stays. -/
def stroke : Stroke → List Stroke
  | .plain c => (w.char c).map .plain
  | x => [x]

/-- Strokes with the characters that stand as they are in their spelling. -/
def strokes (xs : List Stroke) : List Stroke := xs.flatMap w.stroke

lemma strokes_append (xs ys : List Stroke) : w.strokes (xs ++ ys) = w.strokes xs ++ w.strokes ys :=
  List.flatMap_append

/-- Characters that stand as they are. -/
lemma strokes_plain (s : List Char) : w.strokes (s.map .plain) = (w.body s).map .plain := by
  rw [strokes, List.flatMap_map, body, List.map_flatMap]
  rfl

/-- Strokes without a line feed stay as they are. -/
lemma strokes_of_not_mem {xs : List Stroke} (h : .plain '\n' ∉ xs) : w.strokes xs = xs := by
  induction xs with
  | nil => rfl
  | cons x xs ih =>
      have hx : w.stroke x = [x] := by
        cases x with
        | plain c =>
            have hc : c ≠ '\n' := by
              rintro rfl
              exact h List.mem_cons_self
            rw [stroke, char_of_ne hc, List.map_singleton]
        | styled on c s => rfl
      rw [strokes, List.flatMap_cons, ← strokes, hx,
        ih fun hmem => h (List.mem_cons_of_mem x hmem), List.singleton_append]

/-- Without carriage returns all strokes stay as they are. -/
lemma strokes_of_returns_eq_false (h : w.returns = false) (xs : List Stroke) :
    w.strokes xs = xs := by
  induction xs with
  | nil => rfl
  | cons x xs ih =>
      have hx : w.stroke x = [x] := by
        cases x with
        | plain c => rw [stroke, ← body_singleton, body_of_returns_eq_false h, List.map_singleton]
        | styled on c s => rfl
      rw [strokes, List.flatMap_cons, ← strokes, hx, ih, List.singleton_append]

end Spelling

namespace Printer

variable {p : Printer}

/-- The palettes of the printer write no line feed for a text without one. -/
def SparesBreaks (p : Printer) : Prop :=
  ∀ (on : Bool) (c : Category) (s out : String),
    (if on then p.highlighted else p.plain) c s = .ok out → '\n' ∉ s.toList → '\n' ∉ out.toList

/-- **What is written of strokes in another spelling** is the spelling of what is written of them,
if carriage returns are not asked for, or the printer adds no line feeds to the styled texts. -/
theorem writeStrokes_spelled {w : Spelling} (h : w.returns = true → p.SparesBreaks)
    {xs : List Stroke} (hxs : ∀ on c s, .styled on c s ∈ xs → '\n' ∉ s) :
    p.writeStrokes (w.strokes xs) =
      (p.writeStrokes xs).map fun out => String.ofList (w.body out.toList) := by
  induction xs with
  | nil => rfl
  | cons x xs ih =>
      have hx : p.writeStrokes (w.stroke x) =
          (p.writeStroke x).map fun out => String.ofList (w.body out.toList) := by
        cases x with
        | plain c =>
            rw [Spelling.stroke, writeStrokes_plain, ← Spelling.body_singleton, writeStroke]
            exact congrArg (fun s => Except.ok (String.ofList (w.body s)))
              (String.toList_singleton c).symm
        | styled on c s =>
            show p.writeStrokes [.styled on c s] = _
            rw [writeStrokes, writeStrokes]
            cases hout : p.writeStroke (.styled on c s) with
            | error e => rfl
            | ok out =>
                have hbody : w.body out.toList = out.toList := by
                  cases hreturns : w.returns with
                  | false => exact Spelling.body_of_returns_eq_false hreturns _
                  | true =>
                      refine Spelling.body_of_not_mem (h hreturns on c _ out hout ?_)
                      rw [String.toList_ofList]
                      exact hxs on c s List.mem_cons_self
                show Except.ok (out ++ "") = Except.ok (String.ofList (w.body out.toList))
                rw [hbody, String.ofList_toList, String.append_empty]
      rw [Spelling.strokes, List.flatMap_cons, ← Spelling.strokes, writeStrokes_append, hx,
        ih fun on c s hs => hxs on c s (List.mem_cons_of_mem x hs), writeStrokes]
      cases p.writeStroke x with
      | error e => rfl
      | ok a =>
          cases p.writeStrokes xs with
          | error e => rfl
          | ok b =>
              refine congrArg Except.ok ?_
              rw [← String.ofList_append, ← Spelling.body_append, ← String.toList_append]

end Printer

end YamlNavigator
