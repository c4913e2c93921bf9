import Mathlib.Tactic.Lemma
import YamlNavigator.Proofs.Outcome
import YamlNavigator.Yaml.Event.Grammar

/-!
How the reading of events fails.

* `Grammar.Refuses`: a reading fails with a problem at a place, if it fails; it does if the readings
  that it is put together from do;
* `Grammar.RefusesNodes`, `refusesNodes`: so do the functions for nodes and collections;
* `refuses_ofLexemes`: so does the reading of a stream.
-/

namespace YamlNavigator.Yaml

namespace Grammar

variable {α β : Type} {t : Tagging} {n : Nat} {ls : List Lexeme}

/-- If a reading fails, then with a problem at a place. -/
def Refuses (r : Except Failure α) : Prop :=
  ∀ f, r = .error f → ∃ cause mark, f = .problem cause mark

namespace Refuses

lemma pure (a : α) : Refuses (Pure.pure a : Except Failure α) := fun _ h => by cases h

lemma problem (cause : Problem) (mark : Mark) :
    Refuses (.error (.problem cause mark) : Except Failure α) :=
  fun _ h => by cases h; exact ⟨cause, mark, rfl⟩

lemma refuse (cause : Content → Problem) (ls : List Lexeme) :
    Refuses (Grammar.refuse cause ls : Except Failure α) := .problem _ _

lemma bind {r : Except Failure α} {f : α → Except Failure β} (hr : Refuses r)
    (hf : ∀ a, Refuses (f a)) : Refuses (r >>= f) := by
  intro e he
  rcases Except.bind_eq_error_iff.mp he with he | ⟨a, -, he⟩
  · exact hr e he
  · exact hf a e he

lemma emit {es : List Event} {r : Reading} (hr : Refuses r) : Refuses (Grammar.emit es r) :=
  fun f hf => hr f (Except.map_eq_error_iff.mp hf)

lemma ite {p : Prop} [Decidable p] {r r' : Except Failure α} (hr : Refuses r) (hr' : Refuses r') :
    Refuses (if p then r else r') := by
  split
  · exact hr
  · exact hr'

end Refuses

/-! ### Tags and anchors -/

lemma refuses_resolve (t : Tagging) (handle : Option String) (suffix : String) (mark : Mark) :
    Refuses (t.resolve handle suffix mark) := by
  unfold Tagging.resolve
  split
  · exact .pure _
  · split
    · exact .pure _
    · exact .problem _ _

lemma refuses_tag? (t : Tagging) (ls : List Lexeme) : Refuses (tag? t ls) := by
  unfold tag?
  split
  · exact .bind (refuses_resolve t _ _ _) fun _ => .pure _
  · exact .pure _

lemma refuses_properties (t : Tagging) (ls : List Lexeme) : Refuses (properties t ls) := by
  rw [properties]
  split
  · refine .bind (refuses_tag? t _) fun tag => ?_
    split <;> exact .pure _
  · refine .bind (refuses_tag? t _) fun tag => ?_
    split
    · split <;> exact .pure _
    · exact .pure _

/-! ### Nodes -/

/-- The functions for nodes and collections refuse with a problem at a place, with `n` as the bound
on nested calls. -/
structure RefusesNodes (t : Tagging) (n : Nat) : Prop where
  node : ∀ place ls, Refuses (Grammar.node t place n ls)
  blockSequence : ∀ ls, Refuses (Grammar.blockSequence t n ls)
  indentlessSequence : ∀ ls, Refuses (Grammar.indentlessSequence t n ls)
  blockMapping : ∀ ls, Refuses (Grammar.blockMapping t n ls)
  blockValue : ∀ ls, Refuses (Grammar.blockValue t n ls)
  flowSequence : ∀ first ls, Refuses (Grammar.flowSequence t first n ls)
  flowPairKey : ∀ key ls, Refuses (Grammar.flowPairKey t key n ls)
  flowPairValue : ∀ ls, Refuses (Grammar.flowPairValue t n ls)
  flowMapping : ∀ first ls, Refuses (Grammar.flowMapping t first n ls)
  flowValue : ∀ ls, Refuses (Grammar.flowValue t n ls)

/-- Without further calls everything is refused. -/
lemma RefusesNodes.zero (t : Tagging) : RefusesNodes t 0 := by
  constructor <;> intros <;> exact .refuse _ _

namespace RefusesNodes

variable (ih : RefusesNodes t n)

include ih

lemma node_succ (place : Place) (ls : List Lexeme) : Refuses (Grammar.node t place (n + 1) ls) := by
  unfold Grammar.node
  split
  · exact .pure _
  · refine .bind (refuses_properties t ls) fun p => ?_
    obtain ⟨p, ls⟩ := p
    dsimp only
    split
    · exact .emit (ih.indentlessSequence _)
    · exact .pure _
    · exact .emit (ih.flowSequence _ _)
    · exact .emit (ih.flowMapping _ _)
    · exact .emit (ih.blockSequence _)
    · exact .emit (ih.blockSequence _)
    · exact .emit (ih.blockMapping _)
    · exact .emit (ih.blockMapping _)
    · exact .ite (.pure _) (.refuse _ _)

lemma blockSequence_succ (ls : List Lexeme) : Refuses (Grammar.blockSequence t (n + 1) ls) := by
  rw [Grammar.blockSequence]
  dsimp only
  split
  · split
    · exact .emit (ih.blockSequence _)
    · exact .emit (ih.blockSequence _)
    · exact .bind (ih.node _ _) fun (_, _) => .emit (ih.blockSequence _)
  · exact .pure _
  · exact .refuse _ _

lemma indentlessSequence_succ (ls : List Lexeme) :
    Refuses (Grammar.indentlessSequence t (n + 1) ls) := by
  rw [Grammar.indentlessSequence]
  dsimp only
  split
  · split
    case h_5 => exact .bind (ih.node _ _) fun (_, _) => .emit (ih.indentlessSequence _)
    all_goals exact .emit (ih.indentlessSequence _)
  · exact .pure _

lemma blockMapping_succ (ls : List Lexeme) : Refuses (Grammar.blockMapping t (n + 1) ls) := by
  rw [Grammar.blockMapping]
  dsimp only
  split
  · split
    case h_4 => exact .bind (ih.node _ _) fun (_, _) => .emit (ih.blockValue _)
    all_goals exact .emit (ih.blockValue _)
  · exact .pure _
  · exact .refuse _ _

lemma blockValue_succ (ls : List Lexeme) : Refuses (Grammar.blockValue t (n + 1) ls) := by
  rw [Grammar.blockValue]
  dsimp only
  split
  · split
    case h_4 => exact .bind (ih.node _ _) fun (_, _) => .emit (ih.blockMapping _)
    all_goals exact .emit (ih.blockMapping _)
  · exact .emit (ih.blockMapping _)

/-- An item of a flow sequence, or its end. -/
private lemma flowItem_succ (ls : List Lexeme) : Refuses (
    match (front ls).content with
    | .key =>
        Grammar.emit [⟨.mappingStart none none true, (front ls).start, (front ls).stop⟩]
          (Grammar.flowPairKey t (front ls) n ls.tail)
    | .flowSequenceEnd =>
        return ([⟨.sequenceEnd, (front ls).start, (front ls).stop⟩], ls.tail)
    | _ => do
        let (es, rest) ← Grammar.node t .flow n ls
        Grammar.emit es (Grammar.flowSequence t false n rest)) := by
  split
  · exact .emit (ih.flowPairKey _ _)
  · exact .pure _
  · exact .bind (ih.node _ _) fun (_, _) => .emit (ih.flowSequence _ _)

lemma flowSequence_succ (first : Bool) (ls : List Lexeme) :
    Refuses (Grammar.flowSequence t first (n + 1) ls) := by
  rw [Grammar.flowSequence]
  exact .ite (.pure _)
    (.ite (.bind (.refuse _ _) fun _ => ih.flowItem_succ _) (ih.flowItem_succ _))

lemma flowPairKey_succ (key : Lexeme) (ls : List Lexeme) :
    Refuses (Grammar.flowPairKey t key (n + 1) ls) := by
  rw [Grammar.flowPairKey]
  split
  case h_4 => exact .bind (ih.node _ _) fun (_, _) => .emit (ih.flowPairValue _)
  all_goals exact .emit (ih.flowPairValue _)

lemma flowPairValue_succ (ls : List Lexeme) : Refuses (Grammar.flowPairValue t (n + 1) ls) := by
  rw [Grammar.flowPairValue]
  dsimp only
  have hafter : ∀ p : List Event × List Lexeme, Refuses (
      Grammar.emit (p.1 ++ [⟨.mappingEnd, (front p.2).start, (front p.2).start⟩])
        (Grammar.flowSequence t false n p.2)) := fun _ => .emit (ih.flowSequence _ _)
  split
  · split
    · exact .bind (.pure _) hafter
    · exact .bind (.pure _) hafter
    · exact .bind (ih.node _ _) hafter
  · exact .bind (.pure _) hafter

/-- An entry of a flow mapping, or its end. -/
private lemma flowEntry_succ (ls : List Lexeme) : Refuses (
    match (front ls).content with
    | .key =>
        match (front ls.tail).content with
        | .value | .flowEntry | .flowMappingEnd =>
            Grammar.emit [emptyScalar (front ls).stop] (Grammar.flowValue t n ls.tail)
        | _ => do
            let (es, rest) ← Grammar.node t .flow n ls.tail
            Grammar.emit es (Grammar.flowValue t n rest)
    | .flowMappingEnd =>
        return ([⟨.mappingEnd, (front ls).start, (front ls).stop⟩], ls.tail)
    | _ => do
        let (es, rest) ← Grammar.node t .flow n ls
        Grammar.emit (es ++ [emptyScalar (front rest).start])
          (Grammar.flowMapping t false n rest)) := by
  split
  · split
    case h_4 => exact .bind (ih.node _ _) fun (_, _) => .emit (ih.flowValue _)
    all_goals exact .emit (ih.flowValue _)
  · exact .pure _
  · exact .bind (ih.node _ _) fun (_, _) => .emit (ih.flowMapping _ _)

lemma flowMapping_succ (first : Bool) (ls : List Lexeme) :
    Refuses (Grammar.flowMapping t first (n + 1) ls) := by
  rw [Grammar.flowMapping]
  exact .ite (.pure _)
    (.ite (.bind (.refuse _ _) fun _ => ih.flowEntry_succ _) (ih.flowEntry_succ _))

lemma flowValue_succ (ls : List Lexeme) : Refuses (Grammar.flowValue t (n + 1) ls) := by
  rw [Grammar.flowValue]
  dsimp only
  split
  · split
    case h_3 => exact .bind (ih.node _ _) fun (_, _) => .emit (ih.flowMapping _ _)
    all_goals exact .emit (ih.flowMapping _ _)
  · exact .emit (ih.flowMapping _ _)

/-- One more call refuses with a problem at a place if the others do. -/
lemma succ : RefusesNodes t (n + 1) where
  node := ih.node_succ
  blockSequence := ih.blockSequence_succ
  indentlessSequence := ih.indentlessSequence_succ
  blockMapping := ih.blockMapping_succ
  blockValue := ih.blockValue_succ
  flowSequence := ih.flowSequence_succ
  flowPairKey := ih.flowPairKey_succ
  flowPairValue := ih.flowPairValue_succ
  flowMapping := ih.flowMapping_succ
  flowValue := ih.flowValue_succ

end RefusesNodes

/-- Nodes and collections are refused with a problem at a place. -/
theorem refusesNodes (t : Tagging) (n : Nat) : RefusesNodes t n := by
  induction n with
  | zero => exact .zero t
  | succ n ih => exact ih.succ

/-! ### Documents -/

lemma refuses_directives : ∀ (ls : List Lexeme) (d : Directives), Refuses (directives d ls)
  | [], d => .pure _
  | l :: ls, d => by
      unfold directives
      split
      · next heq =>
          cases heq
          exact .ite (.problem _ _) (.ite (.problem _ _) (refuses_directives ls _))
      · next heq =>
          cases heq
          exact .ite (.problem _ _) (refuses_directives ls _)
      · next heq =>
          cases heq
          exact refuses_directives ls d
      · exact .pure _

lemma refuses_documentRest {r : Reading} (hr : Refuses r) : Refuses (documentRest r) :=
  .bind hr fun _ => .pure _

lemma refuses_documentBody (t : Tagging) (ls : List Lexeme) : Refuses (documentBody t ls) := by
  unfold documentBody
  split
  case h_5 => exact (refusesNodes t _).node _ _
  all_goals exact .pure _

lemma refuses_explicitDocument (ls : List Lexeme) : Refuses (explicitDocument ls) := by
  refine .bind (refuses_directives ls _) fun p => ?_
  obtain ⟨d, ls⟩ := p
  exact .ite (.bind (.refuse _ _) fun _ => .emit (refuses_documentRest (refuses_documentBody _ _)))
    (.emit (refuses_documentRest (refuses_documentBody _ _)))

lemma refuses_implicitDocument (ls : List Lexeme) : Refuses (implicitDocument ls) := by
  unfold implicitDocument
  dsimp only
  split
  case h_4 => exact .emit (refuses_documentRest ((refusesNodes _ _).node _ _))
  all_goals exact .pure _

lemma refuses_documents : ∀ (n : Nat) (ls : List Lexeme), Refuses (documents n ls)
  | 0, _ => .refuse _ _
  | n + 1, _ => .ite (.pure _) (.bind (refuses_explicitDocument _) fun (_, rest) =>
      .bind (refuses_documents n rest) fun _ => .pure _)

end Grammar

open Grammar in
/-- **Units are refused with a problem at a place.** -/
theorem refuses_ofLexemes (ls : List Lexeme) : Refuses (Event.ofLexemes ls) :=
  .bind (refuses_implicitDocument _) fun (_, rest) =>
    .bind (refuses_documents _ rest) fun _ => .pure _

end YamlNavigator.Yaml
