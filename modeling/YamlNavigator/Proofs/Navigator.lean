import Mathlib.Data.List.Induction
import YamlNavigator.Navigator
import YamlNavigator.Proofs.Document.Tiles
import YamlNavigator.Proofs.Render.Pieces

/-!
The state of somebody who looks through a document, told from what was done.

* `lastPlace?`: the last place with a property;
* `Navigator.Operation`, `Navigator.perform`, `Navigator.after`: the operations, and the state after
  several of them;
* `Navigator.pathAfter`, `Navigator.lastReset?`, `Navigator.moveCount`, `Navigator.shownAfter`: what
  operations amount to, without any state;
* `Navigator.focusAfter`: the place of the focus after it was moved on several times;
* `Navigator.Follows`, `Navigator.Follows.perform`: the state that follows from operations, and that
  every operation leads from such a state to another one;
* `Navigator.exists_after_iff`: operations fail only with the rendering of the document;
* `navigator_reflects`: the state after any operations.
-/

namespace YamlNavigator

/-! ### Last places -/

/-- The last of the first `n` places that has a property. -/
def lastPlace? (p : Nat → Bool) (n : Nat) : Option Nat := (List.range n).reverse.find? p

section LastPlaces

variable {p q : Nat → Bool} {n i : Nat}

/-- One more place comes before the others. -/
lemma lastPlace?_succ (p : Nat → Bool) (n : Nat) :
    lastPlace? p (n + 1) = if p n then some n else lastPlace? p n := by
  rw [lastPlace?, List.range_succ, List.reverse_append, List.reverse_singleton,
    List.singleton_append, List.find?_cons]
  cases p n <;> rfl

/-- Only the places that are looked at count. -/
lemma lastPlace?_congr (h : ∀ i < n, p i = q i) : lastPlace? p n = lastPlace? q n := by
  induction n with
  | zero => rfl
  | succ n ih =>
      rw [lastPlace?_succ, lastPlace?_succ, h n (Nat.lt_succ_self n),
        ih fun i hi => h i (Nat.lt_succ_of_lt hi)]

/-- The last place is one of those that are looked at. -/
lemma lt_of_lastPlace? (h : lastPlace? p n = some i) : i < n := by
  simpa using List.mem_of_find?_eq_some h

/-- There is no last place if none has the property. -/
lemma lastPlace?_eq_none (h : ∀ i < n, p i = false) : lastPlace? p n = none := by
  rw [lastPlace?, List.find?_eq_none]
  intro i hi
  rw [h i (by simpa using hi)]
  exact Bool.false_ne_true

end LastPlaces

/-- The matches that are answered are those of the query, with line numbers or without. -/
lemma Printer.snd_of_renderQuery {p : Printer} {d : Parsed} {q : String} {lineNumbers : Bool}
    {r : String × List Found} (h : p.renderQuery d q lineNumbers = .ok r) :
    r.2 = if d.tokens.size = 0 then [] else (d.documents.query q).nodes := by
  rw [renderQuery, render] at h
  split at h
  · next hsize =>
      rw [if_pos hsize]
      cases h
      rfl
  · next hsize =>
      rw [if_neg hsize]
      simp only [Except.bind_eq_ok_iff] at h
      obtain ⟨text, -, h⟩ := h
      split at h
      · cases h
      · cases h
        rfl

namespace Navigator

/-! ### Operations -/

/-- An operation that changes the state. -/
inductive Operation where
  | navigate (path : String)
  | confirm (path : String)
  | nextMatch
  | toggleLineNumbers
  deriving DecidableEq, Repr

namespace Operation

/-- The query that an operation asks for. -/
def path? : Operation → Option String
  | navigate path | confirm path => some path
  | nextMatch | toggleLineNumbers => none

/-- Does the operation move the focus on, and answer with the match that has it then? -/
def movesFocus : Operation → Bool
  | confirm _ | nextMatch => true
  | navigate _ | toggleLineNumbers => false

/-- Does the operation take the focus away while a query is current? -/
def resets (current : String) : Operation → Bool
  | navigate _ => true
  | confirm path => path != current
  | nextMatch | toggleLineNumbers => false

end Operation

/-- The state after an operation. -/
def perform (x : Navigator) : Operation → Except Printer.Fault Navigator
  | .navigate path => x.navigate path
  | .confirm path => x.confirm path
  | .nextMatch => .ok x.nextMatch
  | .toggleLineNumbers => x.toggleLineNumbers

/-- The state after operations, from the beginning on. -/
def after (d : Parsed) (p : Printer) (shown : Bool) (ops : List Operation) :
    Except Printer.Fault Navigator := do
  ops.foldlM perform (← start d p shown)

/-! ### What operations amount to -/

/-- The query that was asked for last. -/
def pathAfter (ops : List Operation) : String := ((ops.filterMap Operation.path?).getLast?).getD ""

/-- Does the operation at a place take the focus away? -/
def resetsAt (ops : List Operation) (i : Nat) : Bool :=
  ops[i]?.any (Operation.resets (pathAfter (ops.take i)))

/-- The place of the last operation that took the focus away. -/
def lastReset? (ops : List Operation) : Option Nat := lastPlace? (resetsAt ops) ops.length

/-- The operations since the focus was taken away, with the one that did it. -/
def sinceReset (ops : List Operation) : List Operation := ops.drop ((lastReset? ops).getD 0)

/-- How often the focus was moved on since it was taken away. -/
def moveCount (ops : List Operation) : Nat := (sinceReset ops).countP Operation.movesFocus

/-- The place of the last operation that moved the focus on since it was taken away. -/
def lastMove? (ops : List Operation) : Option Nat :=
  lastPlace? (fun i => decide ((lastReset? ops).getD 0 ≤ i) && ops[i]?.any Operation.movesFocus)
    ops.length

/-- Are line numbers shown, if they were so at the beginning or not? -/
def shownAfter (shown : Bool) (ops : List Operation) : Bool :=
  shown ^^ decide (ops.count .toggleLineNumbers % 2 = 1)

/-- The place of the focus among `count` matches after it was moved on `n` times: it begins with the
first match, and after the last one comes the first. -/
def focusAfter (count n : Nat) : Option Nat :=
  if count = 0 ∨ n = 0 then none else some ((n - 1) % count)

section OneMore

variable (ops : List Operation) (op : Operation)

/-- One more operation may ask for a query. -/
lemma pathAfter_append : pathAfter (ops ++ [op]) = op.path?.getD (pathAfter ops) := by
  rw [pathAfter, List.filterMap_append]
  cases h : op.path? with
  | none => simp [h, pathAfter]
  | some path => simp [h]

/-- One more operation may show or hide the line numbers. -/
lemma shownAfter_append (shown : Bool) : shownAfter shown (ops ++ [op]) =
    if op = .toggleLineNumbers then !shownAfter shown ops else shownAfter shown ops := by
  rw [shownAfter, shownAfter, List.count_append, List.count_singleton]
  by_cases hop : op = .toggleLineNumbers
  · have hparity : decide ((ops.count .toggleLineNumbers + 1) % 2 = 1) =
        !decide (ops.count .toggleLineNumbers % 2 = 1) := by
      rw [← decide_not, decide_eq_decide]
      omega
    simp only [hop, BEq.rfl, if_true, hparity, Bool.xor_not]
  · simp [hop]

/-- One more operation does not change what the ones before it did. -/
lemma resetsAt_append {i : Nat} (hi : i < ops.length) :
    resetsAt (ops ++ [op]) i = resetsAt ops i := by
  rw [resetsAt, resetsAt, List.getElem?_append_left hi,
    List.take_append_of_le_length (Nat.le_of_lt hi)]

/-- One more operation takes the focus away or leaves the last place where this was done. -/
lemma lastReset?_append : lastReset? (ops ++ [op]) =
    if op.resets (pathAfter ops) then some ops.length else lastReset? ops := by
  have hlast : resetsAt (ops ++ [op]) ops.length = op.resets (pathAfter ops) := by
    simp [resetsAt]
  rw [lastReset?, List.length_append, List.length_singleton, lastPlace?_succ, hlast,
    lastPlace?_congr fun i hi => resetsAt_append ops op hi, lastReset?]

/-- The last place where the focus was taken away is not behind the operations. -/
lemma lastReset?_le : (lastReset? ops).getD 0 ≤ ops.length := by
  cases h : lastReset? ops with
  | none => exact Nat.zero_le _
  | some i => exact Nat.le_of_lt (lt_of_lastPlace? h)

/-- One more operation begins a new count, and counts itself if it moves the focus on. -/
lemma moveCount_append : moveCount (ops ++ [op]) =
    (if op.resets (pathAfter ops) then 0 else moveCount ops) +
      if op.movesFocus then 1 else 0 := by
  rw [moveCount, sinceReset, lastReset?_append]
  split
  · rw [Option.getD_some, List.drop_left, List.countP_singleton, Nat.zero_add]
  · rw [List.drop_append_of_le_length (lastReset?_le ops), List.countP_append,
      List.countP_singleton, moveCount, sinceReset]

/-- One more operation moves the focus on, takes it away, or leaves it. -/
lemma lastMove?_append : lastMove? (ops ++ [op]) =
    if op.movesFocus then some ops.length
    else if op.resets (pathAfter ops) then none else lastMove? ops := by
  rw [lastMove?, List.length_append, List.length_singleton, lastPlace?_succ,
    List.getElem?_concat_length, Option.any_some, lastReset?_append]
  by_cases hreset : op.resets (pathAfter ops)
  · simp only [if_pos hreset, Option.getD_some, Nat.le_refl, decide_true, Bool.true_and]
    rw [lastPlace?_eq_none fun i hi => ?_]
    rw [decide_eq_false (Nat.not_le_of_lt hi), Bool.false_and]
  · simp only [if_neg hreset, lastReset?_le, decide_true, Bool.true_and]
    rw [lastPlace?_congr (q := fun i => decide ((lastReset? ops).getD 0 ≤ i) &&
      ops[i]?.any Operation.movesFocus) fun i hi => by rw [List.getElem?_append_left hi], lastMove?]

end OneMore

/-- The query that was asked for last is that of the operation that last took the focus away. -/
lemma pathAfter_eq (ops : List Operation) :
    pathAfter ops = ((lastReset? ops).bind fun i => ops[i]?.bind Operation.path?).getD "" := by
  induction ops using List.reverseRecOn with
  | nil => rfl
  | append_singleton ops op ih =>
      rw [pathAfter_append, lastReset?_append]
      by_cases hreset : op.resets (pathAfter ops)
      · rw [if_pos hreset, Option.bind_some, List.getElem?_concat_length, Option.bind_some]
        cases op <;> first | rfl | cases hreset
      · -- an operation that takes no focus away asks for no other query
        have hpath : op.path?.getD (pathAfter ops) = pathAfter ops := by
          cases op with
          | navigate path => exact absurd rfl hreset
          | confirm path => simpa [Operation.resets, Operation.path?] using hreset
          | nextMatch => rfl
          | toggleLineNumbers => rfl
        rw [if_neg hreset, hpath, ih]
        cases h : lastReset? ops with
        | none => rfl
        | some i => rw [Option.bind_some, Option.bind_some,
            List.getElem?_append_left (lt_of_lastPlace? h)]

/-! ### One operation -/

/-- The state that follows from operations: the query that was asked for last is rendered, with line
numbers or without, and the focus is where it was moved since it was taken away. -/
structure Follows (d : Parsed) (p : Printer) (shown : Bool) (ops : List Operation)
    (x : Navigator) : Prop where
  parsed : x.parsed = d
  printer : x.printer = p
  path : x.path = pathAfter ops
  lineNumbers : x.lineNumbers = shownAfter shown ops
  rendered : p.renderQuery d (pathAfter ops) (shownAfter shown ops) = .ok (x.content, x.matched)
  focus : x.focus = focusAfter x.matched.length (moveCount ops)

/-- Moving the focus on changes nothing else. -/
lemma nextMatch_eq (x : Navigator) : x.nextMatch = { x with focus := x.nextMatch.focus } := by
  rw [nextMatch]
  split <;> rfl

/-- The focus is moved on by one match. -/
lemma focus_nextMatch {x : Navigator} {n : Nat} (h : x.focus = focusAfter x.matched.length n) :
    x.nextMatch.focus = focusAfter x.matched.length (n + 1) := by
  rw [nextMatch]
  cases hmatched : x.matched with
  | nil => simpa [hmatched, focusAfter] using h
  | cons f fs =>
      rw [hmatched] at h
      cases n with
      | zero => simp [h, focusAfter]
      | succ n => simp [h, focusAfter]

namespace Follows

variable {d : Parsed} {p : Printer} {shown : Bool} {ops : List Operation} {x y : Navigator}

/-- A query is rendered. -/
lemma navigate_eq (h : Follows d p shown ops x) (path : String) : x.navigate path =
    (p.renderQuery d path (shownAfter shown ops)).map fun r =>
      { x with path, content := r.1, matched := r.2, focus := none } := by
  rw [Navigator.navigate, h.parsed, h.printer, h.lineNumbers]
  cases p.renderQuery d path (shownAfter shown ops) <;> rfl

/-- The line numbers are shown or hidden. -/
lemma toggleLineNumbers_eq (h : Follows d p shown ops x) : x.toggleLineNumbers =
    (p.renderQuery d (pathAfter ops) (!shownAfter shown ops)).map fun r =>
      { x with lineNumbers := !shownAfter shown ops, content := r.1, matched := r.2 } := by
  rw [toggleLineNumbers, Navigator.navigate]
  dsimp only
  rw [h.parsed, h.printer, h.path, h.lineNumbers]
  cases p.renderQuery d (pathAfter ops) (!shownAfter shown ops) with
  | error fault => rfl
  | ok r => simp [bind, Except.bind, pure, Except.pure, Except.map]

/-- After a query is rendered. -/
lemma navigate {path : String} (h : Follows d p shown ops x) (hy : x.navigate path = .ok y) :
    Follows d p shown (ops ++ [.navigate path]) y := by
  rw [h.navigate_eq, Except.map_eq_ok_iff] at hy
  obtain ⟨r, hr, rfl⟩ := hy
  have hpath : pathAfter (ops ++ [.navigate path]) = path := pathAfter_append _ _
  have hshown : shownAfter shown (ops ++ [.navigate path]) = shownAfter shown ops :=
    shownAfter_append _ _ shown
  have hcount : moveCount (ops ++ [.navigate path]) = 0 := moveCount_append _ _
  refine ⟨h.parsed, h.printer, hpath.symm, h.lineNumbers.trans hshown.symm, ?_, ?_⟩
  · rw [hpath, hshown]
    exact hr
  · rw [hcount, focusAfter, if_pos (.inr rfl)]

/-- After the focus is moved on: whatever operation does it, the query and the line numbers are as
they were before. -/
lemma moved (h : Follows d p shown ops x) {ops' : List Operation}
    (hpath : pathAfter ops' = pathAfter ops) (hshown : shownAfter shown ops' = shownAfter shown ops)
    (hcount : moveCount ops' = moveCount ops + 1) : Follows d p shown ops' x.nextMatch := by
  have hfocus := focus_nextMatch h.focus
  rw [nextMatch_eq]
  refine ⟨h.parsed, h.printer, h.path.trans hpath.symm, h.lineNumbers.trans hshown.symm, ?_, ?_⟩
  · rw [hpath, hshown]
    exact h.rendered
  · rw [hcount]
    exact hfocus

/-- After a query is taken up: a new one is rendered first. -/
lemma confirm {path : String} (h : Follows d p shown ops x) (hy : x.confirm path = .ok y) :
    Follows d p shown (ops ++ [.confirm path]) y := by
  have hpath : pathAfter (ops ++ [.confirm path]) = path := pathAfter_append _ _
  have hshown : shownAfter shown (ops ++ [.confirm path]) = shownAfter shown ops :=
    shownAfter_append _ _ shown
  have hcount : moveCount (ops ++ [.confirm path]) =
      (if path != pathAfter ops then 0 else moveCount ops) + 1 := moveCount_append _ _
  rw [Navigator.confirm, h.path] at hy
  split at hy
  · next hsame =>
      cases hy
      refine h.moved (hpath.trans hsame) hshown ?_
      rw [hcount, if_neg (by simpa using hsame)]
  · next hother =>
      obtain ⟨z, hz, rfl⟩ := Except.map_eq_ok_iff.mp hy
      have hpath' : pathAfter (ops ++ [.navigate path]) = path := pathAfter_append _ _
      have hshown' : shownAfter shown (ops ++ [.navigate path]) = shownAfter shown ops :=
        shownAfter_append _ _ shown
      have hcount' : moveCount (ops ++ [.navigate path]) = 0 := moveCount_append _ _
      refine (h.navigate hz).moved (hpath.trans hpath'.symm) (hshown.trans hshown'.symm) ?_
      rw [hcount, if_pos (by simpa using hother), hcount']

/-- After the line numbers are shown or hidden: the matches are the same, and so is the focus. -/
lemma toggleLineNumbers (h : Follows d p shown ops x) (hy : x.toggleLineNumbers = .ok y) :
    Follows d p shown (ops ++ [.toggleLineNumbers]) y := by
  rw [h.toggleLineNumbers_eq, Except.map_eq_ok_iff] at hy
  obtain ⟨r, hr, rfl⟩ := hy
  have hpath : pathAfter (ops ++ [.toggleLineNumbers]) = pathAfter ops := pathAfter_append _ _
  have hshown : shownAfter shown (ops ++ [.toggleLineNumbers]) = !shownAfter shown ops :=
    shownAfter_append _ _ shown
  have hcount : moveCount (ops ++ [.toggleLineNumbers]) = moveCount ops := moveCount_append _ _
  have hmatched : r.2 = x.matched :=
    (Printer.snd_of_renderQuery hr).trans (Printer.snd_of_renderQuery h.rendered).symm
  refine ⟨h.parsed, h.printer, h.path.trans hpath.symm, hshown.symm, ?_, ?_⟩
  · rw [hpath, hshown]
    exact hr
  · rw [hcount, hmatched]
    exact h.focus

/-- **Every operation leads to the state that follows.** -/
theorem perform {op : Operation} (h : Follows d p shown ops x) (hy : x.perform op = .ok y) :
    Follows d p shown (ops ++ [op]) y := by
  cases op with
  | navigate path => exact h.navigate hy
  | confirm path => exact h.confirm hy
  | nextMatch =>
      cases hy
      exact h.moved (pathAfter_append _ _) (shownAfter_append _ _ shown) (moveCount_append _ _)
  | toggleLineNumbers => exact h.toggleLineNumbers hy

/-- An operation fails only with the rendering of the state that it leads to. -/
lemma exists_perform_iff (h : Follows d p shown ops x) (op : Operation) :
    (∃ y, x.perform op = .ok y) ↔
      ∃ r, p.renderQuery d (pathAfter (ops ++ [op])) (shownAfter shown (ops ++ [op])) = .ok r := by
  have hmap : ∀ {α β : Type} {m : Except Printer.Fault α} {f : α → β},
      (∃ y, m.map f = .ok y) ↔ ∃ r, m = .ok r := by
    intro α β m f
    simp only [Except.map_eq_ok_iff]
    exact ⟨fun ⟨_, r, hr, _⟩ => ⟨r, hr⟩, fun ⟨r, hr⟩ => ⟨_, r, hr, rfl⟩⟩
  have hshown := shownAfter_append ops op shown
  rw [pathAfter_append, hshown]
  cases op with
  | navigate path =>
      rw [Navigator.perform, h.navigate_eq]
      exact hmap
  | confirm path =>
      rw [Navigator.perform, Navigator.confirm, h.path]
      split
      · next hsame =>
          subst hsame
          exact ⟨fun _ => ⟨_, h.rendered⟩, fun _ => ⟨_, rfl⟩⟩
      · rw [hmap, h.navigate_eq]
        exact hmap
  | nextMatch => exact ⟨fun _ => ⟨_, h.rendered⟩, fun _ => ⟨_, rfl⟩⟩
  | toggleLineNumbers =>
      rw [Navigator.perform, h.toggleLineNumbers_eq]
      exact hmap

end Follows

/-! ### Many operations -/

section Runs

variable {d : Parsed} {p : Printer} {shown : Bool}

/-- One more operation is performed on the state after the others. -/
lemma after_append (ops : List Operation) (op : Operation) :
    after d p shown (ops ++ [op]) = after d p shown ops >>= fun x => x.perform op := by
  rw [after, after]
  cases start d p shown with
  | error fault => rfl
  | ok x =>
      show (ops ++ [op]).foldlM perform x = ops.foldlM perform x >>= fun x => x.perform op
      rw [List.foldlM_append]
      simp

/-- At the beginning the query that matches nothing is rendered. -/
lemma start_eq (d : Parsed) (p : Printer) (shown : Bool) : start d p shown =
    (p.renderQuery d "" shown).map fun r =>
      { parsed := d, printer := p, lineNumbers := shown, suggestions := d.documents.suggestions
        content := r.1, matched := r.2 } := by
  rw [start, navigate]
  cases p.renderQuery d "" shown <;> rfl

/-- **Every sequence of operations leads to the state that follows.** -/
theorem follows_of_after {ops : List Operation} {x : Navigator}
    (h : after d p shown ops = .ok x) : Follows d p shown ops x := by
  induction ops using List.reverseRecOn generalizing x with
  | nil =>
      have hstart : start d p shown = .ok x := by
        rw [after] at h
        simpa using h
      rw [start_eq, Except.map_eq_ok_iff] at hstart
      obtain ⟨r, hr, rfl⟩ := hstart
      have hcount : moveCount [] = 0 := rfl
      refine ⟨rfl, rfl, rfl, by simp [shownAfter], by simpa [shownAfter, pathAfter] using hr, ?_⟩
      rw [hcount, focusAfter, if_pos (.inr rfl)]
  | append_singleton ops op ih =>
      rw [after_append, Except.bind_eq_ok_iff] at h
      obtain ⟨y, hy, hx⟩ := h
      exact (ih hy).perform hx

/-- **Operations fail only with a rendering.** They lead to a state if and only if after each of
them the document can be rendered for the query asked for last, with line numbers or without. -/
theorem exists_after_iff (ops : List Operation) : (∃ x, after d p shown ops = .ok x) ↔
    ∀ n ≤ ops.length, ∃ r, p.renderQuery d (pathAfter (ops.take n))
      (shownAfter shown (ops.take n)) = .ok r := by
  induction ops using List.reverseRecOn with
  | nil =>
      have hshown : shownAfter shown [] = shown := by simp [shownAfter]
      have hstart : after d p shown [] = start d p shown := by
        rw [after]
        simp
      simp only [List.length_nil, Nat.le_zero, forall_eq, List.take_nil, hshown, hstart, start_eq,
        Except.map_eq_ok_iff]
      exact ⟨fun ⟨_, r, hr, _⟩ => ⟨r, hr⟩, fun ⟨r, hr⟩ => ⟨_, r, hr, rfl⟩⟩
  | append_singleton ops op ih =>
      have hfront : ∀ n ≤ ops.length, (ops ++ [op]).take n = ops.take n := fun n hn =>
        List.take_append_of_le_length hn
      have hall : (ops ++ [op]).take (ops.length + 1) = ops ++ [op] :=
        List.take_of_length_le (by simp)
      simp only [after_append, Except.bind_eq_ok_iff]
      constructor
      · rintro ⟨y, x, hx, hy⟩ n hn
        rw [List.length_append, List.length_singleton] at hn
        rcases Nat.le_succ_iff.mp hn with hn | rfl
        · rw [hfront n hn]
          exact ih.mp ⟨x, hx⟩ n hn
        · rw [hall]
          exact ((follows_of_after hx).exists_perform_iff op).mp ⟨y, hy⟩
      · intro h
        have hlen : (ops ++ [op]).length = ops.length + 1 := by simp
        obtain ⟨x, hx⟩ := ih.mpr fun n hn => hfront n hn ▸ h n (by omega)
        obtain ⟨y, hy⟩ := ((follows_of_after hx).exists_perform_iff op).mpr
          (hall ▸ h (ops.length + 1) (by omega))
        exact ⟨y, x, hx, hy⟩

/-- The match that has the focus is the one that was answered when the focus was last moved on,
and there is none if that was not done since the focus was taken away. -/
lemma focused?_eq {ops : List Operation} {x : Navigator} (h : after d p shown ops = .ok x) :
    x.focused? = (lastMove? ops).bind fun i =>
      (after d p shown (ops.take (i + 1))).toOption.bind focused? := by
  induction ops using List.reverseRecOn generalizing x with
  | nil =>
      have hcount : moveCount [] = 0 := rfl
      have hfocus := (follows_of_after h).focus
      rw [hcount, focusAfter, if_pos (.inr rfl)] at hfocus
      rw [focused?, hfocus]
      rfl
  | append_singleton ops op ih =>
      have hx := h
      rw [after_append, Except.bind_eq_ok_iff] at hx
      obtain ⟨y, hy, hx⟩ := hx
      rw [lastMove?_append]
      split
      · rw [Option.bind_some, List.take_of_length_le (by simp), h]
        rfl
      · next hmoves =>
          split
          · next hreset =>
              -- the focus was taken away by an operation that does not move it on
              have hcount := moveCount_append ops op
              rw [if_pos hreset, if_neg hmoves] at hcount
              have hfocus := (follows_of_after h).focus
              rw [hcount, focusAfter, if_pos (.inr rfl)] at hfocus
              rw [focused?, hfocus]
              rfl
          · next hreset =>
              obtain rfl : op = .toggleLineNumbers := by
                cases op <;> simp_all [Operation.movesFocus, Operation.resets]
              have hkeep : x.focused? = y.focused? := by
                have hy' := follows_of_after hy
                have hx' := hy'.toggleLineNumbers hx
                have hmatched : x.matched = y.matched :=
                  (Printer.snd_of_renderQuery hx'.rendered).trans
                    (by rw [pathAfter_append]; exact (Printer.snd_of_renderQuery hy'.rendered).symm)
                have hcount : moveCount (ops ++ [.toggleLineNumbers]) = moveCount ops :=
                  moveCount_append _ _
                rw [focused?, focused?, hx'.focus, hy'.focus, hmatched, hcount]
              rw [hkeep, ih hy]
              cases hlast : lastMove? ops with
              | none => rfl
              | some i =>
                  have hi : i < ops.length := lt_of_lastPlace? hlast
                  rw [Option.bind_some, Option.bind_some, List.take_append_of_le_length hi]

end Runs

/-- The focus is at a match. -/
lemma lt_of_focusAfter {count n i : Nat} (h : focusAfter count n = some i) : i < count := by
  rw [focusAfter] at h
  split at h
  · cases h
  · next hcount =>
      cases h
      exact Nat.mod_lt _ (Nat.pos_of_ne_zero fun hzero => hcount (.inl hzero))

end Navigator

/-- A printer of functions renders every indexed stream. -/
lemma Printer.exists_render_ofFunctions {s : Stream} (hs : s.IsIndexed) (m : Matches)
    (f g : Category → String → String) (gutter : String → String) (separator : String)
    (lineNumbers : Bool) :
    ∃ r, (Printer.ofFunctions f g gutter separator).render s m lineNumbers = .ok r := by
  obtain ⟨-, marked, hmarked, -, -⟩ := Stream.exists_cuts hs m s.tokens.toList fun _ ht => ht
  have hlines : (Printer.ofFunctions f g gutter separator).writeLine =
      fun l => pure (String.join (l.map (Piece.emit f g))) :=
    funext (writeLine_ofFunctions f g gutter separator)
  rw [render]
  split
  · exact ⟨_, rfl⟩
  · rw [Stream.layout, hmarked]
    dsimp only
    rw [write, hlines, List.mapM_pure]
    exact ⟨_, rfl⟩

/-! ### The state after any operations -/

namespace Navigator

/-- The state reflects what was done. The query is that of the operation that last took the focus
away, the matches and the content are those of the query, with line numbers if they were shown at
the beginning and toggled an even number of times or the other way round. The focus is found by
counting how often it was moved on since then, and is at a match; this is the match that was
answered when it was last moved on. -/
structure Reflects (d : Parsed) (p : Printer) (shown : Bool) (ops : List Operation)
    (x : Navigator) : Prop where
  current_eq : x.path = pathAfter ops
  path_eq : x.path = ((lastReset? ops).bind fun i => ops[i]?.bind Operation.path?).getD ""
  matched_eq : x.matched = (d.documents.query x.path).nodes
  lineNumbers_eq : x.lineNumbers = (shown ^^ decide (ops.count .toggleLineNumbers % 2 = 1))
  content_eq : (p.render d.tokens (d.documents.query x.path) x.lineNumbers).map Prod.fst =
    .ok x.content
  focus_eq : x.focus = focusAfter x.matched.length (moveCount ops)
  focus_lt : ∀ i, x.focus = some i → i < x.matched.length
  focused_eq : x.focused? = (lastMove? ops).bind fun i =>
    (after d p shown (ops.take (i + 1))).toOption.bind focused?

end Navigator

open Navigator in
/-- **The state after any operations.** Of every accepted text, with every printer, operations lead
to a state unless the document cannot be rendered after one of them, and the state reflects what
was done. A printer of functions can always render it. -/
theorem navigator_reflects {source : String} {d : Parsed} (hd : parse source = .ok d)
    (shown : Bool) (ops : List Operation) :
    (∀ p : Printer,
      ((∃ x, after d p shown ops = .ok x) ↔ ∀ n ≤ ops.length, ∃ r, p.render d.tokens
        (d.documents.query (pathAfter (ops.take n))) (shownAfter shown (ops.take n)) = .ok r) ∧
      ∀ x, after d p shown ops = .ok x → Reflects d p shown ops x) ∧
    ∀ f g gutter separator, ∃ x,
      after d (Printer.ofFunctions f g gutter separator) shown ops = .ok x := by
  refine ⟨fun p => ⟨exists_after_iff ops, fun x hx => ?_⟩, fun f g gutter separator => ?_⟩
  · have h := follows_of_after hx
    have hrendered := h.rendered
    rw [← h.path, ← h.lineNumbers] at hrendered
    have hmatched := Printer.snd_of_renderQuery hrendered
    rw [if_neg (size_tokens_ne_zero hd)] at hmatched
    refine ⟨h.path, h.path.trans (pathAfter_eq ops), hmatched, h.lineNumbers, ?_, h.focus,
      fun i hi => lt_of_focusAfter (h.focus.symm.trans hi), focused?_eq hx⟩
    rw [Printer.renderQuery] at hrendered
    rw [hrendered]
    rfl
  · exact (exists_after_iff ops).mpr fun n _ =>
      Printer.exists_render_ofFunctions d.isIndexed _ f g gutter separator _

open Navigator in
/-- Two matches are gone through, with line numbers and without, around a query without matches. -/
theorem navigator_reflects_twoMatches :
    ∃ d, parse "a: 1\n---\na: 2\n" = .ok d ∧
      let ops : List Operation := [.confirm "a", .confirm "a", .toggleLineNumbers, .nextMatch,
        .confirm "b", .confirm "a", .nextMatch, .toggleLineNumbers, .toggleLineNumbers, .nextMatch]
      ∃ x, after d (Printer.ofFunctions (fun _ s => s) (fun _ s => "<" ++ s ++ ">") (fun s => s)
          "|") false ops = .ok x ∧
        x.path = "a" ∧ x.lineNumbers = true ∧ x.matched.map Found.number = [3, 8] ∧
        x.focus = some 0 ∧ x.focused?.map Found.number = some 3 := by
  obtain ⟨d, hd, hcheck⟩ := Except.exists_ok_of_any (x := parse "a: 1\n---\na: 2\n")
    (p := fun d => (d.documents.query "a").nodes.map Found.number == [3, 8]) (by decide +kernel)
  rw [beq_iff_eq] at hcheck
  refine ⟨d, hd, ?_⟩
  intro ops
  obtain ⟨hall, hfunctions⟩ := navigator_reflects hd false ops
  obtain ⟨x, hx⟩ := hfunctions (fun _ s => s) (fun _ s => "<" ++ s ++ ">") (fun s => s) "|"
  have h := (hall _).2 x hx
  have hpath : x.path = "a" := h.path_eq.trans (by decide)
  have hnumbers : x.matched.map Found.number = [3, 8] := by rw [h.matched_eq, hpath, hcheck]
  have hlength : x.matched.length = 2 := by simpa using congrArg List.length hnumbers
  have hfocus : x.focus = some 0 := by
    rw [h.focus_eq, hlength]
    decide
  refine ⟨x, hx, hpath, h.lineNumbers_eq.trans (by decide), hnumbers, hfocus, ?_⟩
  rw [focused?, hfocus, Option.bind_some, ← List.getElem?_map, hnumbers]
  rfl

end YamlNavigator
