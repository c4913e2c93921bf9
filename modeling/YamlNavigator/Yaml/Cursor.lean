/-!
Places in a text and the cursor that moves through it.

* `Mark`: an offset with its line and column, all counted from zero;
* `Cursor`: the text that is still unread, with the mark of its first character;
* `Cursor.next`, `Cursor.forward`: moving over one character, or over several;
* `Cursor.Before`: one cursor is reached from another by moving forward;
* `Cursor.index_le_of_before`, `Cursor.rest_of_before`: moving forward raises the offset by the
  number of characters that it takes from the unread text.
-/

namespace YamlNavigator.Yaml

/-- A place in a text: the number of characters before it, the number of line breaks before it, and
the number of characters since the last of them. -/
structure Mark where
  index : Nat
  line : Nat
  column : Nat
  deriving DecidableEq, Repr, Inhabited

namespace Mark

/-- The beginning of a text. -/
def start : Mark := ⟨0, 0, 0⟩

/-- The mark after the character `c`, which is followed by `after`. A carriage return directly
before a line feed does not end the line by itself, and a byte order mark takes no column. -/
def step (m : Mark) (c : Char) (after : List Char) : Mark :=
  if c = '\n' || c = '\x85' || c = '\u2028' || c = '\u2029' ||
      (c = '\r' && after.head? != some '\n') then
    ⟨m.index + 1, m.line + 1, 0⟩
  else if c = '\ufeff' then ⟨m.index + 1, m.line, m.column⟩
  else ⟨m.index + 1, m.line, m.column + 1⟩

/-- Every character counts one in the offset. -/
@[simp] theorem step_index (m : Mark) (c : Char) (after : List Char) :
    (m.step c after).index = m.index + 1 := by
  rw [step]
  split
  · rfl
  · split <;> rfl

end Mark

/-- The unread part of a text and the mark of its first character. -/
structure Cursor where
  rest : List Char
  mark : Mark
  deriving DecidableEq, Repr

namespace Cursor

/-- The cursor before the first character of a text. -/
def ofText (s : List Char) : Cursor := ⟨s, Mark.start⟩

/-- The unread character `k` places ahead, if the text is that long. -/
def peek (c : Cursor) (k : Nat) : Option Char := c.rest[k]?

/-- The cursor after one more character; at the end of the text it stays. -/
def next (c : Cursor) : Cursor :=
  match c.rest with
  | [] => c
  | ch :: after => ⟨after, c.mark.step ch after⟩

/-- The cursor after `n` more characters. -/
def forward (c : Cursor) : Nat → Cursor
  | 0 => c
  | n + 1 => c.next.forward n

@[simp] theorem forward_zero (c : Cursor) : c.forward 0 = c := rfl

theorem forward_succ (c : Cursor) (n : Nat) : c.forward (n + 1) = c.next.forward n := rfl

/-- Moving over `m + n` characters is moving over `m` and then over `n`. -/
theorem forward_add (c : Cursor) (m n : Nat) : c.forward (m + n) = (c.forward m).forward n := by
  induction m generalizing c with
  | zero => simp
  | succ m ih => rw [Nat.succ_add, forward_succ, forward_succ, ih]

/-- Moving takes characters off the unread text. -/
theorem rest_forward (c : Cursor) (n : Nat) : (c.forward n).rest = c.rest.drop n := by
  induction n generalizing c with
  | zero => simp
  | succ n ih =>
      rw [forward_succ, ih, next]
      split <;> simp_all

/-- Moving raises the offset by the number of characters that were there. -/
theorem index_forward (c : Cursor) (n : Nat) :
    (c.forward n).mark.index = c.mark.index + min n c.rest.length := by
  induction n generalizing c with
  | zero => simp
  | succ n ih =>
      rw [forward_succ, ih, next]
      split
      · next h => simp [h]
      · next ch after h => simp [h]; omega

/-- The relation `c.Before d`: the cursor `d` is reached from `c` by moving forward. -/
def Before (c d : Cursor) : Prop := ∃ n, d = c.forward n

theorem before_refl (c : Cursor) : c.Before c := ⟨0, rfl⟩

theorem before_forward (c : Cursor) (n : Nat) : c.Before (c.forward n) := ⟨n, rfl⟩

theorem Before.trans {c d e : Cursor} (h : c.Before d) (h' : d.Before e) : c.Before e := by
  obtain ⟨m, rfl⟩ := h
  obtain ⟨n, rfl⟩ := h'
  exact ⟨m + n, (forward_add c m n).symm⟩

/-- The offset and the unread text of a later cursor: what the offset gains, the text loses. -/
theorem rest_of_before {c d : Cursor} (h : c.Before d) :
    d.rest = c.rest.drop (d.mark.index - c.mark.index) ∧
      d.mark.index + d.rest.length = c.mark.index + c.rest.length := by
  obtain ⟨n, rfl⟩ := h
  rw [rest_forward, index_forward]
  refine ⟨?_, by simp; omega⟩
  rw [Nat.add_sub_cancel_left]
  by_cases hn : n ≤ c.rest.length
  · rw [Nat.min_eq_left hn]
  · have hle : c.rest.length ≤ n := by omega
    rw [Nat.min_eq_right hle, List.drop_length, List.drop_of_length_le hle]

/-- Moving forward never lowers the offset. -/
theorem index_le_of_before {c d : Cursor} (h : c.Before d) : c.mark.index ≤ d.mark.index := by
  obtain ⟨n, rfl⟩ := h
  rw [index_forward]
  omega

end Cursor

end YamlNavigator.Yaml
