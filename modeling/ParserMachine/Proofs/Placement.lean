import ParserMachine.Proofs.Reading

/-!
# Where cursors are

A cursor that reading has come to is a place of the input, and its line and column fit that place
(`Cursor.Placed`). The column counts the tokens since the line began, and a line other than the first one
begins behind a line break. Lines are only counted where they are read as such, so a cursor may be on an
earlier line than its place is on, but never on a later one.

Nothing checks this while the machine runs. It is kept by the two ways to read on, `Placed.next` and
`Placed.nextLine`; everything else that moves a cursor puts it back to where it was.
-/

set_option autoImplicit false

namespace ParserMachine

variable {τ : Type} [Token τ] {input : Input τ}

namespace Input

/-- The number of line breaks before a place. -/
def lineBreaksBefore (w : Input τ) (place : Nat) : Nat :=
  (w.tokens.toList.take place).countP Token.isLineBreak

variable {w : Input τ} {i j : Nat}

/-- There are no more line breaks than tokens. -/
theorem lineBreaksBefore_le (w : Input τ) (i : Nat) : w.lineBreaksBefore i ≤ w.size := by
  have counted := (w.tokens.toList.take i).countP_le_length (p := Token.isLineBreak)
  rw [List.length_take, Array.length_toList] at counted
  exact Nat.le_trans counted (Nat.min_le_right _ _)

/-- Further on there are at least as many line breaks. -/
theorem lineBreaksBefore_mono (h : i ≤ j) : w.lineBreaksBefore i ≤ w.lineBreaksBefore j :=
  (List.take_prefix_take_left h).sublist.countP_le

/-- Behind a line break there is one more than before it. -/
theorem lineBreaksBefore_succ {t : τ} (ht : w.tokens[i]? = some t) (hbreak : Token.isLineBreak t = true) :
    w.lineBreaksBefore (i + 1) = w.lineBreaksBefore i + 1 := by
  rw [lineBreaksBefore, List.take_add_one, Array.getElem?_toList, ht, List.countP_append]
  simp [hbreak, lineBreaksBefore]

end Input

namespace Cursor

/-- The number of tokens before the line of the cursor, as its column tells. -/
def lineStart (c : Cursor) : Nat := c.offset.toNat + 1 - c.column.toNat

/-- The cursor is at a place of the input or behind the last one. Its line, counted from 1, begins at the
beginning of the input or behind a line break, and there are line breaks for all lines before it. -/
structure Placed (input : Input τ) (c : Cursor) : Prop where
  offset_le : c.offset.toNat ≤ input.size
  line_pos : 1 ≤ c.line.toNat
  column_pos : 1 ≤ c.column.toNat
  column_le : c.column.toNat ≤ c.offset.toNat + 1
  line_begins : (c.line.toNat = 1 ∧ c.lineStart = 0) ∨ (2 ≤ c.line.toNat ∧ 1 ≤ c.lineStart ∧
    ∃ t, input.tokens[c.lineStart - 1]? = some t ∧ Token.isLineBreak t = true)
  line_le : c.line.toNat - 1 ≤ input.lineBreaksBefore c.lineStart

namespace Placed

variable {c : Cursor}

/-- The cursor at the start is placed in every input. -/
theorem start (input : Input τ) : Cursor.start.Placed input := by
  have zero : Cursor.start.offset.toNat = 0 := rfl
  have one : Cursor.start.line.toNat = 1 := rfl
  have one' : Cursor.start.column.toNat = 1 := rfl
  have begins : Cursor.start.lineStart = 0 := rfl
  constructor
  case offset_le => exact Nat.zero_le _
  case line_begins => exact .inl ⟨one, begins⟩
  all_goals omega

/-- There is a line break for each line but the first one, so the number of a line is a word. -/
theorem line_lt (h : c.Placed input) : c.line.toNat < UInt64.size / 2 + 1 := by
  have few := Nat.le_trans h.line_le (input.lineBreaksBefore_le c.lineStart)
  have size := input.size_lt
  unfold Input.size at few
  omega

/-- Within a line the cursor moves as far as its column does. -/
theorem next (h : c.Placed input) {amount : UInt64} (hamount : c.offset.toNat + amount.toNat ≤ input.size) :
    (c.next amount).Placed input := by
  have size := input.size_lt
  have whole : UInt64.size = 2 ^ 64 := rfl
  have column := h.column_le
  unfold Input.size at hamount
  -- The place stays one of the input, and so no coordinate leaves the range of a word.
  have offset_eq : (c.next amount).offset.toNat = c.offset.toNat + amount.toNat := by
    simp only [Cursor.next, UInt64.toNat_add]
    omega
  have column_eq : (c.next amount).column.toNat = c.column.toNat + amount.toNat := by
    simp only [Cursor.next, UInt64.toNat_add]
    omega
  have begins : (c.next amount).lineStart = c.lineStart := by
    rw [lineStart, lineStart, offset_eq, column_eq]
    omega
  constructor
  case offset_le => rwa [offset_eq]
  case line_pos => exact h.line_pos
  case column_pos => exact column_eq ▸ Nat.le_add_right_of_le h.column_pos
  case column_le =>
    rw [offset_eq, column_eq]
    omega
  case line_begins =>
    rw [begins]
    exact h.line_begins
  case line_le =>
    rw [begins]
    exact h.line_le

/-- Behind a line break a line begins. -/
theorem nextLine (h : c.Placed input) {t : τ} (ht : input.tokens[c.offset.toNat]? = some t)
    (hbreak : Token.isLineBreak t = true) : c.nextLine.Placed input := by
  have size := input.size_lt
  have whole : UInt64.size = 2 ^ 64 := rfl
  have few := h.line_lt
  have one : (1 : UInt64).toNat = 1 := rfl
  have column := h.column_pos
  obtain ⟨hlt, -⟩ := Array.getElem?_eq_some_iff.1 ht
  have offset_eq : c.nextLine.offset.toNat = c.offset.toNat + 1 := by
    simp only [Cursor.nextLine, UInt64.toNat_add, one]
    omega
  have line_eq : c.nextLine.line.toNat = c.line.toNat + 1 := by
    simp only [Cursor.nextLine, UInt64.toNat_add, one]
    omega
  have column_eq : c.nextLine.column.toNat = 1 := rfl
  have begins : c.nextLine.lineStart = c.offset.toNat + 1 := by
    rw [lineStart, offset_eq, column_eq]
    omega
  constructor
  case offset_le =>
    rw [offset_eq]
    exact hlt
  case line_pos => omega
  case column_pos => omega
  case column_le => omega
  case line_begins =>
    rw [begins]
    exact .inr ⟨by have := h.line_pos; omega, by omega, t, ht, hbreak⟩
  case line_le =>
    -- One more line break lies before the line, and no fewer of those that did before.
    have more := Input.lineBreaksBefore_succ ht hbreak
    have sooner : c.lineStart ≤ c.offset.toNat := by
      rw [lineStart]
      omega
    have before := Nat.le_trans h.line_le (Input.lineBreaksBefore_mono sooner)
    rw [begins, more, line_eq]
    omega

end Placed

end Cursor

namespace Reader

variable {r : Reader τ}

/-- A reader goes on by tokens that it has. -/
theorem placed_next (h : r.cursor.Placed r.input) {n : Nat} (hn : n ≤ r.remainingSize) :
    (r.next n).cursor.Placed r.input := by
  have inside := h.offset_le
  refine h.next ?_
  have few : (UInt64.ofNat n).toNat ≤ n := Nat.mod_le n _
  show r.cursor.offset.toNat + (UInt64.ofNat n).toNat ≤ r.input.size
  rw [remainingSize, offset] at hn
  omega

/-- After a line break the cursor is placed on the line that begins behind it. -/
theorem placed_nextLine (h : r.cursor.Placed r.input) {t : τ} (ht : r.peek? = some t)
    (hbreak : Token.isLineBreak t = true) : r.nextLine.cursor.Placed r.input :=
  h.nextLine ht hbreak

omit [Token τ] in
/-- A span of tokens that the reader has lies in its input. -/
theorem stop_span_le (h : r.Inside) {n : Nat} (hn : n ≤ r.remainingSize) :
    (r.span n).stop ≤ r.input.size := by
  have few : (UInt64.ofNat n).toNat ≤ n := Nat.mod_le n _
  unfold Inside at h
  show r.offset + (UInt64.ofNat n).toNat ≤ r.input.size
  rw [remainingSize] at hn
  omega

end Reader

end ParserMachine
