import ParserMachine.Proofs.Stack.Operations

/-!
# Stacks from the top

The machine works at the top of its stack. `Stack.Holds s cells` is `Stack.Represents` with the cells
listed top first, and the theorems here are those of `Proofs.Stack.Operations` in that order: a push
is a `cons`, and what lies below is the tail.
-/

set_option autoImplicit false

namespace ParserMachine.Stack

variable {ω : Type} {s : Stack ω} {c : Cell ω} {cells pool high cut low : List (Cell ω)}

/-- The stack stands for the given cells, top first. -/
def Holds (s : Stack ω) (cells : List (Cell ω)) : Prop := s.Represents cells.reverse

/-- A value that is found at a depth lies in one of the slots. -/
theorem of_atDepth_peekAt? {α : Type} [Inline α] {depth : Nat} {a : α}
    (h : atDepth depth (s.peekAt? depth : Option α) = .ok (some a)) :
    depth < s.count ∧ (s.peekAt? depth : Option α) = some a := by
  have found : (s.peekAt? depth : Option α) = some a := by
    rw [atDepth] at h
    split at h
    · exact Except.ok.inj h
    · cases h
  refine ⟨?_, found⟩
  rw [peekAt?, indexOf?] at found
  split at found
  · assumption
  · cases found

namespace Holds

/-- A stack has as many slots as it stands for cells, from whichever end they are listed. -/
theorem count_eq (h : s.Holds cells) : s.count = cells.length := by
  rw [Represents.count_eq h, List.length_reverse]

/-- A stack is empty just where it stands for no cells. -/
theorem isEmpty_eq (h : s.Holds cells) : s.isEmpty = cells.isEmpty := by
  rw [isEmpty, h.count_eq]
  cases cells <;> simp

/-! ### Pushing -/

/-- A cell that is pushed comes on top, unless the stack overflows. -/
theorem pushCell (h : s.Holds cells) (hc : c.Sized) :
    Fits (s.pushCell c) (·.Holds (c :: cells)) :=
  (Represents.pushCell h hc).mono fun _ ht => by rwa [Holds, List.reverse_cons]

/-- A value that is pushed comes on top, unless the stack overflows. -/
theorem push {α : Type} [Inline α] (h : s.Holds cells) (a : α) :
    Fits (s.push a) (·.Holds (.ofValue a :: cells)) :=
  (Represents.push h a).mono fun _ ht => by rwa [Holds, List.reverse_cons]

/-- An object that is pushed comes on top, unless the stack overflows. -/
theorem pushObject (h : s.Holds cells) (o : ω) :
    Fits (s.pushObject o) (·.Holds (.object o :: cells)) :=
  (Represents.pushObject h o).mono fun _ ht => by rwa [Holds, List.reverse_cons]

/-- A slot of another stack that is pushed comes on top as the cell that it is there, unless the stack
overflows. -/
theorem pushFrom {other : Stack ω} (h : s.Holds cells) (ho : other.Represents pool) {i : Nat}
    (hc : pool[i]? = some c) : Fits (s.pushFrom other i) (·.Holds (c :: cells)) :=
  (Represents.pushFrom h ho hc).mono fun _ ht => by rwa [Holds, List.reverse_cons]

/-! ### Reading -/

/-- A look at a depth finds the value of that cell in the list; no reversing is left to do. -/
theorem peekAt?_eq {α : Type} [Inline α] (h : s.Holds cells) (depth : Nat) :
    (s.peekAt? depth : Option α) = cells[depth]?.bind Cell.value? := by
  rw [Represents.peekAt?_eq h, List.reverse_reverse]

/-- What lies directly beneath the given cells. -/
theorem peekAt?_append {α : Type} [Inline α] (h : s.Holds (high ++ c :: low)) :
    (s.peekAt? high.length : Option α) = c.value? := by
  rw [h.peekAt?_eq, List.getElem?_append_right (Nat.le_refl _), Nat.sub_self]
  rfl

/-- A value in a slot is one that the slot holds, inline or boxed. -/
theorem holds_append {α : Type} [Inline α] [Boxed ω α] {a : α} (h : s.Holds (high ++ c :: low))
    (hc : c.value? = some a) : s.holds α high.length = true := by
  rw [Stack.holds, h.peekAt?_append, hc]
  rfl

/-- So it is asked: no depth at which there is a cell is past what a word can tell. -/
theorem atDepth_peekAt?_append {α : Type} [Inline α] (h : s.Holds (high ++ c :: low)) :
    atDepth high.length (s.peekAt? high.length : Option α) = .ok c.value? := by
  have few := Represents.length_lt h
  rw [List.length_reverse, List.length_append, List.length_cons] at few
  rw [h.peekAt?_append, atDepth, if_pos (by omega)]

/-- A look at the top finds the value of the first cell. -/
theorem peek?_cons {α : Type} [Inline α] (h : s.Holds (c :: cells)) :
    (s.peek? : Option α) = c.value? := by
  rw [peek?, h.peekAt?_eq]
  rfl

/-- A look at the top finds the object of the first cell. -/
theorem peekObject?_cons {α : Type} [Boxed ω α] (h : s.Holds (c :: cells)) :
    (s.peekObject? : Option α) = c.boxed? := by
  rw [Represents.peekObject?_eq h, List.reverse_reverse]
  rfl

/-- The object on top, of whatever type. -/
theorem topObject?_cons (h : s.Holds (c :: cells)) :
    (s.indexOf? 0).bind s.rawObject? = c.object? := by
  rw [Represents.bind_indexOf? h 0 _ _ (Represents.rawObject?_eq h), List.reverse_reverse]
  rfl

/-! ### Popping -/

/-- A pop takes off the first cell; where there is one, it does not fail. -/
theorem pop (h : s.Holds (c :: cells)) : ∃ t, s.pop = .ok t ∧ t.Holds cells :=
  Represents.pop (by rwa [Holds, List.reverse_cons] at h)

/-- There is nothing to pop from an empty stack. -/
theorem pop_nil (h : s.Holds []) : s.pop = .error (.corrupted .popOnEmpty) := Represents.pop_nil h

/-- The top cell is taken as the value that it holds. -/
theorem popValue? {α : Type} [Inline α] {a : α} (h : s.Holds (c :: cells))
    (hc : c.value? = some a) :
    ∃ t, (s.popValue? : Except Fault (Option (α × Stack ω))) = .ok (some (a, t)) ∧
      t.Holds cells := by
  obtain ⟨t, hpop, ht⟩ := h.pop
  refine ⟨t, ?_, ht⟩
  rw [Stack.popValue?, h.peek?_cons, hc]
  simp only [hpop]
  rfl

/-- A cell that does not hold a value of the type is left where it is. -/
theorem popValue?_eq_none {α : Type} [Inline α] (h : s.Holds (c :: cells))
    (hc : (c.value? : Option α) = none) :
    (s.popValue? : Except Fault (Option (α × Stack ω))) = .ok none := by
  rw [Stack.popValue?, h.peek?_cons, hc]

/-- The top cell is taken as the boxed value that it holds. -/
theorem takeObject? {α : Type} [Boxed ω α] {a : α} (h : s.Holds (c :: cells))
    (hc : c.boxed? = some a) :
    ∃ t, (s.takeObject? : Except Fault (Option (α × Stack ω))) = .ok (some (a, t)) ∧
      t.Holds cells := by
  obtain ⟨t, hpop, ht⟩ := h.pop
  refine ⟨t, ?_, ht⟩
  rw [Stack.takeObject?, h.peekObject?_cons, hc]
  simp only [hpop]
  rfl

/-- Several cells are popped. -/
theorem popAll (h : s.Holds (high ++ low)) :
    ∃ t, s.popAll high.length = .ok t ∧ t.Holds low := by
  induction high generalizing s with
  | nil => exact ⟨s, rfl, h⟩
  | cons c high ih =>
    obtain ⟨t, hpop, ht⟩ := h.pop
    obtain ⟨u, hpopAll, hu⟩ := ih ht
    refine ⟨u, ?_, hu⟩
    rw [← hpopAll, Stack.popAll, List.length_cons, popN, hpop]
    rfl

/-- Cells are dropped from under those on top. -/
theorem dropUnder (h : s.Holds (high ++ cut ++ low)) :
    ∃ t, s.dropUnder high.length cut.length = .ok t ∧ t.Holds (high ++ low) := by
  have parts : s.Represents (low.reverse ++ cut.reverse ++ high.reverse) := by
    simpa [Holds, List.reverse_append] using h
  obtain ⟨t, hdrop, ht⟩ := parts.dropUnder
  refine ⟨t, by simpa using hdrop, ?_⟩
  simpa [Holds, List.reverse_append] using ht

/-- Where there are so many cells, they are dropped from under those on top. -/
theorem exists_dropUnder {keep drop : Nat} (h : s.Holds cells) (hcells : keep + drop ≤ cells.length) :
    ∃ t, s.dropUnder keep drop = .ok t ∧ t.Holds (cells.take keep ++ cells.drop (keep + drop)) := by
  have keepSize : (cells.take keep).length = keep := List.length_take_of_le (by omega)
  have dropSize : ((cells.drop keep).take drop).length = drop :=
    List.length_take_of_le (by rw [List.length_drop]; omega)
  have parts : s.Holds (cells.take keep ++ (cells.drop keep).take drop ++ cells.drop (keep + drop)) := by
    rwa [List.append_assoc, ← List.drop_drop, List.take_append_drop, List.take_append_drop]
  have dropped := parts.dropUnder
  rwa [keepSize, dropSize] at dropped

/-- Where there are too few, nothing is dropped, and how it fails is told by their number. -/
theorem dropUnder_eq {keep drop : Nat} (h : s.Holds cells) (hcells : cells.length < keep + drop) :
    s.dropUnder keep drop =
      if drop = 0 then .ok s
      else if UInt64.size ≤ keep + drop then .error .rangeOutside
      else .error (.corrupted .dropPastBottom) := by
  rw [Stack.dropUnder, h.count_eq, if_pos hcells]

end Holds

end ParserMachine.Stack
