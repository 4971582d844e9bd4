import ParserMachine.Proofs.Stack.Holds

/-!
# What all cells of a stack have in common

`Stack.Each P s` says that every cell of a stack has the property `P`. The operations on stacks keep that
up: what they take off is gone, what they leave was there before, and only what they push is new. Nothing
is said of how many cells there are, so these are the theorems for an operation that finds the stack in
whatever order.
-/

set_option autoImplicit false

namespace ParserMachine.Stack

variable {ω : Type} {P Q : Cell ω → Prop} {s other : Stack ω}

/-- Every cell of the stack has the property. -/
def Each (P : Cell ω → Prop) (s : Stack ω) : Prop :=
  ∃ cells, s.Holds cells ∧ ∀ c ∈ cells, P c

/-- What all cells of a stack have, each has. -/
theorem Holds.each {cells : List (Cell ω)} (h : s.Holds cells) (hP : ∀ c ∈ cells, P c) : s.Each P :=
  ⟨cells, h, hP⟩

namespace Each

/-! ### Pushing -/

/-- A pushed value keeps the property of all cells if its own cell has it. Of a push that fails nothing
is said. -/
theorem push {α : Type} [Inline α] (h : s.Each P) {a : α} (ha : P (.ofValue a)) :
    Ensures (s.push a) (·.Each P) := by
  obtain ⟨cells, hs, hP⟩ := h
  refine ((hs.push a).weaken fun _ _ => trivial).mono ?_
  intro t ht
  exact ht.each (List.forall_mem_cons.2 ⟨ha, hP⟩)

/-- A pushed object keeps the property of all cells if its own cell has it. -/
theorem pushObject (h : s.Each P) {o : ω} (ho : P (.object o)) :
    Ensures (s.pushObject o) (·.Each P) := by
  obtain ⟨cells, hs, hP⟩ := h
  refine ((hs.pushObject o).weaken fun _ _ => trivial).mono ?_
  intro t ht
  exact ht.each (List.forall_mem_cons.2 ⟨ho, hP⟩)

/-- The object that was pushed is found on top. -/
theorem peekObject?_pushObject {α : Type} [Boxed ω α] (h : s.Each P) (o : ω) :
    Ensures (s.pushObject o) fun t => (t.peekObject? : Option α) = Boxed.unbox o := by
  obtain ⟨cells, hs, -⟩ := h
  refine ((hs.pushObject o).weaken fun _ _ => trivial).mono ?_
  intro t ht
  exact ht.peekObject?_cons

/-- Cells that are appended keep the property of all cells if they have it themselves. -/
theorem append (h : s.Each P) (hother : other.Each P) : Ensures (s.append other) (·.Each P) := by
  obtain ⟨cells, hs, hP⟩ := h
  obtain ⟨pool, hpool, hP'⟩ := hother
  refine ((Represents.append hs hpool).weaken fun _ _ => trivial).mono ?_
  intro t ht
  have parts : t.Holds (pool ++ cells) := by rwa [Holds, List.reverse_append]
  refine parts.each ?_
  intro c hc
  exact (List.mem_append.1 hc).elim (hP' c) (hP c)

/-- A cell that is taken from another stack may come with another property, as long as that is the
stronger one. -/
theorem pushFrom (h : s.Each P) (hother : other.Each Q) (himp : ∀ c, Q c → P c) (i : Nat) :
    Ensures (s.pushFrom other i) (·.Each P) := by
  obtain ⟨cells, hs, hP⟩ := h
  obtain ⟨pool, hpool, hQ⟩ := hother
  cases hc : pool.reverse[i]? with
  | none =>
    rw [pushFrom_eq_error hpool (List.getElem?_eq_none_iff.1 hc)]
    trivial
  | some c =>
    have named : Q c := hQ c (List.mem_reverse.1 (List.mem_of_getElem? hc))
    refine ((hs.pushFrom hpool hc).weaken fun _ _ => trivial).mono ?_
    intro t ht
    exact ht.each (List.forall_mem_cons.2 ⟨himp c named, hP⟩)

/-! ### Reading -/

/-- An inline value that is read is that of one of the cells. -/
theorem of_peekAt? {α : Type} [Inline α] (h : s.Each P) {depth : Nat} {a : α}
    (ha : s.peekAt? depth = some a) : ∃ c, P c ∧ c.value? = some a := by
  obtain ⟨cells, hs, hP⟩ := h
  rw [hs.peekAt?_eq] at ha
  obtain ⟨c, hc, hvalue⟩ := Option.bind_eq_some_iff.1 ha
  exact ⟨c, hP c (List.mem_of_getElem? hc), hvalue⟩

/-! ### Popping -/

/-- What is left after a pop has the property still. -/
theorem pop (h : s.Each P) : Ensures s.pop (·.Each P) := by
  obtain ⟨cells, hs, hP⟩ := h
  cases cells with
  | nil =>
    rw [hs.pop_nil]
    trivial
  | cons c cells =>
    obtain ⟨t, hpop, ht⟩ := hs.pop
    exact .of_eq hpop (ht.each (List.forall_mem_cons.1 hP).2)

/-- What is left after several pops has the property still. -/
theorem popAll (h : s.Each P) (n : Nat) : Ensures (s.popAll n) (·.Each P) := by
  induction n generalizing s with
  | zero => exact h
  | succ n ih =>
    rw [Stack.popAll, popN]
    cases hpop : s.pop with
    | error fault => trivial
    | ok t => exact ih (h.pop.post_of_eq_ok hpop)

/-- A value that is popped comes from a cell with the property, and the others keep it. -/
theorem popValue? {α : Type} [Inline α] (h : s.Each P) :
    Ensures (s.popValue? : Except Fault (Option (α × Stack ω))) fun r =>
      ∀ a t, r = some (a, t) → t.Each P ∧ ∃ c, P c ∧ c.value? = some a := by
  rw [Stack.popValue?]
  cases hpeek : (s.peek? : Option α) with
  | none =>
    intro a t htaken
    cases htaken
  | some a =>
    refine h.pop.bind ?_
    rintro t ht a t' ⟨⟩
    exact ⟨ht, h.of_peekAt? hpeek⟩

/-- An object that is taken is the one that lay on top, and the other cells keep the property. -/
theorem takeObject? {α : Type} [Boxed ω α] (h : s.Each P) :
    Ensures (s.takeObject? : Except Fault (Option (α × Stack ω))) fun r =>
      ∀ a t, r = some (a, t) → t.Each P ∧ s.peekObject? = some a := by
  rw [Stack.takeObject?]
  cases hpeek : (s.peekObject? : Option α) with
  | none =>
    intro a t htaken
    cases htaken
  | some a =>
    refine h.pop.bind ?_
    rintro t ht a t' ⟨⟩
    exact ⟨ht, rfl⟩

/-- Which cells are dropped makes no difference. -/
theorem dropUnder (h : s.Each P) (keep drop : Nat) : Ensures (s.dropUnder keep drop) (·.Each P) := by
  obtain ⟨cells, hs, hP⟩ := h
  by_cases enough : keep + drop ≤ cells.length
  · obtain ⟨t, hdrop, ht⟩ := hs.exists_dropUnder enough
    refine .of_eq hdrop (ht.each ?_)
    intro c hc
    rcases List.mem_append.1 hc with hc | hc
    · exact hP c (List.mem_of_mem_take hc)
    · exact hP c (List.mem_of_mem_drop hc)
  · rw [hs.dropUnder_eq (Nat.lt_of_not_le enough)]
    split
    · exact hs.each hP
    · split <;> trivial

end Each

end ParserMachine.Stack
