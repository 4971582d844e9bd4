import ParserMachine.Proofs.Stack.Holds
import ParserMachine.Proofs.Stack.Room
import ParserMachine.Proofs.Tracks

/-!
# Two stacks side by side

Runs of the machine are compared stack by stack. A `Likeness` says in which way two stacks may differ
that stand for the same cells: a relation that pushing, popping and dropping keep. `Likeness.Rel` is
then that two stacks are alike, and the theorems about it say that every operation does the same to
both, and every question has the same answer.

There are two likenesses:

* `Likeness.same`: the stacks are one stack.
* `Likeness.roomier`: the second may grow at least as far as the first. Their memory may differ in size,
  in what its unused bytes hold, and in whether it was lent; only where the first stack overflows is
  nothing said of the second.
-/

set_option autoImplicit false

namespace ParserMachine.Stack

variable {ω : Type}

/-- A way in which two stacks of the same cells may differ, and go on to differ. Where a push to the first
one fails in a way that is excused, the second may take it. -/
structure Likeness (ω : Type) where
  close : Stack ω → Stack ω → Prop
  excused : Fault → Prop
  pushCell : ∀ {s t : Stack ω} {cells : List (Cell ω)} {c : Cell ω}, s.Holds cells → t.Holds cells →
    close s t → c.Sized → Tracks excused close (s.pushCell c) (t.pushCell c)
  pop : ∀ {s t s' t' : Stack ω}, close s t → s.pop = .ok s' → t.pop = .ok t' → close s' t'
  dropUnder : ∀ {s t s' t' : Stack ω} {keep drop : Nat}, close s t →
    s.dropUnder keep drop = .ok s' → t.dropUnder keep drop = .ok t' → close s' t'

namespace Likeness

variable {K : Likeness ω} {s t pool pool' : Stack ω} {cells : List (Cell ω)} {c : Cell ω}

/-- The stacks stand for the given cells, top first, and are close. -/
structure Alike (K : Likeness ω) (cells : List (Cell ω)) (s t : Stack ω) : Prop where
  left : s.Holds cells
  right : t.Holds cells
  close : K.close s t

/-- The stacks stand for the same cells and are close. -/
def Rel (K : Likeness ω) (s t : Stack ω) : Prop := ∃ cells, K.Alike cells s t

/-- Stacks that are alike and stand for given cells are related. -/
theorem Alike.rel (h : K.Alike cells s t) : K.Rel s t := ⟨cells, h⟩

/-! ### Pushing -/

/-- A cell that is pushed on both comes on top of both, and they stay alike. A failure of the first push
may be excused; otherwise both fail alike. -/
theorem Alike.pushCell (h : K.Alike cells s t) (hc : c.Sized) :
    Tracks K.excused (K.Alike (c :: cells)) (s.pushCell c) (t.pushCell c) := by
  -- Each stack stands for the cells whatever the other does; the likeness keeps them close.
  have close := K.pushCell h.left h.right h.close hc
  have left := h.left.pushCell hc
  have right := h.right.pushCell hc
  cases hs : s.pushCell c with
  | ok s' =>
    obtain ⟨t', ht, hclose⟩ := close.of_eq_ok hs
    rw [ht]
    exact .ok ⟨left.post_of_eq_ok hs, right.post_of_eq_ok ht, hclose⟩
  | error f => exact close.of_eq_error hs

/-- An object that is pushed on both comes on top of both. -/
theorem Alike.pushObject (h : K.Alike cells s t) (o : ω) :
    Tracks K.excused (K.Alike (.object o :: cells)) (s.pushObject o) (t.pushObject o) := by
  rw [pushObject_eq, pushObject_eq]
  exact h.pushCell (Cell.sized_object o)

namespace Rel

/-- Stacks stay related where a cell is pushed on both. -/
theorem pushCell (h : K.Rel s t) (hc : c.Sized) :
    Tracks K.excused K.Rel (s.pushCell c) (t.pushCell c) := by
  obtain ⟨cells, h⟩ := h
  exact (h.pushCell hc).mono fun _ _ h => h.rel

/-- Stacks stay related where a value is pushed on both. -/
theorem push {α : Type} [Inline α] (h : K.Rel s t) (a : α) :
    Tracks K.excused K.Rel (s.push a) (t.push a) := by
  rw [push_eq, push_eq]
  exact h.pushCell (Cell.sized_ofValue a)

/-- Stacks stay related where an object is pushed on both. -/
theorem pushObject (h : K.Rel s t) (o : ω) :
    Tracks K.excused K.Rel (s.pushObject o) (t.pushObject o) := by
  rw [pushObject_eq, pushObject_eq]
  exact h.pushCell (Cell.sized_object o)

/-- Slots of two other stacks are pushed alike if they stand for the same cell. -/
theorem pushFrom (h : K.Rel s t) {i j : Nat} (hi : pool.HasAt i c) (hj : pool'.HasAt j c) :
    Tracks K.excused K.Rel (s.pushFrom pool i) (t.pushFrom pool' j) := by
  rw [hi.pushFrom_eq, hj.pushFrom_eq]
  exact h.pushCell hi.sized

/-! ### Reading -/

/-- Related stacks have as many slots. -/
theorem count_eq (h : K.Rel s t) : t.count = s.count := by
  obtain ⟨cells, h⟩ := h
  rw [h.left.count_eq, h.right.count_eq]

/-- Related stacks are empty together. -/
theorem isEmpty_eq (h : K.Rel s t) : t.isEmpty = s.isEmpty := by
  rw [isEmpty, isEmpty, h.count_eq]

/-- A look at any depth finds the same value in both. -/
theorem peekAt?_eq {α : Type} [Inline α] (h : K.Rel s t) (depth : Nat) :
    (t.peekAt? depth : Option α) = s.peekAt? depth := by
  obtain ⟨cells, h⟩ := h
  rw [h.left.peekAt?_eq, h.right.peekAt?_eq]

/-- A look at the top finds the same value in both. -/
theorem peek?_eq {α : Type} [Inline α] (h : K.Rel s t) : (t.peek? : Option α) = s.peek? :=
  h.peekAt?_eq 0

/-- Whether a slot holds a value of a type, inline or boxed. -/
theorem holds_eq (α : Type) [Inline α] [Boxed ω α] (h : K.Rel s t) (depth : Nat) :
    t.holds α depth = s.holds α depth := by
  have inline := h.peekAt?_eq (α := α) depth
  obtain ⟨cells, h⟩ := h
  rw [holds, holds, inline, Represents.bind_indexOf? h.left depth _ _ (Represents.object?_eq h.left),
    Represents.bind_indexOf? h.right depth _ _ (Represents.object?_eq h.right)]

/-- The object on top, of whatever type. -/
theorem topObject?_eq (h : K.Rel s t) :
    (t.indexOf? 0).bind t.rawObject? = (s.indexOf? 0).bind s.rawObject? := by
  obtain ⟨cells, h⟩ := h
  rw [Represents.bind_indexOf? h.left 0 _ _ (Represents.rawObject?_eq h.left),
    Represents.bind_indexOf? h.right 0 _ _ (Represents.rawObject?_eq h.right)]

/-- A look at the top finds the same object in both. -/
theorem peekObject?_eq {α : Type} [Boxed ω α] (h : K.Rel s t) :
    (t.peekObject? : Option α) = s.peekObject? := by
  obtain ⟨cells, h⟩ := h
  rw [Represents.peekObject?_eq h.left, Represents.peekObject?_eq h.right]

/-! ### Popping -/

/-- Stacks stay related where both are popped, and both are empty or neither is. -/
theorem pop (h : K.Rel s t) : Tracks K.excused K.Rel s.pop t.pop := by
  obtain ⟨cells, h⟩ := h
  cases cells with
  | nil =>
    rw [h.left.pop_nil, h.right.pop_nil]
    exact .failed _
  | cons c cells =>
    obtain ⟨s', hs, left⟩ := h.left.pop
    obtain ⟨t', ht, right⟩ := h.right.pop
    rw [hs, ht]
    exact .ok ⟨cells, left, right, K.pop h.close hs ht⟩

/-- Stacks stay related where several slots of both are popped. -/
theorem popAll (h : K.Rel s t) (n : Nat) : Tracks K.excused K.Rel (s.popAll n) (t.popAll n) := by
  induction n generalizing s t with
  | zero => exact .ok h
  | succ n ih =>
    -- The count is the recursion's own, so one cell is popped first and the others from what is left.
    have next (s : Stack ω) : s.popAll (n + 1) = s.pop >>= (·.popAll n) := by
      rw [Stack.popAll, popN]
      cases s.pop <;> rfl
    rw [next, next]
    exact h.pop.bind fun s t h => ih h

/-- A value is popped off both or off neither, and it is the same. -/
theorem popValue? {α : Type} [Inline α] (h : K.Rel s t) :
    Tracks K.excused (Option.Rel (Paired K.Rel))
      (s.popValue? : Except Fault (Option (α × Stack ω))) t.popValue? := by
  rw [Stack.popValue?, Stack.popValue?, h.peek?_eq]
  cases (s.peek? : Option α) with
  | none => exact .ok .none
  | some a => exact h.pop.bind fun s t h => .ok (.some ⟨a, h⟩)

/-- An object is taken off both or off neither, and it is the same. -/
theorem takeObject? {α : Type} [Boxed ω α] (h : K.Rel s t) :
    Tracks K.excused (Option.Rel (Paired K.Rel))
      (s.takeObject? : Except Fault (Option (α × Stack ω))) t.takeObject? := by
  rw [Stack.takeObject?, Stack.takeObject?, h.peekObject?_eq]
  cases (s.peekObject? : Option α) with
  | none => exact .ok .none
  | some a => exact h.pop.bind fun s t h => .ok (.some ⟨a, h⟩)

/-- Stacks stay related where slots are dropped from under the same number of others, and it fails on
both in the same way. -/
theorem dropUnder (h : K.Rel s t) (keep drop : Nat) :
    Tracks K.excused K.Rel (s.dropUnder keep drop) (t.dropUnder keep drop) := by
  obtain ⟨cells, h⟩ := h
  by_cases hcells : keep + drop ≤ cells.length
  · obtain ⟨s', hs, left⟩ := h.left.exists_dropUnder hcells
    obtain ⟨t', ht, right⟩ := h.right.exists_dropUnder hcells
    rw [hs, ht]
    exact .ok ⟨_, left, right, K.dropUnder h.close hs ht⟩
  · -- Past the bottom, which fault it is depends on the number of cells alone.
    rw [h.left.dropUnder_eq (by omega), h.right.dropUnder_eq (by omega)]
    exact .ite (fun _ => .ok h.rel) fun _ => .ite (fun _ => .failed _) fun _ => .failed _

end Rel

/-! ### One stack -/

/-- A stack and itself. -/
def same : Likeness ω where
  close := Eq
  excused _ := False
  pushCell := by
    rintro s t cells c - - rfl -
    exact .refl (fun _ => rfl) _
  pop := by
    rintro s t s' t' rfl hs ht
    exact Except.ok.inj (hs.symm.trans ht)
  dropUnder := by
    rintro s t s' t' keep drop rfl hs ht
    exact Except.ok.inj (hs.symm.trans ht)

/-- A stack that stands for some cells is related to itself. -/
theorem same_rel (h : s.Holds cells) : same.Rel s s := ⟨cells, h, h, rfl⟩

/-- Between a stack and itself nothing needs to be excused. -/
theorem not_excused_same (f : Fault) : ¬(same : Likeness ω).excused f := id

/-! ### A stack with more room -/

/-- Where a cell fits onto a stack, it fits onto one of the same cells that may grow at least as far. -/
theorem tracks_pushCell_of_limit_le (left : s.Holds cells) (right : t.Holds cells)
    (hlimit : s.limit ≤ t.limit) (hc : c.Sized) :
    Tracks Fault.IsOverflow (fun s t => s.limit ≤ t.limit) (s.pushCell c) (t.pushCell c) := by
  cases hs : s.pushCell c with
  | error f => exact .excuse ((left.pushCell hc).allowed_of_eq_error hs)
  | ok s' =>
    -- The cells are the same, so the second stack needs as many bytes as the first.
    obtain ⟨room, he⟩ := (Represents.exists_pushCell_iff left).1 ⟨s', hs⟩
    have fits : t.top + t.bottom + (c.payload.length + entrySize) ≤ t.limit := by
      simp only [bottom, Represents.top_eq left, left.count_eq] at room
      simp only [bottom, Represents.top_eq right, right.count_eq]
      omega
    rw [Represents.top_eq left, Represents.objects_size left, ← Represents.top_eq right,
      ← Represents.objects_size right] at he
    obtain ⟨t', ht⟩ := (Represents.exists_pushCell_iff right).2 ⟨fits, he⟩
    rw [ht]
    refine .ok ?_
    rwa [limit_of_pushCell hs, limit_of_pushCell ht]

/-- A pop leaves either stack with its limit, so the second may still grow as far. -/
theorem limit_le_of_pop {s' t' : Stack ω} (hlimit : s.limit ≤ t.limit) (hs : s.pop = .ok s')
    (ht : t.pop = .ok t') : s'.limit ≤ t'.limit := by
  rwa [limit_of_pop hs, limit_of_pop ht]

/-- Dropping slots leaves either stack with its limit, so the second may still grow as far. -/
theorem limit_le_of_dropUnder {s' t' : Stack ω} {keep drop : Nat} (hlimit : s.limit ≤ t.limit)
    (hs : s.dropUnder keep drop = .ok s') (ht : t.dropUnder keep drop = .ok t') :
    s'.limit ≤ t'.limit := by
  rwa [limit_of_dropUnder hs, limit_of_dropUnder ht]

/-- A stack, and one that may grow at least as far. -/
def roomier : Likeness ω where
  close s t := s.limit ≤ t.limit
  excused := Fault.IsOverflow
  pushCell := tracks_pushCell_of_limit_le
  pop := limit_le_of_pop
  dropUnder := limit_le_of_dropUnder

/-- Stacks of the same cells are related if the second may grow at least as far as the first, whatever
their memories are. -/
theorem roomier_rel (hs : s.Holds cells) (ht : t.Holds cells) (hlimit : s.limit ≤ t.limit) :
    roomier.Rel s t :=
  ⟨cells, hs, ht, hlimit⟩

end Likeness

end ParserMachine.Stack
