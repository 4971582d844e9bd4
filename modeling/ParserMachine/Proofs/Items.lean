import ParserMachine.Error

/-!
# The greater of items, and the union of sets

Failures that meet keep the greater of their unexpected items and all of their expected ones. The
order in which they meet does not matter, because both operations are commutative and associative:
`Item.greater?_comm`, `Item.greater?_assoc`, and for sets the laws that follow from having the same
members.
-/

set_option autoImplicit false

namespace ParserMachine

namespace Item

variable {τ : Type} [Ord τ] [Std.TransOrd τ] [Std.LawfulEqOrd τ] {a b c : Item τ}

omit [Std.TransOrd τ] [Std.LawfulEqOrd τ] in
/-- Of two items the first is kept where it is greater. -/
theorem greater_of_gt (h : compare a b = .gt) : a.greater b = a := if_pos h

omit [Std.TransOrd τ] [Std.LawfulEqOrd τ] in
/-- Of two items the second is kept where the first is not greater, which includes that they are equal. -/
theorem greater_of_isLE (h : (compare a b).isLE) : a.greater b = b :=
  if_neg (by cases hab : compare a b <;> simp_all)

omit [Std.TransOrd τ] [Std.LawfulEqOrd τ] in
/-- One item is greater than another, or it is not; nothing is left between. -/
theorem gt_or_isLE (a b : Item τ) : compare a b = .gt ∨ (compare a b).isLE := by
  cases compare a b <;> simp

/-- Which of two items is kept does not depend on their order: items that compare as equal are the same. -/
theorem greater_comm (a b : Item τ) : a.greater b = b.greater a := by
  rcases gt_or_isLE a b with h | h
  · rw [greater_of_gt h, greater_of_isLE (Ordering.isLE_of_eq_lt (Std.OrientedCmp.lt_of_gt h))]
  · rcases gt_or_isLE b a with h' | h'
    · rw [greater_of_isLE h, greater_of_gt h']
    · have same : compare a b = .eq := Std.OrientedCmp.isLE_antisymm h h'
      rw [Std.LawfulEqOrd.eq_of_compare same]

omit [Std.LawfulEqOrd τ] in
/-- Which of three items is kept does not depend on which two are compared first. -/
theorem greater_assoc (a b c : Item τ) : (a.greater b).greater c = a.greater (b.greater c) := by
  rcases gt_or_isLE a b with hab | hab <;> rcases gt_or_isLE b c with hbc | hbc
  · rw [greater_of_gt hab, greater_of_gt hbc, greater_of_gt hab,
      greater_of_gt (Std.TransCmp.gt_trans hab hbc)]
  · rw [greater_of_gt hab, greater_of_isLE hbc]
  · rw [greater_of_isLE hab, greater_of_gt hbc, greater_of_isLE hab]
  · rw [greater_of_isLE hab, greater_of_isLE hbc, greater_of_isLE (Std.TransCmp.isLE_trans hab hbc)]

omit [Std.TransOrd τ] [Std.LawfulEqOrd τ] in
/-- Where one item is missing on the left, the other is kept. -/
@[simp] theorem greater?_none_left (x : Option (Item τ)) : greater? none x = x := by
  cases x <;> rfl

omit [Std.TransOrd τ] [Std.LawfulEqOrd τ] in
/-- Where one item is missing on the right, the other is kept. -/
@[simp] theorem greater?_none_right (x : Option (Item τ)) : greater? x none = x := by
  cases x <;> rfl

/-- The order of two items, each of which may be missing, does not matter. -/
theorem greater?_comm (x y : Option (Item τ)) : greater? x y = greater? y x := by
  cases x with
  | none => simp
  | some a =>
    cases y with
    | none => simp
    | some b => exact congrArg some (greater_comm a b)

omit [Std.LawfulEqOrd τ] in
/-- The grouping of three items, each of which may be missing, does not matter. -/
theorem greater?_assoc (x y z : Option (Item τ)) :
    greater? (greater? x y) z = greater? x (greater? y z) := by
  cases x with
  | none => simp
  | some a =>
    cases y with
    | none => simp
    | some b =>
      cases z with
      | none => simp
      | some c => exact congrArg some (greater_assoc a b c)

omit [Std.TransOrd τ] [Std.LawfulEqOrd τ] in
/-- The greater of two is one of them. -/
theorem greater_eq_or (a b : Item τ) : a.greater b = a ∨ a.greater b = b := by
  rw [greater]
  split
  · exact .inl rfl
  · exact .inr rfl

omit [Std.TransOrd τ] [Std.LawfulEqOrd τ] in
/-- The greater of two is one of them, if there is one. -/
theorem greater?_eq_some {x y : Option (Item τ)} (h : greater? x y = some a) :
    x = some a ∨ y = some a := by
  cases x with
  | none => exact .inr (by rwa [greater?_none_left] at h)
  | some b =>
    cases y with
    | none => exact .inl h
    | some c =>
      obtain rfl := Option.some.inj h
      exact (greater_eq_or b c).imp (congrArg some ·.symm) (congrArg some ·.symm)

omit [Std.TransOrd τ] [Std.LawfulEqOrd τ] in
/-- An item is kept if there is one on either side. -/
theorem exists_greater? {x y : Option (Item τ)} (h : (∃ a, x = some a) ∨ ∃ a, y = some a) :
    ∃ a, greater? x y = some a := by
  rcases h with ⟨a, rfl⟩ | ⟨a, rfl⟩
  · cases y with
    | none => exact ⟨a, rfl⟩
    | some b => exact ⟨a.greater b, rfl⟩
  · cases x with
    | none => exact ⟨a, rfl⟩
    | some b => exact ⟨b.greater a, rfl⟩

end Item

namespace SortedSet

variable {α : Type} [Ord α] [Std.TransOrd α] [Std.LawfulEqOrd α] {s t u : SortedSet α} {a : α}

/-- The empty set adds nothing from the left. -/
@[simp] theorem empty_union (s : SortedSet α) : ∅ ∪ s = s := ext fun x => by simp

/-- The empty set adds nothing from the right. -/
@[simp] theorem union_empty (s : SortedSet α) : s ∪ ∅ = s := ext fun x => by simp

/-- An element may be inserted on either side of a union before it is formed. -/
theorem insert_union (s t : SortedSet α) (a : α) : s.insert a ∪ t = s ∪ t.insert a :=
  ext fun x => by rw [mem_union, mem_union, mem_insert, mem_insert, or_assoc, or_left_comm]

/-- An element may be inserted before a union is formed, or after it. -/
theorem insert_union_left (s t : SortedSet α) (a : α) : s.insert a ∪ t = (s ∪ t).insert a :=
  ext fun x => by rw [mem_union, mem_insert, mem_insert, mem_union, or_assoc]

/-- The order of a union does not matter: sets are told by their elements. -/
theorem union_comm (s t : SortedSet α) : s ∪ t = t ∪ s :=
  ext fun x => by rw [mem_union, mem_union, or_comm]

/-- The grouping of a union does not matter. -/
theorem union_assoc (s t u : SortedSet α) : s ∪ t ∪ u = s ∪ (t ∪ u) :=
  ext fun x => by simp only [mem_union, or_assoc]

end SortedSet

end ParserMachine
