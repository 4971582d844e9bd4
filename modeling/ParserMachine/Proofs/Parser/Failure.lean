import ParserMachine.Parser.Evaluation
import ParserMachine.Proofs.Items

/-!
# Failures that meet

Of two failures `Failure.merge` keeps the one that is further into the input, and where they are equally
far it keeps what both report, at the place of the second (`Failure.join`). `merge_of_lt`, `merge_of_gt`
and `merge_of_eq` are the three cases. Merging is associative (`merge_assoc`): of any number of failures
the furthest are told, at the place of the last of them.
-/

set_option autoImplicit false

namespace ParserMachine.Failure

variable {S : Signature} {f g : Failure S}

/-- All that two failures report, at the place of the second. -/
def join (f g : Failure S) : Failure S where
  place := g.place
  unexpected := Item.greater? f.unexpected g.unexpected
  expected := f.expected ∪ g.expected
  complaints := f.complaints ++ g.complaints

/-- Of two failures the second is told if it is further. -/
theorem merge_of_lt (h : f.place.offset < g.place.offset) : f.merge g = g := by
  have order : compare g.place.offset f.place.offset = .gt := Std.compare_eq_gt.2 h
  rw [merge, order]

/-- Of two failures the first is told if it is further. -/
theorem merge_of_gt (h : g.place.offset < f.place.offset) : f.merge g = f := by
  have order : compare g.place.offset f.place.offset = .lt := Std.compare_eq_lt.2 h
  rw [merge, order]

/-- Two failures that are equally far are told together. -/
theorem merge_of_eq (h : f.place.offset = g.place.offset) : f.merge g = f.join g := by
  have order : compare g.place.offset f.place.offset = .eq := Std.compare_eq_iff_eq.2 h.symm
  rw [merge, order]
  rfl

/-- What three failures report together does not depend on how they are grouped. -/
theorem join_assoc (f g h : Failure S) : (f.join g).join h = f.join (g.join h) := by
  simp only [join, Item.greater?_assoc, SortedSet.union_assoc, List.append_assoc]

/-- Merging does not go back. -/
theorem offset_le_merge (f g : Failure S) : f.place.offset ≤ (f.merge g).place.offset := by
  rcases Std.lt_trichotomy f.place.offset g.place.offset with h | h | h
  · rw [merge_of_lt h]
    exact UInt64.le_of_lt h
  · rw [merge_of_eq h]
    exact UInt64.le_of_eq h
  · rw [merge_of_gt h]
    exact UInt64.le_refl _

/-- Merging is associative: of three failures the furthest are told, however they are grouped. -/
theorem merge_assoc (f g h : Failure S) : (f.merge g).merge h = f.merge (g.merge h) := by
  rcases Std.lt_trichotomy f.place.offset g.place.offset with first | first | first
  · -- The first is told by neither side.
    rw [merge_of_lt first, merge_of_lt (UInt64.lt_of_lt_of_le first (offset_le_merge g h))]
  · rw [merge_of_eq first]
    rcases Std.lt_trichotomy g.place.offset h.place.offset with second | second | second
    · have joined : (f.join g).place.offset < h.place.offset := second
      rw [merge_of_lt second, merge_of_lt joined, merge_of_lt (first ▸ second)]
    · have joined : (f.join g).place.offset = h.place.offset := second
      have joined' : f.place.offset = (g.join h).place.offset := first.trans second
      rw [merge_of_eq second, merge_of_eq joined, merge_of_eq joined', join_assoc]
    · have joined : h.place.offset < (f.join g).place.offset := second
      rw [merge_of_gt second, merge_of_gt joined, merge_of_eq first]
  · rw [merge_of_gt first]
    rcases Std.lt_trichotomy g.place.offset h.place.offset with second | second | second
    · rw [merge_of_lt second]
    · have joined : (g.join h).place.offset < f.place.offset := second ▸ first
      rw [merge_of_eq second, merge_of_gt joined, merge_of_gt (second ▸ first)]
    · rw [merge_of_gt second, merge_of_gt first, merge_of_gt (UInt64.lt_trans second first)]

end ParserMachine.Failure
