/-!
# Growth by doubling

Both growing containers of the library, the double-ended buffer and the value stack, make room by
doubling their capacity until it is enough. `doubled enough c` is that capacity: the first of
`c`, `2 * c`, `4 * c`, … that reaches `enough`.
-/

set_option autoImplicit false

namespace ParserMachine

/-- The first of `capacity`, `2 * capacity`, `4 * capacity`, … that is at least `enough`. A zero
capacity cannot grow and is answered as it is; the containers never ask for that. -/
def doubled (enough capacity : Nat) : Nat :=
  if capacity = 0 ∨ enough ≤ capacity then capacity else doubled enough (2 * capacity)
termination_by enough - capacity
decreasing_by omega

/-- A capacity that is enough already is not doubled. -/
theorem doubled_of_le {enough capacity : Nat} (h : enough ≤ capacity) :
    doubled enough capacity = capacity := by
  rw [doubled, if_pos (Or.inr h)]

/-- Doubling ends with room enough. -/
theorem le_doubled {enough capacity : Nat} (h : 0 < capacity) :
    enough ≤ doubled enough capacity := by
  fun_induction doubled enough capacity with
  | case1 capacity hc => omega
  | case2 capacity hc ih => exact ih (by omega)

/-- The capacity is only ever multiplied by a power of two. -/
theorem doubled_eq_shiftLeft (enough capacity : Nat) :
    ∃ k, doubled enough capacity = capacity <<< k := by
  fun_induction doubled enough capacity with
  | case1 capacity hc => exact ⟨0, by simp⟩
  | case2 capacity hc ih =>
    obtain ⟨k, hk⟩ := ih
    exact ⟨k + 1, by rw [hk, Nat.shiftLeft_succ_inside]⟩

end ParserMachine
