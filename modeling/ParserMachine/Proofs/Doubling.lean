import Mathlib.Order.Bounds.Defs
import Mathlib.Tactic.Ring
import ParserMachine.Doubling

/-!
# How far doubling goes

`doubled` is told by a recursion. What a user of it wants to know is that it stops at the first doubling
that is enough: `isLeast_doubled`.
-/

set_option autoImplicit false

namespace ParserMachine

/-- Doubling stops at the first capacity that is enough. -/
theorem isLeast_doubled {enough capacity : Nat} (h : 0 < capacity) :
    IsLeast {m | enough ≤ m ∧ ∃ k, m = capacity * 2 ^ k} (doubled enough capacity) := by
  fun_induction doubled enough capacity with
  | case1 capacity stop =>
    refine ⟨⟨by omega, 0, (Nat.mul_one capacity).symm⟩, ?_⟩
    rintro m ⟨-, k, rfl⟩
    exact Nat.le_mul_of_pos_right capacity (Nat.two_pow_pos k)
  | case2 capacity go ih =>
    obtain ⟨⟨reached, k, hk⟩, least⟩ := ih (by omega)
    refine ⟨⟨reached, k + 1, by rw [hk, Nat.pow_succ]; ring⟩, ?_⟩
    rintro m ⟨hm, j, rfl⟩
    -- The capacity itself is not enough, so there is a factor two to be moved to it.
    cases j with
    | zero => omega
    | succ j => exact least ⟨hm, j, by rw [Nat.pow_succ]; ring⟩

end ParserMachine
