import Mathlib.Data.List.Induction
import ParserMachine.Error.Complaint

/-!
# Complaints told once

`Complaint.pool` adds complaints to others and leaves out those that are told already. If their `==` is
an equivalence, then each is told once if the first ones were (`pairwise_pool`), and as many kinds are
told as there are among both (`contains_pool`). So it does not matter how they are grouped (`pool_assoc`)
or whether the added ones are told once: `pool_pool` is why the complaints of a choice may be pooled before
or after they are joined.
-/

set_option autoImplicit false

namespace ParserMachine.Complaint

variable {ε : Type} [BEq ε] {complaints more : List (Complaint ε)}

/-- Complaints are added from the first on. -/
theorem pool_cons (c : Complaint ε) (complaints more : List (Complaint ε)) :
    pool complaints (c :: more) =
      pool (if complaints.contains c then complaints else complaints ++ [c]) more := rfl

/-- Complaints are added in two parts as they are in one. -/
theorem pool_append (complaints first second : List (Complaint ε)) :
    pool complaints (first ++ second) = pool (pool complaints first) second :=
  List.foldl_append

/-- The last complaint is added if it is not told yet. -/
theorem pool_concat (complaints more : List (Complaint ε)) (c : Complaint ε) :
    pool complaints (more ++ [c]) =
      if (pool complaints more).contains c then pool complaints more
      else pool complaints more ++ [c] :=
  pool_append complaints more [c]

/-- A pool has complaints if there are any to tell. -/
theorem pool_ne_nil (h : complaints ≠ [] ∨ more ≠ []) : pool complaints more ≠ [] := by
  induction more generalizing complaints with
  | nil => exact h.resolve_right (fun h => h rfl)
  | cons c more ih =>
    rw [pool_cons]
    refine ih (.inl ?_)
    split
    · next known =>
      rintro rfl
      cases known
    · exact List.append_ne_nil_of_right_ne_nil _ (List.cons_ne_nil c [])

/-- A complaint is told behind others, or by the last one if it is equal to that. -/
theorem contains_concat (complaints : List (Complaint ε)) (c d : Complaint ε) :
    (complaints ++ [c]).contains d = (complaints.contains d || d == c) := by
  rw [Bool.eq_iff_iff]
  simp [List.contains_iff_exists_mem_beq]

variable [EquivBEq ε]

/-- Adding complaints to such as are told once leaves each told once. -/
theorem pairwise_pool (h : complaints.Pairwise fun a b => (a == b) = false) :
    (pool complaints more).Pairwise fun a b => (a == b) = false := by
  induction more generalizing complaints with
  | nil => exact h
  | cons c more ih =>
    rw [pool_cons]
    split
    · exact ih h
    · next fresh =>
      refine ih (List.pairwise_append.2 ⟨h, List.pairwise_singleton _ _, ?_⟩)
      intro a ha b hb
      rw [List.mem_singleton.1 hb, BEq.comm]
      simp only [List.contains_iff_exists_mem_beq, not_exists, not_and] at fresh
      exact Bool.eq_false_iff.2 (fresh a ha)

/-- A complaint that is told already need not be told again. -/
theorem contains_of_beq {c d : Complaint ε} (hd : complaints.contains c = true)
    (h : (d == c) = true) : complaints.contains d = true := by
  rw [List.contains_iff_exists_mem_beq] at hd ⊢
  obtain ⟨a, ha, hca⟩ := hd
  exact ⟨a, ha, BEq.trans h hca⟩

/-- Complaints are told as the first ones or as the added ones. -/
theorem contains_pool (complaints more : List (Complaint ε)) (d : Complaint ε) :
    (pool complaints more).contains d = (complaints.contains d || more.contains d) := by
  induction more using List.reverseRecOn with
  | nil => exact (Bool.or_false _).symm
  | append_singleton more c ih =>
    rw [pool_concat, contains_concat, ← Bool.or_assoc, ← ih]
    split
    · next known =>
      -- What is like `c` is told already, since `c` is.
      cases hlike : d == c with
      | false => rw [Bool.or_false]
      | true => rw [contains_of_beq known hlike, Bool.true_or]
    · exact contains_concat _ c d

/-- Complaints may be pooled in any grouping. -/
theorem pool_assoc (complaints first second : List (Complaint ε)) :
    pool (pool complaints first) second = pool complaints (pool first second) := by
  induction second using List.reverseRecOn with
  | nil => rfl
  | append_singleton second c ih =>
    by_cases known : (pool first second).contains c = true
    · -- What is told in the added complaints is told in the whole.
      have told : (pool complaints (pool first second)).contains c = true := by
        rw [contains_pool, known, Bool.or_true]
      rw [pool_concat, pool_concat, ih, if_pos told, if_pos known]
    · rw [pool_concat, pool_concat, ih, if_neg known, pool_concat]

/-- The added complaints may be pooled themselves before they are added. -/
theorem pool_pool (complaints more : List (Complaint ε)) :
    pool complaints (pool [] more) = pool complaints more :=
  (pool_assoc complaints [] more).symm

/-- Complaints that are told already add nothing. -/
theorem pool_self (complaints : List (Complaint ε)) : pool complaints complaints = complaints := by
  suffices h : ∀ more, (∀ c ∈ more, complaints.contains c = true) → pool complaints more = complaints by
    exact h complaints fun c hc => List.elem_eq_true_of_mem hc
  intro more known
  induction more with
  | nil => rfl
  | cons c more ih =>
    rw [pool_cons, if_pos (known c List.mem_cons_self)]
    exact ih fun d hd => known d (List.mem_cons_of_mem c hd)

end ParserMachine.Complaint
