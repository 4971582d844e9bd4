import ParserMachine.Buffer

/-!
# Buffers store lists

`Buffer.Stores b l` says that a buffer stands for a list and that its window lies inside its memory.
Adding a run at the back is appending it (`Stores.extend`), adding one at the front is putting it before
(`Stores.extendFront`), whichever room there was and however the memory was moved to make some.
-/

set_option autoImplicit false

namespace ParserMachine.Buffer

variable {α : Type} [Inhabited α] {b : Buffer α} {l run : List α}

omit [Inhabited α] in
/-- The buffer stands for the list, and its window lies inside its memory. -/
structure Stores (b : Buffer α) (l : List α) : Prop where
  toList_eq : b.toList = l
  size_eq : b.size = l.length
  window : b.start + b.size ≤ b.capacity

/-- Doubling never makes a capacity smaller, also where it was zero and stays so. -/
theorem capacity_le_doubled (enough capacity : Nat) : capacity ≤ doubled enough capacity := by
  obtain ⟨k, hk⟩ := doubled_eq_shiftLeft enough capacity
  rw [hk, Nat.shiftLeft_eq]
  exact Nat.le_mul_of_pos_right _ (Nat.two_pow_pos k)

/-- Adding nothing at the back leaves the buffer as it is, and allocates nothing. -/
theorem extend_nil (b : Buffer α) : b.extend [] = b := rfl

/-- Adding nothing at the front leaves the buffer as it is, and allocates nothing. -/
theorem extendFront_nil (b : Buffer α) : b.extendFront [] = b := rfl

namespace Stores

omit [Inhabited α] in
/-- A new buffer stands for the empty list, though it has no memory yet. -/
theorem new : (Buffer.new : Buffer α).Stores [] := ⟨rfl, rfl, Nat.le_refl _⟩

/-- The first allocation leaves an empty window empty. -/
theorem allocated (h : b.Stores l) (extra : Nat) :
    (b.allocated extra).Stores l ∧ (b.allocated extra).backing.isSome := by
  obtain ⟨backing, start, size, firstCapacity⟩ := b
  obtain ⟨rfl, hsize, hwindow⟩ := h
  cases backing with
  | some memory => exact ⟨⟨rfl, hsize, hwindow⟩, rfl⟩
  | none =>
    have hsize : size = 0 := hsize
    subst hsize
    refine ⟨⟨?_, rfl, ?_⟩, rfl⟩
    · refine List.eq_nil_of_length_eq_zero ?_
      simp only [Buffer.allocated, toList, Memory.region, Array.length_toList, Array.size_extract]
      omega
    · simp only [Buffer.allocated, capacity, Array.size_replicate]
      omega

/-- The window is moved with what it holds. -/
theorem relocated (h : b.Stores l) {capacity start : Nat} (hroom : start + l.length ≤ capacity) :
    (b.relocated capacity start).Stores l := by
  have inside : start + b.toList.length ≤ (Array.replicate capacity (default : α)).size := by
    rwa [h.toList_eq, Array.size_replicate]
  have written := Memory.region_overwrite inside
  refine ⟨?_, h.size_eq, ?_⟩
  · rw [h.toList_eq] at written
    show Memory.region (Memory.overwrite (Array.replicate capacity default) start b.toList) start
      b.size = l
    rw [h.size_eq, h.toList_eq, written]
  · simp only [Buffer.relocated, Buffer.capacity, Memory.size_overwrite, Array.size_replicate,
      h.size_eq]
    exact hroom

/-- Reserving behind the window changes no elements. From then on the buffer has memory, and room for
the run in it. -/
theorem reserveBack (h : b.Stores l) (extra : Nat) :
    (b.reserveBack extra).Stores l ∧ (b.reserveBack extra).backing.isSome ∧
      (b.reserveBack extra).start + l.length + extra ≤ (b.reserveBack extra).capacity := by
  obtain ⟨ha, hsome⟩ := h.allocated extra
  rw [Buffer.reserveBack]
  generalize b.allocated extra = a at ha hsome
  by_cases hroom : a.start + a.size + extra ≤ a.capacity
  · simp only [if_pos hroom]
    exact ⟨ha, hsome, by rw [← ha.size_eq]; exact hroom⟩
  · simp only [if_neg hroom]
    have enough : a.start + a.size + extra ≤
        doubled (a.start + a.size + extra) (max a.capacity 1) := le_doubled (by omega)
    rw [ha.size_eq] at enough ⊢
    refine ⟨ha.relocated (by omega), rfl, ?_⟩
    simpa [Buffer.relocated, Buffer.capacity] using enough

/-- Reserving before the window changes no elements. From then on the buffer has memory, and room for
the run in it. -/
theorem reserveFront (h : b.Stores l) (extra : Nat) :
    (b.reserveFront extra).Stores l ∧ (b.reserveFront extra).backing.isSome ∧
      extra ≤ (b.reserveFront extra).start := by
  obtain ⟨ha, hsome⟩ := h.allocated extra
  rw [Buffer.reserveFront]
  generalize b.allocated extra = a at ha hsome
  by_cases hroom : extra ≤ a.start
  · simp only [if_pos hroom]
    exact ⟨ha, hsome, hroom⟩
  · simp only [if_neg hroom]
    have window := ha.window
    rw [ha.size_eq] at window
    have enough : extra + a.capacity - a.start ≤
        doubled (extra + a.capacity - a.start) (max a.capacity 1) := le_doubled (by omega)
    have larger := capacity_le_doubled (extra + a.capacity - a.start) (max a.capacity 1)
    refine ⟨ha.relocated (by omega), rfl, ?_⟩
    simp only [Buffer.relocated]
    omega

omit [Inhabited α] in
/-- What is written behind the window is made part of it. -/
theorem written_behind (h : b.Stores l) {memory : Array α} (hmemory : b.backing = some memory)
    (hroom : b.start + l.length + run.length ≤ b.capacity) :
    Stores ⟨some (Memory.overwrite memory (b.start + b.size) run), b.start, b.size + run.length,
      b.firstCapacity⟩ (l ++ run) := by
  have own := h.toList_eq
  rw [toList, hmemory] at own
  rw [Buffer.capacity, hmemory] at hroom
  have written := Memory.region_overwrite hroom
  rw [h.size_eq] at own ⊢
  refine ⟨?_, List.length_append.symm, ?_⟩
  · show Memory.region (Memory.overwrite memory (b.start + l.length) run) b.start
      (l.length + run.length) = l ++ run
    rw [Memory.region_append, written, Memory.region_overwrite_of_disjoint (.inl (Nat.le_refl _))]
    exact congrArg (· ++ run) own
  · show b.start + (l.length + run.length) ≤ (Memory.overwrite memory (b.start + l.length) run).size
    rw [Memory.size_overwrite, ← Nat.add_assoc]
    exact hroom

omit [Inhabited α] in
/-- What is written so as to end where the window begins is made part of it. -/
theorem written_before (h : b.Stores l) {memory : Array α} (hmemory : b.backing = some memory)
    (hroom : run.length ≤ b.start) :
    Stores ⟨some (Memory.overwrite memory (b.start - run.length) run), b.start - run.length,
      b.size + run.length, b.firstCapacity⟩ (run ++ l) := by
  have own := h.toList_eq
  have window := h.window
  rw [toList, hmemory] at own
  rw [Buffer.capacity, hmemory] at window
  have next : b.start - run.length + run.length = b.start := Nat.sub_add_cancel hroom
  have inside : b.start - run.length + run.length ≤ memory.size := by
    rw [next]
    exact Nat.le_trans (Nat.le_add_right _ _) window
  have written := Memory.region_overwrite inside
  refine ⟨?_, ?_, ?_⟩
  · show Memory.region (Memory.overwrite memory (b.start - run.length) run) (b.start - run.length)
      (b.size + run.length) = run ++ l
    rw [Nat.add_comm b.size, Memory.region_append, written, next,
      Memory.region_overwrite_of_disjoint (.inr (Nat.le_of_eq next))]
    exact congrArg (run ++ ·) own
  · show b.size + run.length = (run ++ l).length
    rw [h.size_eq, List.length_append, Nat.add_comm]
  · show b.start - run.length + (b.size + run.length) ≤
      (Memory.overwrite memory (b.start - run.length) run).size
    rw [Memory.size_overwrite, Nat.add_comm b.size, ← Nat.add_assoc, next]
    exact window

/-- A run is written behind the window, in the memory that there is once room has been made. -/
theorem extend_of_ne_nil (h : b.Stores l) (hrun : run ≠ []) :
    let r := b.reserveBack run.length
    ∃ memory, r.backing = some memory ∧
      b.extend run = ⟨some (Memory.overwrite memory (r.start + r.size) run), r.start,
        r.size + run.length, r.firstCapacity⟩ := by
  obtain ⟨-, hsome, -⟩ := h.reserveBack run.length
  obtain ⟨memory, hmemory⟩ := Option.isSome_iff_exists.1 hsome
  refine ⟨memory, hmemory, ?_⟩
  rw [Buffer.extend, if_neg (by simpa using hrun)]
  -- Only what `reserveBack` leaves matters from here on, not whether it moved anything.
  generalize b.reserveBack run.length = r at hmemory
  obtain ⟨backing, start, size, firstCapacity⟩ := r
  cases hmemory
  rfl

/-- A run is written before the window, so as to end where the window begins. -/
theorem extendFront_of_ne_nil (h : b.Stores l) (hrun : run ≠ []) :
    let r := b.reserveFront run.length
    ∃ memory, r.backing = some memory ∧
      b.extendFront run = ⟨some (Memory.overwrite memory (r.start - run.length) run),
        r.start - run.length, r.size + run.length, r.firstCapacity⟩ := by
  obtain ⟨-, hsome, -⟩ := h.reserveFront run.length
  obtain ⟨memory, hmemory⟩ := Option.isSome_iff_exists.1 hsome
  refine ⟨memory, hmemory, ?_⟩
  rw [Buffer.extendFront, if_neg (by simpa using hrun)]
  generalize b.reserveFront run.length = r at hmemory
  obtain ⟨backing, start, size, firstCapacity⟩ := r
  cases hmemory
  rfl

/-- A run is added at the back. -/
theorem extend (h : b.Stores l) (run : List α) : (b.extend run).Stores (l ++ run) := by
  by_cases hrun : run = []
  · subst hrun
    rwa [extend_nil, List.append_nil]
  · obtain ⟨memory, hmemory, eq⟩ := h.extend_of_ne_nil hrun
    obtain ⟨hr, -, hroom⟩ := h.reserveBack run.length
    rw [eq]
    exact hr.written_behind hmemory hroom

/-- A run is added at the front. -/
theorem extendFront (h : b.Stores l) (run : List α) : (b.extendFront run).Stores (run ++ l) := by
  by_cases hrun : run = []
  · subst hrun
    rwa [extendFront_nil, List.nil_append]
  · obtain ⟨memory, hmemory, eq⟩ := h.extendFront_of_ne_nil hrun
    obtain ⟨hr, -, hroom⟩ := h.reserveFront run.length
    rw [eq]
    exact hr.written_before hmemory hroom

/-- A buffer that is made of a list stands for it. -/
theorem ofList (l : List α) : (Buffer.ofList l).Stores l := Stores.new.extend l

end Stores

end ParserMachine.Buffer
