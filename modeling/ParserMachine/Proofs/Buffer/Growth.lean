import Mathlib.Logic.Function.Basic
import ParserMachine.Proofs.Buffer
import ParserMachine.Proofs.Doubling

/-!
# How buffers grow

A buffer that has memory moves to other memory only when a run finds too little room at its side, and then
the capacity is multiplied by a power of two. A buffer without memory allocates some for its first run,
and leaves half of it on either side, which is always enough for the run. `Grows` says both, and
`Sound.grows_extend` and `Sound.grows_extendFront` that it is so for the runs at the two ends.

`Call` is what a caller may do with buffers that have names: make one, in any of the ways that there are, or
add to one. A call can be read for buffers and for lists, and `play` goes through a history in either reading.
-/

set_option autoImplicit false

namespace ParserMachine.Buffer

variable {α ι : Type} {b : Buffer α} {l run : List α}

/-! ### Capacities -/

/-- The buffer stands for the list. If it has memory, then not an empty one, and if it has none, then a first
write allocates as much as where nothing else is asked for. -/
structure Sound (b : Buffer α) (l : List α) : Prop extends Stores b l where
  room : b.backing.isSome → 0 < b.capacity
  first : b.backing = none → b.firstCapacity = defaultCapacity

/-- A run was added at a side with so much room: where there was memory, its capacity is multiplied by a power
of two, and changed only if there was too little room; where there was none, it is itself a power of two, and
large enough. -/
structure Grows (b after : Buffer α) (room extra : Nat) : Prop where
  kept : b.backing.isSome → extra ≤ room → after.capacity = b.capacity
  multiplied : b.backing.isSome → ∃ k, after.capacity = b.capacity * 2 ^ k
  created : b.backing = none → 0 < extra →
    (∃ k, after.capacity = 2 ^ k) ∧ max 32 (2 * extra) ≤ after.capacity

/-- The window and the room on its two sides make up the capacity. -/
theorem frontRoom_add_size_add_backRoom (h : b.Stores l) :
    b.frontRoom + b.size + b.backRoom = b.capacity := by
  have window := h.window
  simp only [frontRoom, backRoom]
  omega

/-- A buffer without memory has no capacity. -/
theorem capacity_eq_zero (h : b.backing = none) : b.capacity = 0 := by
  rw [capacity, h]

/-- Without memory there is no window. -/
theorem Sound.eq_of_none (h : b.Sound l) (hnone : b.backing = none) :
    b = ⟨none, 0, 0, defaultCapacity⟩ := by
  have first := h.first hnone
  have window := h.window
  rw [capacity_eq_zero hnone] at window
  -- The window lies in no room at all, so it is empty and at the beginning.
  obtain ⟨backing, start, size, firstCapacity⟩ := b
  simp only at *
  subst hnone first
  congr <;> omega

/-- The capacity for a first run is a power of two that is large enough, as it is doubled up from one. -/
theorem exists_powerOfTwoAbove (n : Nat) : (∃ k, powerOfTwoAbove n = 2 ^ k) ∧ n ≤ powerOfTwoAbove n := by
  have least : IsLeast {m | n ≤ m ∧ ∃ k, m = 1 * 2 ^ k} (doubled n 1) := isLeast_doubled Nat.one_pos
  obtain ⟨⟨reached, k, hk⟩, -⟩ := least
  exact ⟨⟨k, by rw [powerOfTwoAbove, hk, Nat.one_mul]⟩, reached⟩

/-- Doubling multiplies by a power of two, wherever there is something to double. -/
theorem exists_doubled (enough capacity : Nat) (h : 0 < capacity) :
    ∃ k, doubled enough capacity = capacity * 2 ^ k := (isLeast_doubled h).1.2

/-- The capacity that a first run makes a buffer allocate. -/
def createdCapacity (extra : Nat) : Nat := powerOfTwoAbove (max defaultCapacity (extra * 2))

/-- The capacity for a first run holds twice the run, so that half of it fits on either side. -/
theorem two_mul_le_createdCapacity (extra : Nat) : extra * 2 ≤ createdCapacity extra :=
  Nat.le_trans (Nat.le_max_right _ _) (exists_powerOfTwoAbove _).2

/-- A buffer that nothing was added to has not grown. -/
theorem Grows.refl (b : Buffer α) (room : Nat) : Grows b b room 0 where
  kept _ _ := rfl
  multiplied _ := ⟨0, (Nat.mul_one _).symm⟩
  created _ h := absurd h (Nat.lt_irrefl 0)

/-- The two sides grow alike, but for the capacity that they need. -/
theorem Sound.grows (h : b.Sound l) {after : Buffer α} {room extra : Nat} (needed : Nat)
    (existing : b.backing.isSome →
      after.capacity = if extra ≤ room then b.capacity else doubled needed b.capacity)
    (created : b.backing = none → after.capacity = createdCapacity extra) :
    Grows b after room extra where
  kept hsome fits := by rw [existing hsome, if_pos fits]
  multiplied hsome := by
    rw [existing hsome]
    split
    · exact ⟨0, (Nat.mul_one _).symm⟩
    · exact exists_doubled needed b.capacity (h.room hsome)
  created hnone _ := by
    obtain ⟨power, enough⟩ := exists_powerOfTwoAbove (max defaultCapacity (extra * 2))
    rw [created hnone]
    refine ⟨power, Nat.le_trans ?_ enough⟩
    rw [Nat.mul_comm 2, defaultCapacity]

/-- Memory never shrinks to nothing. -/
theorem Grows.capacity_pos {after : Buffer α} {room extra : Nat} (h : Grows b after room extra)
    (hb : b.Sound l) (hextra : 0 < extra) : 0 < after.capacity := by
  cases hnone : b.backing with
  | none =>
    have enough := (h.created hnone hextra).2
    omega
  | some memory =>
    have hsome : b.backing.isSome := by rw [hnone]; rfl
    obtain ⟨k, hk⟩ := h.multiplied hsome
    rw [hk]
    exact Nat.mul_pos (hb.room hsome) (Nat.two_pow_pos k)

variable [Inhabited α]

/-- Only a buffer without memory allocates; any other is left alone. -/
theorem allocated_of_isSome (h : b.backing.isSome) (extra : Nat) : b.allocated extra = b := by
  obtain ⟨backing, start, size, firstCapacity⟩ := b
  cases backing with
  | none => cases h
  | some memory => rfl

/-- What a first run allocates: its window starts in the middle of zeroed memory. -/
theorem Sound.allocated_of_none (h : b.Sound l) (hnone : b.backing = none) (extra : Nat) :
    b.allocated extra =
      ⟨some (Array.replicate (createdCapacity extra) default), createdCapacity extra / 2, 0,
        defaultCapacity⟩ := by
  rw [h.eq_of_none hnone]
  rfl

/-- A window is moved to memory of exactly the capacity that was asked for. -/
theorem capacity_relocated (b : Buffer α) (capacity start : Nat) :
    (b.relocated capacity start).capacity = capacity := by
  simp only [relocated, Buffer.capacity, Memory.size_overwrite, Array.size_replicate]

/-- Making room comes after memory has been allocated, and takes nothing back. -/
theorem capacity_allocated_le (b : Buffer α) (extra : Nat) :
    (b.allocated extra).capacity ≤ (b.reserveBack extra).capacity ∧
      (b.allocated extra).capacity ≤ (b.reserveFront extra).capacity := by
  have least : (b.allocated extra).capacity ≤ max (b.allocated extra).capacity 1 := Nat.le_max_left _ _
  rw [reserveBack, reserveFront]
  constructor
  · split
    · exact Nat.le_refl _
    · rw [capacity_relocated]
      exact Nat.le_trans least (capacity_le_doubled _ _)
  · split
    · exact Nat.le_refl _
    · rw [capacity_relocated]
      exact Nat.le_trans least (capacity_le_doubled _ _)

/-- A first run finds its room. -/
theorem Sound.reserve_of_none (h : b.Sound l) (hnone : b.backing = none) (extra : Nat) :
    b.reserveBack extra = b.allocated extra ∧ b.reserveFront extra = b.allocated extra := by
  -- Half of what is allocated is on either side, and that half is as long as the run.
  have enough := two_mul_le_createdCapacity extra
  have back : (b.allocated extra).start + (b.allocated extra).size + extra ≤
      (b.allocated extra).capacity := by
    rw [h.allocated_of_none hnone]
    simp only [capacity, Array.size_replicate]
    omega
  have front : extra ≤ (b.allocated extra).start := by
    rw [h.allocated_of_none hnone]
    simp only
    omega
  rw [reserveBack, reserveFront]
  simp only [if_pos back, if_pos front, and_self]

/-- Reserving in a buffer without memory allocates for the run and is done: half of that is room enough
at either side. -/
theorem Sound.capacity_reserve_of_none (h : b.Sound l) (hnone : b.backing = none) (extra : Nat) :
    (b.reserveBack extra).capacity = createdCapacity extra ∧
      (b.reserveFront extra).capacity = createdCapacity extra := by
  obtain ⟨back, front⟩ := h.reserve_of_none hnone extra
  rw [back, front, h.allocated_of_none hnone]
  simp only [capacity, Array.size_replicate, and_self]

/-- Reserving behind the window makes the memory larger only if there is too little room, and then
doubles it until there is enough. -/
theorem Sound.capacity_reserveBack (h : b.Sound l) (hsome : b.backing.isSome) (extra : Nat) :
    (b.reserveBack extra).capacity =
      if extra ≤ b.backRoom then b.capacity else doubled (b.start + b.size + extra) b.capacity := by
  have window := h.window
  have least : max b.capacity 1 = b.capacity := Nat.max_eq_left (h.room hsome)
  rw [reserveBack, allocated_of_isSome hsome, least]
  by_cases fits : extra ≤ b.backRoom
  · have inside : b.start + b.size + extra ≤ b.capacity := by
      simp only [backRoom] at fits
      omega
    rw [if_pos fits]
    simp only [if_pos inside]
  · have outside : ¬b.start + b.size + extra ≤ b.capacity := by
      simp only [backRoom] at fits
      omega
    rw [if_neg fits]
    simp only [if_neg outside, capacity_relocated]

/-- Reserving before the window makes the memory larger only if there is too little room. It is doubled
until what it grows by, which all goes to the front, makes up for what is missing. -/
theorem Sound.capacity_reserveFront (h : b.Sound l) (hsome : b.backing.isSome) (extra : Nat) :
    (b.reserveFront extra).capacity =
      if extra ≤ b.frontRoom then b.capacity
      else doubled (extra + b.capacity - b.start) b.capacity := by
  have least : max b.capacity 1 = b.capacity := Nat.max_eq_left (h.room hsome)
  rw [reserveFront, allocated_of_isSome hsome, least, frontRoom]
  by_cases fits : extra ≤ b.start
  · simp only [if_pos fits]
  · simp only [if_neg fits, capacity_relocated]

/-! ### Adding runs -/

/-- A run that is added changes the capacity as making room for it does. -/
theorem capacity_extend (h : b.Stores l) (hrun : run ≠ []) :
    (b.extend run).capacity = (b.reserveBack run.length).capacity := by
  obtain ⟨memory, hmemory, eq⟩ := h.extend_of_ne_nil hrun
  rw [eq, capacity, capacity, hmemory]
  exact Memory.size_overwrite _ _ _

/-- A run at the front makes the memory as large as reserving for it does; writing it adds nothing. -/
theorem capacity_extendFront (h : b.Stores l) (hrun : run ≠ []) :
    (b.extendFront run).capacity = (b.reserveFront run.length).capacity := by
  obtain ⟨memory, hmemory, eq⟩ := h.extendFront_of_ne_nil hrun
  rw [eq, capacity, capacity, hmemory]
  exact Memory.size_overwrite _ _ _

/-- A run at the back makes the capacity grow as it should. -/
theorem Sound.grows_extend (h : b.Sound l) (run : List α) :
    Grows b (b.extend run) b.backRoom run.length := by
  by_cases hrun : run = []
  · subst hrun
    exact .refl b _
  · have capacity := capacity_extend h.toStores hrun
    refine h.grows (b.start + b.size + run.length) ?_ ?_
    · intro hsome
      rw [capacity, h.capacity_reserveBack hsome]
    · intro hnone
      rw [capacity, (h.capacity_reserve_of_none hnone _).1]

/-- A run at the front makes the capacity grow as it should. -/
theorem Sound.grows_extendFront (h : b.Sound l) (run : List α) :
    Grows b (b.extendFront run) b.frontRoom run.length := by
  by_cases hrun : run = []
  · subst hrun
    exact .refl b _
  · have capacity := capacity_extendFront h.toStores hrun
    refine h.grows (run.length + b.capacity - b.start) ?_ ?_
    · intro hsome
      rw [capacity, h.capacity_reserveFront hsome]
    · intro hnone
      rw [capacity, (h.capacity_reserve_of_none hnone _).2]

/-- A buffer stays sound where a run is added at the back, and stands for the longer list. -/
theorem Sound.extend (h : b.Sound l) (run : List α) : (b.extend run).Sound (l ++ run) := by
  by_cases hrun : run = []
  · subst hrun
    rwa [extend_nil, List.append_nil]
  · obtain ⟨memory, -, eq⟩ := h.toStores.extend_of_ne_nil hrun
    refine ⟨h.toStores.extend run, fun _ => ?_, fun hnone => ?_⟩
    · exact (h.grows_extend run).capacity_pos h (List.length_pos_iff.2 hrun)
    · rw [eq] at hnone
      cases hnone

/-- A buffer stays sound where a run is added at the front, and stands for the longer list. -/
theorem Sound.extendFront (h : b.Sound l) (run : List α) : (b.extendFront run).Sound (run ++ l) := by
  by_cases hrun : run = []
  · subst hrun
    rwa [extendFront_nil, List.nil_append]
  · obtain ⟨memory, -, eq⟩ := h.toStores.extendFront_of_ne_nil hrun
    refine ⟨h.toStores.extendFront run, fun _ => ?_, fun hnone => ?_⟩
    · exact (h.grows_extendFront run).capacity_pos h (List.length_pos_iff.2 hrun)
    · rw [eq] at hnone
      cases hnone

/-! ### Making buffers -/

omit [Inhabited α] in
/-- A new buffer is sound: it has no memory, and allocates the default capacity when it needs some. -/
theorem Sound.new : (Buffer.new : Buffer α).Sound [] where
  toStores := Stores.new
  room h := by cases h
  first _ := rfl

omit [Inhabited α] in
/-- Given memory is free room, whatever it holds. -/
theorem sound_of_memory {memory : Array α} {split : Nat} (firstCapacity : Nat)
    (hmemory : 0 < memory.size) (hsplit : split ≤ memory.size) :
    (⟨some memory, split, 0, firstCapacity⟩ : Buffer α).Sound [] where
  toList_eq := by
    refine List.eq_nil_of_length_eq_zero ?_
    simp only [toList, Memory.region, Array.length_toList, Array.size_extract]
    omega
  size_eq := rfl
  window := hsplit
  room _ := hmemory
  first h := by cases h

/-- An empty buffer is sound, whatever capacity was asked for, also where that is none. -/
theorem Sound.empty (capacity : Nat) : (Buffer.empty capacity : Buffer α).Sound [] := by
  rw [Buffer.empty]
  split
  · exact Sound.new
  · have enough := (exists_powerOfTwoAbove capacity).2
    refine sound_of_memory _ ?_ ?_
    · rw [Array.size_replicate]
      omega
    · rw [Array.size_replicate]
      exact Nat.div_le_self _ 2

omit [Inhabited α] in
/-- Memory is taken if there is some and the window can start in it, and refused otherwise. -/
theorem ofBacking_eq (memory : Array α) (split : Nat) :
    (ofBacking memory split).toOption =
      if 0 < memory.size ∧ split ≤ memory.size then some ⟨some memory, split, 0, memory.size⟩
      else none := by
  rw [ofBacking]
  by_cases hempty : memory.isEmpty
  · have none : memory.size = 0 := by simpa using hempty
    rw [if_pos hempty, if_neg (by omega)]
    rfl
  · have some : 0 < memory.size := by
      simp only [Array.isEmpty_iff_size_eq_zero] at hempty
      omega
    rw [if_neg hempty]
    by_cases hsplit : split ≤ memory.size
    · rw [if_neg (Nat.not_lt.2 hsplit), if_pos ⟨some, hsplit⟩]
      rfl
    · rw [if_pos (Nat.lt_of_not_le hsplit), if_neg (fun h => hsplit h.2)]
      rfl

/-! ### Calls -/

/-- What a caller may do with a buffer that has a name: make it anew, make it a copy of another, or add to it.
Where given memory is refused, the name stays with the buffer that it had. -/
inductive Call (ι α : Type) where
  | new
  | empty (capacity : Nat)
  | withSplit (capacity split : Nat)
  | ofBacking (memory : Array α) (split : Nat)
  | ofList (l : List α)
  /-- Makes the buffer a copy of another. -/
  | clone (source : ι)
  | append (a : α)
  | prepend (a : α)
  | extend (run : List α)
  | extendFront (run : List α)

namespace Call

/-- A call on a buffer, beside the buffers that it may name. -/
def onBuffer (family : ι → Buffer α) (b : Buffer α) : Call ι α → Buffer α
  | .new => .new
  | .empty capacity => .empty capacity
  | .withSplit capacity split => (Buffer.withSplit capacity split).toOption.getD b
  | .ofBacking memory split => (Buffer.ofBacking memory split).toOption.getD b
  | .ofList l => .ofList l
  | .clone source => family source
  | .append a => b.append a
  | .prepend a => b.prepend a
  | .extend run => b.extend run
  | .extendFront run => b.extendFront run

/-- The call on a list. -/
def onList (lists : ι → List α) (l : List α) : Call ι α → List α
  | .new | .empty _ => []
  | .withSplit capacity split => if 0 < capacity ∧ split ≤ capacity then [] else l
  | .ofBacking memory split => if 0 < memory.size ∧ split ≤ memory.size then [] else l
  | .ofList l => l
  | .clone source => lists source
  | .append a => l ++ [a]
  | .prepend a => a :: l
  | .extend run => l ++ run
  | .extendFront run => run ++ l

/-- A call on a buffer is the call on its list. -/
theorem sound_onBuffer {family : ι → Buffer α} {lists : ι → List α}
    (hs : ∀ i, (family i).Sound (lists i)) (h : b.Sound l) (call : Call ι α) :
    (call.onBuffer family b).Sound (call.onList lists l) := by
  -- A buffer is made on given memory if it can be split there; otherwise the old one is kept.
  have given (memory : Array α) (split : Nat) :
      ((Buffer.ofBacking memory split).toOption.getD b).Sound
        (if 0 < memory.size ∧ split ≤ memory.size then [] else l) := by
    rw [ofBacking_eq]
    by_cases fits : 0 < memory.size ∧ split ≤ memory.size
    · rw [if_pos fits, if_pos fits]
      exact sound_of_memory _ fits.1 fits.2
    · rw [if_neg fits, if_neg fits]
      exact h
  cases call with
  | new => exact .new
  | empty capacity => exact .empty capacity
  | withSplit capacity split =>
    have cleared := given (Array.replicate capacity default) split
    rw [Array.size_replicate] at cleared
    exact cleared
  | ofBacking memory split => exact given memory split
  | ofList l => exact Sound.new.extend l
  | clone source => exact hs source
  | append a => exact h.extend [a]
  | prepend a => exact h.extendFront [a]
  | extend run => exact h.extend run
  | extendFront run => exact h.extendFront run

end Call

/-- Goes through calls, each on one member of a family. -/
def play {σ : Type} [DecidableEq ι] (act : (ι → σ) → σ → Call ι α → σ) :
    List (ι × Call ι α) → (ι → σ) → ι → σ
  | [], family => family
  | (i, call) :: calls, family =>
    play act calls (Function.update family i (act family (family i) call))

/-- Two families that are related stay so when members of one name are replaced by related ones. -/
theorem rel_update {σ τ : Type} [DecidableEq ι] {R : σ → τ → Prop} {family : ι → σ} {family' : ι → τ}
    {x : σ} {y : τ} {j : ι} (hj : R x y) (hs : ∀ i, i ≠ j → R (family i) (family' i)) (i : ι) :
    R (Function.update family j x i) (Function.update family' j y i) := by
  by_cases hi : i = j
  · subst hi
    rw [Function.update_self, Function.update_self]
    exact hj
  · rw [Function.update_of_ne hi, Function.update_of_ne hi]
    exact hs i hi

/-- Whatever was done with buffers, each stands for the list that the same was done with. -/
theorem sound_play [DecidableEq ι] {family : ι → Buffer α} {lists : ι → List α}
    (hs : ∀ i, (family i).Sound (lists i)) (calls : List (ι × Call ι α)) (i : ι) :
    (play Call.onBuffer calls family i).Sound (play Call.onList calls lists i) := by
  -- By induction on the calls: only the member that is called on changes, and as its list does.
  induction calls generalizing family lists with
  | nil => exact hs i
  | cons head calls ih =>
    obtain ⟨j, call⟩ := head
    exact ih (rel_update (Call.sound_onBuffer hs (hs j) call) fun i _ => hs i)

end ParserMachine.Buffer
