import ParserMachine.Proofs.Buffer.Growth

/-!
# Buffers and the memory they are in

A buffer has its memory by reference, and others may refer to the same. Here is what is done to one of them,
step by step, on a handle and on the memories that there are (`Site`): each place is checked against the memory
that it is in, each number against the largest word, and each loop against the doublings that a word has room
for. `Mishap` is what can come of that.

Nothing does come of it while capacities are words: `Site.Shows.leadsTo_extend` and
`Site.Shows.leadsTo_extendFront` say that a run that is added to a handle is added to the buffer that the handle
shows. They also say what happens to the memories (`Spares`): one that somebody else refers to is left as it is,
since it is copied before it is written to.
-/

set_option autoImplicit false

namespace ParserMachine.Buffer

variable {α : Type}

/-- What can go wrong in the memories. -/
inductive Mishap where
  /-- A place is not in its memory, or would be before its beginning. -/
  | outside
  /-- A number is no word. -/
  | tooLarge
  /-- A loop goes on after as many doublings as a word has room for. -/
  | endless
  deriving DecidableEq, Repr

/-- A buffer as it refers to its memory. -/
structure Handle where
  /-- Which memory it is, if there is one. -/
  backing : Option Nat
  start : Nat
  size : Nat
  firstCapacity : Nat

/-- The handle of a buffer without memory. -/
def Handle.new : Handle := ⟨none, 0, 0, defaultCapacity⟩

/-- A handle and the memories that it may refer to. -/
structure Site (α : Type) where
  memories : Array (Array α)
  handle : Handle

/-- A number that must be a word. -/
def word (n : Nat) : Except Mishap Nat :=
  if n < UInt64.size then .ok n else .error .tooLarge

/-- A difference that must not be negative. -/
def minus (m n : Nat) : Except Mishap Nat :=
  if n ≤ m then .ok (m - n) else .error .outside

/-- Doubles a capacity until it is enough. -/
def double (enough : Nat → Except Mishap Bool) : Nat → Nat → Except Mishap Nat
  | 0, _ => .error .endless
  | rounds + 1, capacity => do
    if ← enough capacity then return capacity
    else double enough rounds (← word (capacity * 2))

/-- As many doublings as a word has room for, and the last look. -/
def mostRounds : Nat := 65

/-- A number within the bound of words passes the check. -/
theorem word_eq {n : Nat} (h : n < UInt64.size) : word n = .ok n := by
  rw [word, if_pos h]

/-- A difference that is not negative passes the check. -/
theorem minus_eq {m n : Nat} (h : n ≤ m) : minus m n = .ok (m - n) := by
  rw [minus, if_pos h]

/-- The loop ends where doubling does, if the rounds that it is given go beyond that. -/
theorem double_eq_of_lt {enough : Nat → Except Mishap Bool} {wanted capacity rounds : Nat}
    (henough : ∀ m, capacity ≤ m → m < UInt64.size → enough m = .ok (decide (wanted ≤ m)))
    (hpos : 0 < capacity) (hword : doubled wanted capacity < UInt64.size)
    (hrounds : doubled wanted capacity < capacity * 2 ^ rounds) :
    double enough rounds capacity = .ok (doubled wanted capacity) := by
  -- In each round the power of two loses the factor that the capacity gains.
  induction rounds generalizing capacity with
  | zero =>
    have larger := capacity_le_doubled wanted capacity
    rw [Nat.pow_zero, Nat.mul_one] at hrounds
    exact absurd larger (Nat.not_le.2 hrounds)
  | succ rounds ih =>
    have small : capacity < UInt64.size :=
      Nat.lt_of_le_of_lt (capacity_le_doubled wanted capacity) hword
    rw [double, henough capacity (Nat.le_refl _) small]
    show (if decide (wanted ≤ capacity) then Except.ok capacity
      else word (capacity * 2) >>= double enough rounds) = _
    by_cases done : wanted ≤ capacity
    · rw [if_pos (decide_eq_true done), doubled_of_le done]
    · have next : doubled wanted capacity = doubled wanted (capacity * 2) := by
        rw [doubled, if_neg (by omega), Nat.mul_comm]
      rw [next] at hword hrounds ⊢
      have small : capacity * 2 < UInt64.size :=
        Nat.lt_of_le_of_lt (capacity_le_doubled wanted (capacity * 2)) hword
      rw [if_neg (by simpa using done), word_eq small]
      refine ih (fun m hm => henough m (by omega)) (by omega) hword ?_
      rwa [Nat.pow_succ, Nat.mul_comm (2 ^ rounds), ← Nat.mul_assoc] at hrounds

/-- A word has room for the doublings. -/
theorem double_eq {enough : Nat → Except Mishap Bool} {wanted capacity : Nat}
    (henough : ∀ m, capacity ≤ m → m < UInt64.size → enough m = .ok (decide (wanted ≤ m)))
    (hpos : 0 < capacity) (hword : doubled wanted capacity < UInt64.size) :
    double enough mostRounds capacity = .ok (doubled wanted capacity) := by
  refine double_eq_of_lt henough hpos hword (Nat.lt_of_lt_of_le hword ?_)
  calc UInt64.size ≤ 1 * 2 ^ mostRounds := by decide
    _ ≤ capacity * 2 ^ mostRounds := Nat.mul_le_mul_right _ hpos

/-- The memory that a handle falls back on, where there is none, has the buffer's capacity, too. -/
theorem size_getD_backing (b : Buffer α) : (b.backing.getD #[]).size = b.capacity := by
  rw [Buffer.capacity]
  cases b.backing <;> rfl

namespace Site

/-! ### Steps -/

/-- The memory that the handle refers to. -/
def memory (d : Site α) : Except Mishap (Array α) :=
  match d.handle.backing with
  | none => .ok #[]
  | some place =>
    match d.memories[place]? with
    | some memory => .ok memory
    | none => .error .outside

/-- The elements. -/
def slice (d : Site α) : Except Mishap (List α) := do
  let memory ← d.memory
  let stop ← word (d.handle.start + d.handle.size)
  if stop ≤ memory.size then return Memory.region memory d.handle.start d.handle.size
  else throw .outside

/-- Further memory, which the handle refers to from now on, with its window at the given place. -/
def allot (d : Site α) (memory : Array α) (start : Nat) : Site α :=
  ⟨d.memories.push memory, { d.handle with backing := some d.memories.size, start }⟩

/-- The first memory of a buffer, if it has none. Where the window goes is told from its capacity. -/
def create [Inhabited α] (d : Site α) (extra : Nat) (place : Nat → Except Mishap Nat) :
    Except Mishap (Site α) :=
  if d.handle.backing.isSome then .ok d
  else do
    let capacity ← word (powerOfTwoAbove (max d.handle.firstCapacity (← word (extra * 2))))
    return d.allot (Array.replicate capacity default) (← place capacity)

/-- Moves the window to a place of fresh memory. -/
def relocate [Inhabited α] (d : Site α) (capacity start : Nat) : Except Mishap (Site α) := do
  let live ← d.slice
  let stop ← word (start + d.handle.size)
  if stop ≤ capacity ∧ live.length = d.handle.size then
    return d.allot (Memory.overwrite (Array.replicate capacity default) start live) start
  else throw .outside

/-- Where the window of a first memory goes, if a run is to be added behind it. -/
def placeBack (extra capacity : Nat) : Except Mishap Nat := do
  let stop ← word (capacity / 2 + extra)
  return if capacity < stop then 0 else capacity / 2

/-- Where the window of a first memory goes, if a run is to be added before it. -/
def placeFront (extra capacity : Nat) : Except Mishap Nat :=
  return if capacity / 2 < extra then capacity else capacity / 2

/-- Moves to larger memory if there is too little room behind the window. -/
def growBack [Inhabited α] (d : Site α) (extra : Nat) : Except Mishap (Site α) := do
  let capacity := (← d.memory).size
  let stop ← word (d.handle.start + d.handle.size)
  let needed ← word (stop + extra)
  if needed ≤ capacity then return d
  else
    let grown ← double (fun wanted => .ok (needed ≤ wanted)) mostRounds (max capacity 1)
    d.relocate grown d.handle.start

/-- Whether a place has been moved far enough by what the capacity has grown. -/
def shiftReaches (start capacity extra grown : Nat) : Except Mishap Bool := do
  return extra ≤ (← word (start + (← minus grown capacity)))

/-- Moves to larger memory if there is too little room before the window, which goes as much further back
as the memory is larger. -/
def growFront [Inhabited α] (d : Site α) (extra : Nat) : Except Mishap (Site α) := do
  let start := d.handle.start
  if extra ≤ start then return d
  else
    let capacity := (← d.memory).size
    let grown ← double (shiftReaches start capacity extra) mostRounds (max capacity 1)
    let start ← word (start + (← minus grown capacity))
    d.relocate grown start

/-- Makes room for a run behind the window. -/
def reserveBack [Inhabited α] (d : Site α) (extra : Nat) : Except Mishap (Site α) := do
  (← d.create extra (placeBack extra)).growBack extra

/-- Makes room for a run before the window. -/
def reserveFront [Inhabited α] (d : Site α) (extra : Nat) : Except Mishap (Site α) := do
  (← d.create extra (placeFront extra)).growFront extra

/-- Sees to it that nobody else refers to the memory: by a copy of it, if somebody does. -/
def own (shared : Nat → Bool) (d : Site α) : Except Mishap (Site α) :=
  match d.handle.backing with
  | none => .ok (d.allot #[] d.handle.start)
  | some place =>
    if shared place then do return d.allot (← d.memory) d.handle.start else .ok d

/-- Writes a run at a place of the memory. -/
def write (d : Site α) (start : Nat) (run : List α) : Except Mishap (Site α) :=
  match d.handle.backing with
  | none => .error .outside
  | some place => do
    let memory ← d.memory
    let stop ← word (start + run.length)
    if stop ≤ memory.size then
      return { d with memories := d.memories.setIfInBounds place (Memory.overwrite memory start run) }
    else throw .outside

/-- Writes a run where nobody else sees it, and makes it part of the window. -/
def put (shared : Nat → Bool) (d : Site α) (place start : Nat) (run : List α) :
    Except Mishap (Site α) := do
  let d ← d.own shared
  let d ← d.write place run
  let size ← word (d.handle.size + run.length)
  return { d with handle := { d.handle with start, size } }

/-- Adds a run at the back. -/
def extend [Inhabited α] (shared : Nat → Bool) (d : Site α) (run : List α) :
    Except Mishap (Site α) :=
  if run.isEmpty then .ok d
  else do
    let d ← d.reserveBack run.length
    let place ← word (d.handle.start + d.handle.size)
    d.put shared place d.handle.start run

/-- Adds a run at the front. -/
def extendFront [Inhabited α] (shared : Nat → Bool) (d : Site α) (run : List α) :
    Except Mishap (Site α) :=
  if run.isEmpty then .ok d
  else do
    let d ← d.reserveFront run.length
    let start ← minus d.handle.start run.length
    d.put shared start start run

/-- A handle on further memory, with an empty window. Memory that there is too little of is refused. -/
def supply (d : Site α) (memory : Array α) (split : Nat) : Except Mishap (Site α) :=
  if 0 < memory.size ∧ split ≤ memory.size then do
    let firstCapacity ← word memory.size
    return ⟨d.memories.push memory, ⟨some d.memories.size, split, 0, firstCapacity⟩⟩
  else .ok d

/-- A handle on memory of its own, if there is to be any. -/
def supplyEmpty [Inhabited α] (d : Site α) (capacity : Nat) : Except Mishap (Site α) :=
  if capacity = 0 then .ok { d with handle := .new }
  else do
    let room ← word (powerOfTwoAbove capacity)
    d.supply (Array.replicate room default) (room / 2)

/-! ### What a handle shows -/

/-- The handle shows the buffer: its memory, if it has one, is the buffer's. -/
structure Shows (d : Site α) (b : Buffer α) : Prop where
  start_eq : d.handle.start = b.start
  size_eq : d.handle.size = b.size
  first_eq : d.handle.firstCapacity = b.firstCapacity
  backing_eq : d.handle.backing.map (d.memories[·]?) = b.backing.map some

/-- The handle shows the buffer, whose capacity is a word. -/
structure Holds (d : Site α) (b : Buffer α) : Prop extends Shows d b where
  small : b.capacity < UInt64.size

/-- What is kept of the memories is as it was before. -/
def Spares (keep : Nat → Prop) (before after : Array (Array α)) : Prop :=
  ∀ place memory, keep place → before[place]? = some memory → after[place]? = some memory

/-- What is kept by two steps is kept by both together. -/
theorem Spares.trans {keep : Nat → Prop} {before between after : Array (Array α)}
    (h : Spares keep before between) (h' : Spares keep between after) : Spares keep before after := by
  intro place memory kept found
  exact h' place memory kept (h place memory kept found)

/-- Nothing is lost where nothing is done. -/
theorem Spares.refl (keep : Nat → Prop) (memories : Array (Array α)) : Spares keep memories memories := by
  intro place memory _ found
  exact found

/-- The steps come through, to a handle that shows the buffer, and spare what is kept. -/
def LeadsTo (keep : Nat → Prop) (d : Site α) (steps : Except Mishap (Site α)) (b : Buffer α) : Prop :=
  ∃ d', steps = .ok d' ∧ d'.Shows b ∧ Spares keep d.memories d'.memories

variable {d : Site α} {b : Buffer α} {l run : List α} {keep : Nat → Prop} {capacity start : Nat}

/-- Doing nothing leads to the buffer that the handle shows already. -/
theorem LeadsTo.here (h : d.Shows b) : LeadsTo keep d (.ok d) b := ⟨d, rfl, h, .refl keep _⟩

/-- Steps after others. -/
theorem LeadsTo.bind {steps : Except Mishap (Site α)} {next : Site α → Except Mishap (Site α)}
    {r : Buffer α} (h : LeadsTo keep d steps b) (hnext : ∀ d', d'.Shows b → LeadsTo keep d' (next d') r) :
    LeadsTo keep d (steps >>= next) r := by
  obtain ⟨d₁, rfl, shows₁, spares₁⟩ := h
  obtain ⟨d₂, reached, shows₂, spares₂⟩ := hnext d₁ shows₁
  exact ⟨d₂, reached, shows₂, spares₁.trans spares₂⟩

/-- Further memory is beside what there is. -/
theorem spares_allot (d : Site α) (memory : Array α) (start : Nat) :
    Spares keep d.memories (d.allot memory start).memories := by
  intro place memory' _ found
  obtain ⟨inside, -⟩ := Array.getElem?_eq_some_iff.1 found
  show (d.memories.push memory)[place]? = some memory'
  rw [Array.getElem?_push_lt inside, ← found, Array.getElem?_eq_getElem inside]

/-- A handle on further memory shows a buffer in that memory, whatever it referred to before. -/
theorem shows_allot (d : Site α) (memory : Array α) (start : Nat) :
    (d.allot memory start).Shows ⟨some memory, start, d.handle.size, d.handle.firstCapacity⟩ where
  start_eq := rfl
  size_eq := rfl
  first_eq := rfl
  backing_eq := by simp [allot]

namespace Shows

/-- A handle that shows a buffer without memory refers to none. -/
theorem backing_eq_none (h : d.Shows b) (hnone : b.backing = none) : d.handle.backing = none := by
  have eq := h.backing_eq
  rw [hnone] at eq
  simpa using eq

/-- A handle that shows a buffer with memory refers to it, at some place among the memories. -/
theorem exists_place (h : d.Shows b) {memory : Array α} (hsome : b.backing = some memory) :
    ∃ place, d.handle.backing = some place ∧ d.memories[place]? = some memory := by
  have eq := h.backing_eq
  rw [hsome] at eq
  simpa using eq

/-- The handle refers to a memory just where the buffer has one. -/
theorem isSome_backing (h : d.Shows b) : d.handle.backing.isSome = b.backing.isSome := by
  have eq := congrArg Option.isSome h.backing_eq
  simpa using eq

/-- The handle finds the buffer's memory; the reference never leads nowhere. -/
theorem memory_eq (h : d.Shows b) : d.memory = .ok (b.backing.getD #[]) := by
  rw [memory]
  cases hb : b.backing with
  | none =>
    rw [h.backing_eq_none hb]
    rfl
  | some memory =>
    obtain ⟨place, hplace, found⟩ := h.exists_place hb
    rw [hplace]
    simp only [found]
    rfl

/-- The elements are read from inside the memory. -/
theorem slice_eq (h : d.Shows b) (hb : b.Stores l) (hword : b.capacity < UInt64.size) :
    d.slice = .ok l := by
  have window := hb.window
  have stop : word (d.handle.start + d.handle.size) = .ok (b.start + b.size) := by
    rw [h.start_eq, h.size_eq, word_eq (by omega)]
  rw [slice, h.memory_eq]
  show (do
    let stop ← word (d.handle.start + d.handle.size)
    if stop ≤ (b.backing.getD #[]).size then
      return Memory.region (b.backing.getD #[]) d.handle.start d.handle.size
    else throw Mishap.outside) = _
  rw [stop, size_getD_backing]
  show (if b.start + b.size ≤ b.capacity then _ else _) = _
  rw [if_pos window, h.start_eq, h.size_eq]
  -- A buffer without memory has no elements, so nothing is read from the memory that is not there.
  have elements := hb.toList_eq
  rw [toList] at elements
  cases hbacking : b.backing with
  | none =>
    rw [hbacking] at elements
    have none : b.capacity = 0 := capacity_eq_zero hbacking
    have size : b.size = 0 := by omega
    rw [← elements, size]
    simp [Memory.region, pure, Except.pure]
  | some memory =>
    rw [hbacking] at elements
    rw [← elements]
    rfl

/-- What is kept is shown. -/
theorem of_spares (h : d.Shows b) {memories : Array (Array α)}
    (hkeep : ∀ place, d.handle.backing = some place → keep place)
    (hspares : Spares keep d.memories memories) : (⟨memories, d.handle⟩ : Site α).Shows b where
  start_eq := h.start_eq
  size_eq := h.size_eq
  first_eq := h.first_eq
  backing_eq := by
    show d.handle.backing.map (memories[·]?) = b.backing.map some
    cases hmemory : b.backing with
    | none =>
      rw [h.backing_eq_none hmemory]
      rfl
    | some memory =>
      obtain ⟨place, hplace, found⟩ := h.exists_place hmemory
      rw [hplace, Option.map_some, hspares place memory (hkeep place hplace) found]
      rfl

/-- The handle of a new buffer shows it among any memories. -/
theorem new (memories : Array (Array α)) : (⟨memories, .new⟩ : Site α).Shows .new :=
  ⟨rfl, rfl, rfl, rfl⟩

variable [Inhabited α]

/-- The window is moved to fresh memory, from inside the old to inside the new. -/
theorem leadsTo_relocate (h : d.Shows b) (hb : b.Stores l) (hword : b.capacity < UInt64.size)
    (hroom : start + l.length ≤ capacity) (hcapacity : capacity < UInt64.size) :
    LeadsTo keep d (d.relocate capacity start) (b.relocated capacity start) := by
  have size : d.handle.size = l.length := by rw [h.size_eq, hb.size_eq]
  have stop : word (start + d.handle.size) = .ok (start + l.length) := by
    rw [size, word_eq (by omega)]
  refine ⟨d.allot (Memory.overwrite (Array.replicate capacity default) start l) start, ?_, ?_,
    spares_allot d _ start⟩
  · rw [relocate, h.slice_eq hb hword]
    show (do
      let stop ← word (start + d.handle.size)
      if stop ≤ capacity ∧ l.length = d.handle.size then
        return d.allot (Memory.overwrite (Array.replicate capacity default) start l) start
      else throw Mishap.outside) = _
    rw [stop]
    show (if start + l.length ≤ capacity ∧ l.length = d.handle.size then _ else _) = _
    rw [if_pos ⟨hroom, size.symm⟩]
    rfl
  · have moved := shows_allot d (Memory.overwrite (Array.replicate capacity default) start l) start
    rw [h.size_eq, h.first_eq] at moved
    rw [relocated, hb.toList_eq]
    exact moved

/-- The first memory is as large as the buffer asks for, with the window in its middle. -/
theorem leadsTo_create (h : d.Shows b) (hb : b.Sound l) {extra : Nat}
    (hword : (b.allocated extra).capacity < UInt64.size) {place : Nat → Except Mishap Nat}
    (hplace : b.backing = none → createdCapacity extra < UInt64.size →
      place (createdCapacity extra) = .ok (createdCapacity extra / 2)) :
    LeadsTo keep d (d.create extra place) (b.allocated extra) := by
  cases hnone : b.backing with
  | some memory =>
    have hsome : b.backing.isSome := by rw [hnone]; rfl
    rw [create, if_pos (by rw [h.isSome_backing, hsome]), allocated_of_isSome hsome]
    exact .here h
  | none =>
    have none : ¬d.handle.backing.isSome := by
      rw [h.isSome_backing, hnone]
      exact Bool.false_ne_true
    rw [hb.allocated_of_none hnone] at hword ⊢
    -- All numbers on the way are below the capacity, so none of them leaves its word.
    have small : createdCapacity extra < UInt64.size := by
      simpa only [Buffer.capacity, Array.size_replicate] using hword
    have twice : extra * 2 < UInt64.size :=
      Nat.lt_of_le_of_lt (two_mul_le_createdCapacity extra) small
    have first : d.handle.firstCapacity = defaultCapacity := by rw [h.first_eq, hb.first hnone]
    have size : d.handle.size = 0 := by rw [h.size_eq, hb.eq_of_none hnone]
    refine ⟨d.allot (Array.replicate (createdCapacity extra) default) (createdCapacity extra / 2), ?_,
      ?_, spares_allot d _ _⟩
    · rw [create, if_neg none, word_eq twice]
      show (do
        let capacity ← word (powerOfTwoAbove (max d.handle.firstCapacity (extra * 2)))
        return d.allot (Array.replicate capacity default) (← place capacity)) = _
      rw [first]
      show (do
        let capacity ← word (createdCapacity extra)
        return d.allot (Array.replicate capacity default) (← place capacity)) = _
      rw [word_eq small]
      show (do
        let start ← place (createdCapacity extra)
        return d.allot (Array.replicate (createdCapacity extra) default) start) = _
      rw [hplace hnone small]
      rfl
    · have made := shows_allot d (Array.replicate (createdCapacity extra) default)
        (createdCapacity extra / 2)
      rwa [size, first] at made

/-- Larger memory is found if there is too little room behind the window. -/
theorem leadsTo_growBack (h : d.Shows b) (hb : b.Stores l) {extra : Nat} {r : Buffer α}
    (hr : r = if b.start + b.size + extra ≤ b.capacity then b
      else b.relocated (doubled (b.start + b.size + extra) (max b.capacity 1)) b.start)
    (hword : r.capacity < UInt64.size) :
    LeadsTo keep d (d.growBack extra) r := by
  have size := hb.size_eq
  have enough : b.start + b.size + extra ≤ doubled (b.start + b.size + extra) (max b.capacity 1) :=
    le_doubled (by omega)
  have larger := capacity_le_doubled (b.start + b.size + extra) (max b.capacity 1)
  -- Whatever the capacity is in the end, it is above all the numbers on the way.
  have small : b.capacity < UInt64.size ∧ b.start + b.size + extra < UInt64.size := by
    rw [hr] at hword
    split at hword
    · omega
    · rw [capacity_relocated] at hword
      omega
  have steps : d.growBack extra = if b.start + b.size + extra ≤ b.capacity then .ok d
      else double (fun wanted => .ok (b.start + b.size + extra ≤ wanted)) mostRounds
          (max b.capacity 1) >>= fun grown =>
        d.relocate grown b.start := by
    rw [growBack, h.memory_eq, h.start_eq, h.size_eq, word_eq (by omega)]
    show (do
      let needed ← word (b.start + b.size + extra)
      if needed ≤ (b.backing.getD #[]).size then return d
      else do
        let grown ← double (fun wanted => .ok (needed ≤ wanted)) mostRounds
          (max (b.backing.getD #[]).size 1)
        d.relocate grown b.start) = _
    rw [size_getD_backing, word_eq small.2]
    rfl
  rw [steps]
  by_cases fits : b.start + b.size + extra ≤ b.capacity
  · rw [if_pos fits] at hr ⊢
    exact .here (hr ▸ h)
  · rw [if_neg fits] at hr ⊢
    rw [hr, capacity_relocated] at hword
    rw [double_eq (fun _ _ _ => rfl) (by omega) hword, hr]
    exact h.leadsTo_relocate hb small.1 (by omega) hword

/-- Larger memory is found if there is too little room before the window. -/
theorem leadsTo_growFront (h : d.Shows b) (hb : b.Stores l) {extra : Nat} {r : Buffer α}
    (hr : r = if extra ≤ b.start then b
      else b.relocated (doubled (extra + b.capacity - b.start) (max b.capacity 1))
        (b.start + (doubled (extra + b.capacity - b.start) (max b.capacity 1) - b.capacity)))
    (hword : r.capacity < UInt64.size) :
    LeadsTo keep d (d.growFront extra) r := by
  have window := hb.window
  have size := hb.size_eq
  -- The window moves by what the capacity has grown, so it still ends inside, and no word is exceeded.
  have larger := capacity_le_doubled (extra + b.capacity - b.start) (max b.capacity 1)
  have steps : d.growFront extra = if extra ≤ b.start then .ok d
      else double (shiftReaches b.start b.capacity extra) mostRounds (max b.capacity 1) >>=
        fun grown => minus grown b.capacity >>= fun shift =>
        word (b.start + shift) >>= fun start => d.relocate grown start := by
    rw [growFront, h.memory_eq, h.start_eq, ← size_getD_backing b]
    rfl
  rw [steps]
  by_cases fits : extra ≤ b.start
  · rw [if_pos fits] at hr ⊢
    exact .here (hr ▸ h)
  · rw [if_neg fits] at hr ⊢
    rw [hr, capacity_relocated] at hword
    have looks (m : Nat) (hm : max b.capacity 1 ≤ m) (hsmall : m < UInt64.size) :
        shiftReaches b.start b.capacity extra m =
          .ok (decide (extra + b.capacity - b.start ≤ m)) := by
      have same : extra ≤ b.start + (m - b.capacity) ↔ extra + b.capacity - b.start ≤ m := by omega
      rw [shiftReaches, minus_eq (by omega)]
      show (do return decide (extra ≤ (← word (b.start + (m - b.capacity))))) = _
      rw [word_eq (by omega), ← decide_eq_decide.2 same]
      rfl
    rw [double_eq looks (by omega) hword, hr]
    show LeadsTo keep d (do
      let shift ← minus (doubled (extra + b.capacity - b.start) (max b.capacity 1)) b.capacity
      let start ← word (b.start + shift)
      d.relocate (doubled (extra + b.capacity - b.start) (max b.capacity 1)) start) _
    rw [minus_eq (by omega)]
    show LeadsTo keep d (do
      let start ← word
        (b.start + (doubled (extra + b.capacity - b.start) (max b.capacity 1) - b.capacity))
      d.relocate (doubled (extra + b.capacity - b.start) (max b.capacity 1)) start) _
    rw [word_eq (by omega)]
    exact h.leadsTo_relocate hb (by omega) (by omega) hword

/-- The window of a first memory goes to its middle: there is room for the run behind it, so the other
way is never taken. -/
theorem placeBack_eq {extra : Nat} (h : createdCapacity extra < UInt64.size) :
    placeBack extra (createdCapacity extra) = .ok (createdCapacity extra / 2) := by
  have twice := two_mul_le_createdCapacity extra
  rw [placeBack, word_eq (by omega)]
  show Except.ok (if createdCapacity extra < createdCapacity extra / 2 + extra then 0
    else createdCapacity extra / 2) = _
  rw [if_neg (by omega)]

/-- The window of a first memory goes to its middle: there is room for the run before it, so the other
way is never taken. -/
theorem placeFront_eq (extra : Nat) :
    placeFront extra (createdCapacity extra) = .ok (createdCapacity extra / 2) := by
  have twice := two_mul_le_createdCapacity extra
  rw [placeFront, if_neg (by omega)]
  rfl

/-- Room is made behind the window. -/
theorem leadsTo_reserveBack (h : d.Shows b) (hb : b.Sound l) {extra : Nat}
    (hword : (b.reserveBack extra).capacity < UInt64.size) :
    LeadsTo keep d (d.reserveBack extra) (b.reserveBack extra) := by
  obtain ⟨stores, -⟩ := hb.toStores.allocated extra
  have small : (b.allocated extra).capacity < UInt64.size :=
    Nat.lt_of_le_of_lt (capacity_allocated_le b extra).1 hword
  rw [Site.reserveBack]
  refine (h.leadsTo_create hb small fun _ => placeBack_eq).bind fun d₁ shows₁ => ?_
  exact shows₁.leadsTo_growBack stores rfl hword

/-- Room is made before the window. -/
theorem leadsTo_reserveFront (h : d.Shows b) (hb : b.Sound l) {extra : Nat}
    (hword : (b.reserveFront extra).capacity < UInt64.size) :
    LeadsTo keep d (d.reserveFront extra) (b.reserveFront extra) := by
  obtain ⟨stores, -⟩ := hb.toStores.allocated extra
  have small : (b.allocated extra).capacity < UInt64.size :=
    Nat.lt_of_le_of_lt (capacity_allocated_le b extra).2 hword
  rw [Site.reserveFront]
  refine (h.leadsTo_create hb small fun _ _ => placeFront_eq extra).bind fun d₁ shows₁ => ?_
  exact shows₁.leadsTo_growFront stores rfl hword

omit [Inhabited α] in
/-- Memory that somebody else refers to is copied, so that what the handle refers to afterwards is either not
shared, or was not there before. -/
theorem own_eq (h : d.Shows b) {memory : Array α} (hmemory : b.backing = some memory)
    (shared : Nat → Bool) :
    ∃ d' place, d.own shared = .ok d' ∧ d'.Shows b ∧ d'.handle.backing = some place ∧
      Spares keep d.memories d'.memories ∧ (shared place = true → d.memories[place]? = none) := by
  obtain ⟨place, hplace, found⟩ := h.exists_place hmemory
  -- A copy goes behind all the memories that there were, where nobody can refer to it yet.
  cases hshared : shared place with
  | false =>
    refine ⟨d, place, ?_, h, hplace, .refl keep _, ?_⟩
    · rw [own, hplace]
      simp only [hshared, Bool.false_eq_true, if_false]
    · intro hshared'
      rw [hshared] at hshared'
      cases hshared'
  | true =>
    refine ⟨d.allot memory d.handle.start, d.memories.size, ?_, ?_, rfl, spares_allot d _ _, ?_⟩
    · rw [own, hplace]
      simp only [hshared, if_true]
      rw [h.memory_eq, hmemory]
      rfl
    · have copied := shows_allot d memory d.handle.start
      rw [h.start_eq, h.size_eq, h.first_eq, ← hmemory] at copied
      rw [h.start_eq]
      exact copied
    · intro _
      exact Array.getElem?_eq_none (Nat.le_refl _)

omit [Inhabited α] in
/-- A write changes the memory of the handle, and no other. -/
theorem leadsTo_write (h : d.Shows b) {memory : Array α} (hmemory : b.backing = some memory) {place : Nat}
    (hplace : d.handle.backing = some place) (hroom : start + run.length ≤ memory.size)
    (hword : memory.size < UInt64.size) :
    LeadsTo (· ≠ place) d (d.write start run)
      { b with backing := some (Memory.overwrite memory start run) } := by
  have found : d.memories[place]? = some memory := by
    obtain ⟨place', hplace', found⟩ := h.exists_place hmemory
    rw [hplace] at hplace'
    cases hplace'
    exact found
  obtain ⟨inside, -⟩ := Array.getElem?_eq_some_iff.1 found
  refine ⟨{ d with memories := d.memories.setIfInBounds place (Memory.overwrite memory start run) },
    ?_, ⟨h.start_eq, h.size_eq, h.first_eq, ?_⟩, ?_⟩
  · rw [write, hplace, h.memory_eq, hmemory, word_eq (by omega)]
    show (if start + run.length ≤ memory.size then _ else _) = _
    rw [if_pos hroom]
    rfl
  · show d.handle.backing.map
      ((d.memories.setIfInBounds place (Memory.overwrite memory start run))[·]?) = _
    rw [hplace]
    simp only [Option.map_some, Array.getElem?_setIfInBounds_self_of_lt inside]
  · intro other memory' hother found'
    show (d.memories.setIfInBounds place (Memory.overwrite memory start run))[other]? = some memory'
    rwa [Array.getElem?_setIfInBounds_ne hother.symm]

omit [Inhabited α] in
/-- Nobody else sees the run. -/
theorem leadsTo_put (h : d.Shows b) {memory : Array α} (hmemory : b.backing = some memory)
    (shared : Nat → Bool) {place : Nat} (start : Nat) (hroom : place + run.length ≤ memory.size)
    (hword : memory.size < UInt64.size) (hsize : b.size + run.length < UInt64.size) :
    LeadsTo (shared · = true) d (d.put shared place start run)
      ⟨some (Memory.overwrite memory place run), start, b.size + run.length, b.firstCapacity⟩ := by
  have owned : ∃ d₁ own, d.own shared = .ok d₁ ∧ d₁.Shows b ∧ d₁.handle.backing = some own ∧
      Spares (shared · = true) d.memories d₁.memories ∧
      (shared own = true → d.memories[own]? = none) := h.own_eq hmemory shared
  obtain ⟨d₁, own, owned, shows₁, hown, spares₁, fresh⟩ := owned
  obtain ⟨d₂, written, shows₂, spares₂⟩ := shows₁.leadsTo_write hmemory hown hroom hword
  have size : d₂.handle.size = b.size := shows₂.size_eq
  refine ⟨{ d₂ with handle := { d₂.handle with start, size := b.size + run.length } }, ?_,
    ⟨rfl, rfl, shows₂.first_eq, shows₂.backing_eq⟩, ?_⟩
  · rw [put, owned]
    show (do
      let d ← d₁.write place run
      let size ← word (d.handle.size + run.length)
      return { d with handle := { d.handle with start, size } }) = _
    rw [written]
    show (do
      let size ← word (d₂.handle.size + run.length)
      return { d₂ with handle := { d₂.handle with start, size } }) = _
    rw [size, word_eq hsize]
    rfl
  · -- What is shared was there before, and the memory that was written to either was not or is not shared.
    intro other memory' hshared found
    have apart : other ≠ own := by
      intro heq
      rw [heq] at hshared found
      rw [fresh hshared] at found
      cases found
    exact spares₂ other memory' apart (spares₁ other memory' hshared found)

/-- Adding a run at the back comes through, and leaves what is shared as it was. -/
theorem leadsTo_extend (h : d.Shows b) (hb : b.Sound l) (shared : Nat → Bool)
    (hword : (b.extend run).capacity < UInt64.size) :
    LeadsTo (shared · = true) d (d.extend shared run) (b.extend run) := by
  by_cases hrun : run = []
  · subst hrun
    exact .here h
  · obtain ⟨memory, hmemory, eq⟩ := hb.toStores.extend_of_ne_nil hrun
    obtain ⟨stores, -, room⟩ := hb.toStores.reserveBack run.length
    rw [capacity_extend hb.toStores hrun] at hword
    rw [Site.extend, if_neg (by simpa using hrun), eq]
    refine (h.leadsTo_reserveBack hb hword).bind fun d₁ shows₁ => ?_
    -- Only what making room leaves matters from here on.
    generalize b.reserveBack run.length = r at hmemory hword stores room shows₁ ⊢
    have size := stores.size_eq
    have large : r.capacity = memory.size := by rw [Buffer.capacity, hmemory]
    have inside : r.start + r.size + run.length ≤ memory.size := by omega
    rw [shows₁.start_eq, shows₁.size_eq, word_eq (by omega)]
    exact shows₁.leadsTo_put hmemory shared r.start inside (by omega) (by omega)

/-- Adding a run at the front comes through, and leaves what is shared as it was. -/
theorem leadsTo_extendFront (h : d.Shows b) (hb : b.Sound l) (shared : Nat → Bool)
    (hword : (b.extendFront run).capacity < UInt64.size) :
    LeadsTo (shared · = true) d (d.extendFront shared run) (b.extendFront run) := by
  by_cases hrun : run = []
  · subst hrun
    exact .here h
  · obtain ⟨memory, hmemory, eq⟩ := hb.toStores.extendFront_of_ne_nil hrun
    obtain ⟨stores, -, room⟩ := hb.toStores.reserveFront run.length
    rw [capacity_extendFront hb.toStores hrun] at hword
    rw [Site.extendFront, if_neg (by simpa using hrun), eq]
    refine (h.leadsTo_reserveFront hb hword).bind fun d₁ shows₁ => ?_
    generalize b.reserveFront run.length = r at hmemory hword stores room shows₁ ⊢
    have window := stores.window
    have large : r.capacity = memory.size := by rw [Buffer.capacity, hmemory]
    have inside : r.start - run.length + run.length ≤ memory.size := by omega
    rw [shows₁.start_eq, minus_eq room]
    exact shows₁.leadsTo_put hmemory shared (r.start - run.length) inside (by omega) (by omega)

omit [Inhabited α] in
/-- Memory is supplied, or refused, as to a buffer. -/
theorem leadsTo_supply (h : d.Shows b) (memory : Array α) (split : Nat)
    (hword : ((Buffer.ofBacking memory split).toOption.getD b).capacity < UInt64.size) :
    LeadsTo keep d (d.supply memory split) ((Buffer.ofBacking memory split).toOption.getD b) := by
  rw [ofBacking_eq] at hword ⊢
  rw [supply]
  by_cases fits : 0 < memory.size ∧ split ≤ memory.size
  · rw [if_pos fits] at hword ⊢
    have small : memory.size < UInt64.size := hword
    rw [if_pos fits, word_eq small]
    refine ⟨_, rfl, ⟨rfl, rfl, rfl, ?_⟩, spares_allot d memory split⟩
    simp
  · rw [if_neg fits] at hword ⊢
    rw [if_neg fits]
    exact .here h

/-- Memory of the capacity that was asked for leads to an empty buffer in it, or to a new one if that is
none. -/
theorem leadsTo_supplyEmpty (h : d.Shows b) (capacity : Nat)
    (hword : (Buffer.empty capacity : Buffer α).capacity < UInt64.size) :
    LeadsTo keep d (d.supplyEmpty capacity) (Buffer.empty capacity) := by
  by_cases none : capacity = 0
  · rw [supplyEmpty, if_pos none, Buffer.empty, if_pos none]
    exact ⟨_, rfl, .new _, .refl keep _⟩
  · -- The capacity is larger than nothing, so the memory is not refused.
    have enough := (exists_powerOfTwoAbove capacity).2
    have given : Buffer.empty capacity = (Buffer.ofBacking
        (Array.replicate (powerOfTwoAbove capacity) (default : α))
        (powerOfTwoAbove capacity / 2)).toOption.getD b := by
      rw [ofBacking_eq, Array.size_replicate, if_pos (by omega), Buffer.empty, if_neg none]
      rfl
    have supplied : LeadsTo keep d (d.supply (Array.replicate (powerOfTwoAbove capacity) default)
        (powerOfTwoAbove capacity / 2)) (Buffer.empty capacity) := by
      rw [given] at hword ⊢
      exact h.leadsTo_supply _ _ hword
    rw [Buffer.empty, if_neg none] at hword
    have small : powerOfTwoAbove capacity < UInt64.size := by
      simpa only [Buffer.capacity, Array.size_replicate] using hword
    rw [supplyEmpty, if_neg none, word_eq small]
    exact supplied

end Shows

end Site

end ParserMachine.Buffer
