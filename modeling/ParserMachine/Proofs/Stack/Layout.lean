import ParserMachine.Stack

/-!
# The layout of a stack's memory

`Layout s bytes slots` says what the memory of a stack holds: the arena is `bytes`, the index is
`slots`, and the two do not meet. The theorems tell what the building blocks of the stack's
operations do to it:

* `Layout.moved`: moving into fresh memory keeps both, wherever the index then lies.
* `Layout.addBytes` and `Layout.addEntry`: writing at the end of one table leaves the other alone.
* `Layout.slide`: a piece is cut out of both tables, and what lay above it slides down.

Nothing here knows what the bytes mean; that is the subject of `Proofs.Stack.Cells`.
-/

set_option autoImplicit false

namespace ParserMachine

variable {ω : Type}

/-- A slot whose place an index entry can hold. -/
def Slot.Encodable : Slot → Prop
  | inline header => header < objectFlag
  | object index => index < objectFlag

instance (slot : Slot) : Decidable slot.Encodable := by
  cases slot <;> exact inferInstanceAs (Decidable (_ < _))

/-- A slot is encoded if it can be, and then by its entry. -/
theorem Slot.encode?_eq_ok_iff {slot : Slot} {entry : Nat} :
    slot.encode? = .ok entry ↔ slot.Encodable ∧ entry = slot.entry := by
  cases slot with
  | inline header =>
    by_cases h : header < objectFlag <;> simp [encode?, Encodable, Slot.entry, h, eq_comm]
  | object index =>
    by_cases h : index < objectFlag <;> simp [encode?, Encodable, Slot.entry, h, eq_comm]

/-- An entry is found again, also through the four bytes that it is written in. -/
theorem Slot.ofEntry_entry {slot : Slot} (h : slot.Encodable) :
    ofEntry (LittleEndian.decode (LittleEndian.encode 4 slot.entry)) = slot := by
  have small : slot.entry < LittleEndian.bound 4 := by
    have word : LittleEndian.bound 4 = 4294967296 := rfl
    cases slot <;> simp only [Encodable, objectFlag, Slot.entry] at * <;> omega
  rw [LittleEndian.decode_encode_of_lt small]
  exact ofEntry_of_encode? (encode?_eq_ok_iff.2 ⟨h, rfl⟩)

namespace Stack

/-- The memory of the stack holds the given arena bytes and the given index. -/
structure Layout (s : Stack ω) (bytes : List UInt8) (slots : List Slot) : Prop where
  top_eq : s.top = bytes.length
  count_eq : s.count = slots.length
  arena : Memory.region s.memory 0 s.top = bytes
  index : ∀ i (h : i < slots.length), s.slotAt i = slots[i]
  encodable : ∀ slot ∈ slots, slot.Encodable
  room : s.top + s.bottom ≤ s.capacity

variable {s t : Stack ω} {bytes : List UInt8} {slots : List Slot}

/-- An index entry is written as four bytes at its place, which is counted from the end of the memory. -/
theorem memory_writeEntry (i entry : Nat) : (s.writeEntry i entry).memory =
    Memory.overwrite s.memory (s.entryPlace i) (LittleEndian.encode 4 entry) := by
  rw [writeEntry]

/-- A slot is read from its entry alone. -/
theorem slotAt_congr {i : Nat}
    (h : Memory.region s.memory (s.entryPlace i) 4 = Memory.region t.memory (t.entryPlace i) 4) :
    s.slotAt i = t.slotAt i := by
  rw [slotAt, slotAt, wordAt, wordAt, h]

/-- Slots are read from the memory alone. -/
theorem slotAt_eq_of_memory_eq (h : s.memory = t.memory) (i : Nat) : s.slotAt i = t.slotAt i :=
  slotAt_congr (by rw [entryPlace, entryPlace, capacity, capacity, h])

/-- An entry that there is room for lies above the arena and inside the memory. -/
theorem entryPlace_bounds {i : Nat} (room : s.top + (i + 1) * entrySize ≤ s.capacity) :
    s.top ≤ s.entryPlace i ∧ s.entryPlace i + (i + 1) * entrySize = s.capacity := by
  unfold entryPlace
  omega

/-- The entry written for a slot is the slot that is read there. -/
theorem slotAt_writeEntry {i : Nat} {slot : Slot} (h : slot.Encodable)
    (room : (i + 1) * entrySize ≤ s.capacity) : (s.writeEntry i slot.entry).slotAt i = slot := by
  have place : (s.writeEntry i slot.entry).entryPlace i = s.entryPlace i := by
    simp [entryPlace, capacity, memory_writeEntry]
  have inside : s.entryPlace i + (LittleEndian.encode 4 slot.entry).length ≤ s.memory.size := by
    simp only [entryPlace, entrySize, capacity, LittleEndian.length_encode] at *
    omega
  have word := Memory.region_overwrite inside
  rw [LittleEndian.length_encode] at word
  rw [slotAt, wordAt, place, memory_writeEntry, word, Slot.ofEntry_entry h]

/-- Writing one entry leaves the others alone. -/
theorem slotAt_writeEntry_of_ne {i j entry : Nat} (hne : j ≠ i)
    (room : (i + 1) * entrySize ≤ s.capacity) (room' : (j + 1) * entrySize ≤ s.capacity) :
    (s.writeEntry i entry).slotAt j = s.slotAt j := by
  have place : (s.writeEntry i entry).entryPlace j = s.entryPlace j := by
    simp [entryPlace, capacity, memory_writeEntry]
  apply slotAt_congr
  rw [place, memory_writeEntry]
  refine Memory.region_overwrite_of_disjoint ?_
  simp only [entryPlace, entrySize, LittleEndian.length_encode] at *
  omega

/-- Writing an entry leaves the arena alone. -/
theorem arena_writeEntry {i entry : Nat} (room : s.top + (i + 1) * entrySize ≤ s.capacity) :
    Memory.region (s.writeEntry i entry).memory 0 s.top = Memory.region s.memory 0 s.top := by
  rw [memory_writeEntry]
  refine Memory.region_overwrite_of_disjoint (.inl ?_)
  have := entryPlace_bounds room
  omega

/-- Writing an index entry moves no arena bytes. -/
@[simp] theorem top_writeEntry (i entry : Nat) : (s.writeEntry i entry).top = s.top := by
  rw [writeEntry]

/-- Writing an index entry does not move the stack to other memory. -/
@[simp] theorem capacity_writeEntry (i entry : Nat) : (s.writeEntry i entry).capacity = s.capacity := by
  simp [capacity, memory_writeEntry]

/-- One more index entry takes nothing from the arena. -/
@[simp] theorem top_addEntry (entry : Nat) : (s.addEntry entry).top = s.top := by
  rw [addEntry, writeEntry]

/-- One more index entry is one more slot. -/
@[simp] theorem count_addEntry (entry : Nat) : (s.addEntry entry).count = s.count + 1 := by
  rw [addEntry, writeEntry]

/-- One more index entry changes memory as writing it at the next place does. -/
@[simp] theorem memory_addEntry (entry : Nat) :
    (s.addEntry entry).memory = (s.writeEntry s.count entry).memory := by
  rw [addEntry]

/-- One more index entry brings no object with it. -/
@[simp] theorem objects_addEntry (entry : Nat) : (s.addEntry entry).objects = s.objects := by
  rw [addEntry, writeEntry]

/-- One more index entry leaves the limit alone. -/
@[simp] theorem limit_addEntry (entry : Nat) : (s.addEntry entry).limit = s.limit := by
  rw [addEntry, writeEntry]

/-- One more index entry does not move the stack to other memory. -/
@[simp] theorem capacity_addEntry (entry : Nat) : (s.addEntry entry).capacity = s.capacity := by
  simp [capacity, memory_writeEntry]

/-- Counting a slot does not change what is read from the index. -/
@[simp] theorem slotAt_addEntry (entry i : Nat) :
    (s.addEntry entry).slotAt i = (s.writeEntry s.count entry).slotAt i :=
  slotAt_eq_of_memory_eq (memory_addEntry entry) i

/-- Adding no bytes changes nothing. -/
@[simp] theorem addBytes_nil : s.addBytes [] = s := by
  rw [addBytes, Memory.overwrite, List.length_nil, Nat.add_zero]

/-- Added bytes move the end of the arena by as many. -/
@[simp] theorem top_addBytes (run : List UInt8) :
    (s.addBytes run).top = s.top + run.length := by
  rw [addBytes]

/-- Added bytes are no slot by themselves: that takes an index entry. -/
@[simp] theorem count_addBytes (run : List UInt8) : (s.addBytes run).count = s.count := by
  rw [addBytes]

/-- Bytes are added where the arena ends. -/
@[simp] theorem memory_addBytes (run : List UInt8) :
    (s.addBytes run).memory = Memory.overwrite s.memory s.top run := by
  rw [addBytes]

/-- Added bytes bring no object with them. -/
@[simp] theorem objects_addBytes (run : List UInt8) : (s.addBytes run).objects = s.objects := by
  rw [addBytes]

/-- Added bytes leave the limit alone. -/
@[simp] theorem limit_addBytes (run : List UInt8) : (s.addBytes run).limit = s.limit := by
  rw [addBytes]

/-- Added bytes do not move the stack to other memory. -/
@[simp] theorem capacity_addBytes (run : List UInt8) : (s.addBytes run).capacity = s.capacity := by
  simp [capacity]

namespace Layout

/-- A layout is one of memory, of the end of the arena and of the number of slots; objects and limit may
differ. -/
theorem congr (h : s.Layout bytes slots) (hmemory : t.memory = s.memory) (htop : t.top = s.top)
    (hcount : t.count = s.count) : t.Layout bytes slots where
  top_eq := htop.trans h.top_eq
  count_eq := hcount.trans h.count_eq
  arena := by rw [hmemory, htop, h.arena]
  index i hi := by rw [← h.index i hi, slotAt_eq_of_memory_eq hmemory]
  encodable := h.encodable
  room := by simpa [bottom, capacity, hmemory, htop, hcount] using h.room

/-- An empty stack has an empty layout, whatever its memory holds. -/
theorem empty (htop : s.top = 0) (hcount : s.count = 0) : s.Layout [] [] where
  top_eq := htop
  count_eq := hcount
  arena := by simp [htop, Memory.region]
  index i hi := absurd hi (Nat.not_lt_zero i)
  encodable slot h := absurd h List.not_mem_nil
  room := by simp [htop, hcount, bottom]

/-- The arena, byte by byte. -/
theorem getElem?_memory (h : s.Layout bytes slots) {i : Nat} (hi : i < s.top) :
    s.memory[i]? = bytes[i]? := by
  rw [← h.arena, Memory.getElem?_region, if_pos hi, Nat.zero_add]

/-- There is room for the entry of each slot. -/
theorem entry_room (h : s.Layout bytes slots) {i : Nat} (hi : i < slots.length) :
    s.top + (i + 1) * entrySize ≤ s.capacity := by
  have room := h.room
  simp only [bottom, entrySize, h.count_eq] at room ⊢
  omega

/-- Both tables survive the move into fresh memory. -/
theorem moved (h : s.Layout bytes slots) {capacity : Nat} (hc : s.top + s.bottom ≤ capacity) :
    (s.moved capacity).Layout bytes slots ∧ (s.moved capacity).capacity = capacity := by
  have room := h.room
  have size : (s.moved capacity).memory.size = capacity := by
    simp only [Stack.moved, Array.size_append, Array.size_extract, Array.size_replicate]
    unfold Stack.capacity at *
    omega
  -- The arena keeps its place; the index keeps its distance to the end.
  have low (i : Nat) (hi : i < s.top) : (s.moved capacity).memory[i]? = s.memory[i]? := by
    unfold Stack.capacity at *
    simp only [Stack.moved, Array.append_assoc]
    rw [Array.getElem?_append_left (by simp only [Array.size_extract]; omega),
      Array.getElem?_extract, if_pos (by omega), Nat.zero_add]
  have high (i : Nat) (hi : i < s.bottom) :
      (s.moved capacity).memory[capacity - s.bottom + i]? =
        s.memory[s.capacity - s.bottom + i]? := by
    have front : (s.memory.extract 0 s.top ++
        Array.replicate (capacity - s.top - s.bottom) (0 : UInt8)).size = capacity - s.bottom := by
      unfold Stack.capacity at *
      simp only [Array.size_append, Array.size_extract, Array.size_replicate]
      omega
    simp only [Stack.moved]
    have hsize : s.bottom ≤ s.memory.size := by
      unfold Stack.capacity at room
      omega
    rw [Array.getElem?_append_right (by omega), front, Array.getElem?_extract,
      if_pos (by unfold Stack.capacity; omega)]
    congr 1
    omega
  refine ⟨⟨h.top_eq, h.count_eq, ?_, fun i hi => ?_, h.encodable, ?_⟩, size⟩
  · rw [← h.arena]
    refine Memory.region_congr ?_
    intro i hi
    simpa using low i hi
  · rw [← h.index i hi]
    apply slotAt_congr
    refine Memory.region_congr ?_
    intro j hj
    have hbottom : (i + 1) * 4 ≤ s.bottom := by
      simp only [bottom, entrySize, h.count_eq]
      omega
    have entry := high (s.bottom - (i + 1) * 4 + j) (by omega)
    have left : (s.moved capacity).entryPlace i + j =
        capacity - s.bottom + (s.bottom - (i + 1) * 4 + j) := by
      simp only [entryPlace, entrySize, Stack.capacity, size]
      omega
    have right : s.entryPlace i + j =
        s.capacity - s.bottom + (s.bottom - (i + 1) * 4 + j) := by
      simp only [entryPlace, entrySize]
      omega
    rw [left, right, entry]
  · show s.top + s.bottom ≤ (s.moved capacity).memory.size
    rw [size]
    exact hc

/-- Bytes written behind the arena leave the index alone. -/
theorem addBytes (h : s.Layout bytes slots) {run : List UInt8}
    (room : s.top + s.bottom + run.length ≤ s.capacity) :
    (s.addBytes run).Layout (bytes ++ run) slots where
  top_eq := by simp [h.top_eq]
  count_eq := h.count_eq
  arena := by
    have low : Memory.region (Memory.overwrite s.memory s.top run) 0 s.top = bytes := by
      rw [Memory.region_overwrite_of_disjoint (.inl (by omega)), h.arena]
    have inside : s.top + run.length ≤ s.memory.size := by
      unfold Stack.capacity at room
      omega
    rw [memory_addBytes, top_addBytes, Memory.region_append, low, Nat.zero_add,
      Memory.region_overwrite inside]
  index i hi := by
    have hroom := h.entry_room hi
    have hplace : (s.addBytes run).entryPlace i = s.entryPlace i := by simp [entryPlace]
    rw [← h.index i hi]
    apply slotAt_congr
    rw [hplace, memory_addBytes]
    refine Memory.region_overwrite_of_disjoint (.inr ?_)
    simp only [bottom, h.count_eq, entryPlace, entrySize] at *
    omega
  encodable := h.encodable
  room := by
    simp only [bottom, capacity_addBytes, top_addBytes, count_addBytes] at *
    omega

/-- An entry written behind the index leaves the arena alone. -/
theorem addEntry (h : s.Layout bytes slots) {slot : Slot} (he : slot.Encodable)
    (room : s.top + s.bottom + entrySize ≤ s.capacity) :
    (s.addEntry slot.entry).Layout bytes (slots ++ [slot]) where
  top_eq := by rw [top_addEntry, h.top_eq]
  count_eq := by simp [h.count_eq]
  arena := by
    rw [memory_addEntry, top_addEntry, arena_writeEntry, h.arena]
    simp only [bottom, entrySize] at *
    omega
  index i hi := by
    have hcount : (s.count + 1) * entrySize ≤ s.capacity := by
      simp only [bottom, entrySize] at *
      omega
    rw [slotAt_addEntry]
    -- The new entry reads back as what was written, and no other one lies there.
    by_cases hlast : i = slots.length
    · subst hlast
      rw [List.getElem_concat_length rfl]
      rw [← h.count_eq]
      exact slotAt_writeEntry he hcount
    · have hlt : i < slots.length := by
        simp only [List.length_append, List.length_singleton] at hi
        omega
      have hroom := h.entry_room hlt
      rw [slotAt_writeEntry_of_ne (by rw [h.count_eq]; exact hlast) hcount (by omega),
        h.index i hlt, List.getElem_append_left hlt]
  encodable p hp := by
    rcases List.mem_append.1 hp with hp | hp
    · exact h.encodable p hp
    · rw [List.mem_singleton.1 hp]
      exact he
  room := by
    simp only [capacity_addEntry, bottom, entrySize, top_addEntry, count_addEntry] at *
    omega

end Layout

/-! ### Cutting a piece out -/

/-- Rewriting entries changes nothing but the memory's contents. -/
theorem foldl_writeEntry_eq (l : List Nat) (place entry : Stack ω → Nat → Nat) (s : Stack ω) :
    ∃ memory : Array UInt8, memory.size = s.memory.size ∧
      l.foldl (fun (t : Stack ω) i => t.writeEntry (place t i) (entry t i)) s =
        { s with memory } := by
  induction l generalizing s with
  | nil => exact ⟨s.memory, rfl, rfl⟩
  | cons i l ih =>
    obtain ⟨memory, size, eq⟩ := ih (s.writeEntry (place s i) (entry s i))
    refine ⟨memory, by simpa [memory_writeEntry] using size, ?_⟩
    rw [List.foldl_cons, eq, writeEntry]

/-- What a run of rewritten entries leaves behind: the entries from `target` on are those from `source`
on, changed by `f`, and all else is as it was. The target lies below the source, so that no entry is
read after it was overwritten. -/
structure Repointed (s : Stack ω) (source target n : Nat) (f : Slot → Slot) (t : Stack ω) :
    Prop where
  top_eq : t.top = s.top
  capacity_eq : t.capacity = s.capacity
  arena_eq : Memory.region t.memory 0 s.top = Memory.region s.memory 0 s.top
  slotAt_eq : ∀ j, s.top + (j + 1) * entrySize ≤ s.capacity →
    t.slotAt j =
      if target ≤ j ∧ j < target + n then f (s.slotAt (source + (j - target))) else s.slotAt j

/-- A loop that rewrites entries to a lower place does so for each of them. The entry that it reads in a
round is still the old one, as all that it has written lies below. -/
theorem repointed_foldl {source target n : Nat} {f : Slot → Slot} (hlt : target < source)
    (room : s.top + (source + n) * entrySize ≤ s.capacity)
    (he : ∀ i < n, (f (s.slotAt (source + i))).Encodable) :
    Repointed s source target n f ((List.range n).foldl (fun (t : Stack ω) i =>
      t.writeEntry (target + i) (f (t.slotAt (source + i))).entry) s) := by
  induction n with
  | zero => exact ⟨rfl, rfl, rfl, fun j _ => by rw [if_neg (by omega)]; rfl⟩
  | succ n ih =>
    have done := ih (by simp only [entrySize] at *; omega) fun i hi => he i (by omega)
    rw [List.range_succ, List.foldl_append, List.foldl_cons, List.foldl_nil]
    generalize (List.range n).foldl (fun (t : Stack ω) i =>
      t.writeEntry (target + i) (f (t.slotAt (source + i))).entry) s = t at done ⊢
    -- The next entry to be read has not been written to.
    have next : t.slotAt (source + n) = s.slotAt (source + n) := by
      rw [done.slotAt_eq _ (by simp only [entrySize] at *; omega), if_neg (by omega)]
    have place : t.top + (target + n + 1) * entrySize ≤ t.capacity := by
      rw [done.top_eq, done.capacity_eq]
      simp only [entrySize] at *
      omega
    rw [next]
    refine ⟨by rw [top_writeEntry, done.top_eq], by simp [done.capacity_eq], ?_, fun j hj => ?_⟩
    · rw [← done.arena_eq, ← done.top_eq]
      exact arena_writeEntry place
    · by_cases hlast : j = target + n
      · subst hlast
        rw [slotAt_writeEntry (he n (by omega)) (by omega), if_pos (by omega)]
        congr 2
        omega
      · rw [slotAt_writeEntry_of_ne hlast (by omega) (by rw [done.capacity_eq]; omega),
          done.slotAt_eq j hj]
        by_cases hj' : target ≤ j ∧ j < target + n
        · rw [if_pos hj', if_pos (by omega)]
        · rw [if_neg hj', if_neg (by omega)]

section Slide

variable {below gone kept : List UInt8} {slots : List Slot}

/-- Moving the bytes above down over a piece of the arena leaves the bytes around the piece. -/
theorem Layout.region_moveDown (h : s.Layout (below ++ gone ++ kept) slots) :
    Memory.region
      (Memory.moveDown s.memory (below.length + gone.length) below.length kept.length) 0
      (below.length + kept.length) = below ++ kept := by
  have stop := h.top_eq
  have room := h.room
  simp only [List.length_append] at stop
  unfold capacity at room
  have inside : below.length + gone.length + kept.length ≤ s.memory.size := by omega
  have moved := Memory.getElem?_moveDown (Nat.le_add_right below.length gone.length) inside
  apply List.ext_getElem?
  intro i
  rw [Memory.getElem?_region, Nat.zero_add, moved]
  by_cases hi : i < below.length + kept.length
  · rw [if_pos hi]
    by_cases hlow : i < below.length
    · rw [if_neg (by omega), h.getElem?_memory (by omega), List.append_assoc,
        List.getElem?_append_left hlow, List.getElem?_append_left hlow]
    · -- Above the cut a byte comes from as far further up as the piece was long.
      rw [if_pos (by omega), h.getElem?_memory (by omega),
        List.getElem?_append_right (by simp only [List.length_append]; omega),
        List.getElem?_append_right (by omega)]
      congr 1
      simp only [List.length_append]
      omega
  · rw [if_neg hi, List.getElem?_eq_none (by simp only [List.length_append]; omega)]

/-- The index lies above the arena, out of reach of the bytes that move down. -/
theorem Layout.slotAt_moveDown (h : s.Layout (below ++ gone ++ kept) slots)
    (hmemory : t.memory =
      Memory.moveDown s.memory (below.length + gone.length) below.length kept.length)
    {i : Nat} (hi : i < s.count) : t.slotAt i = s.slotAt i := by
  have stop := h.top_eq
  have room := h.room
  simp only [List.length_append] at stop
  simp only [bottom, entrySize] at room
  have inside : below.length + gone.length + kept.length ≤ s.memory.size := by
    unfold capacity at room
    omega
  have tcapacity : t.capacity = s.capacity := by simp [capacity, hmemory]
  have hplace : t.entryPlace i = s.entryPlace i := by simp [entryPlace, tcapacity]
  apply slotAt_congr
  rw [hplace]
  refine Memory.region_congr ?_
  intro j hj
  rw [hmemory, Memory.getElem?_moveDown (Nat.le_add_right below.length gone.length) inside, if_neg]
  simp only [entryPlace, entrySize]
  omega

end Slide

/-- A piece is cut out of both tables: its bytes by moving down the bytes above, its entries by
rewriting the entries above, as `f` tells. -/
theorem Layout.slide {below gone kept : List UInt8} {low cut high : List Slot} {f : Slot → Slot}
    (h : s.Layout (below ++ gone ++ kept) (low ++ cut ++ high)) (hcut : cut ≠ [])
    (he : ∀ slot ∈ high, (f slot).Encodable)
    (htop : t.top = s.top - gone.length) (hcount : t.count = s.count)
    (hmemory : t.memory =
      Memory.moveDown s.memory (below.length + gone.length) below.length kept.length) :
    let u := (List.range high.length).foldl (fun (t : Stack ω) i =>
      t.writeEntry (low.length + i) (f (t.slotAt (low.length + cut.length + i))).entry) t
    ({ u with count := u.count - cut.length } : Stack ω).Layout (below ++ kept) (low ++ high.map f) ∧
      u.capacity = s.capacity ∧ u.objects = t.objects ∧ u.limit = t.limit := by
  intro u
  have hcutpos := List.length_pos_iff.2 hcut
  have stop := h.top_eq
  have scount := h.count_eq
  have room := h.room
  simp only [List.length_append] at stop scount
  simp only [bottom, entrySize, scount] at room
  have tcapacity : t.capacity = s.capacity := by simp [capacity, hmemory]
  have slotAt_t (i : Nat) (hi : i < s.count) : t.slotAt i = s.slotAt i :=
    h.slotAt_moveDown hmemory hi
  have slotAt_high (i : Nat) (hi : i < high.length) :
      s.slotAt (low.length + cut.length + i) = high[i] := by
    rw [h.index _ (by simp only [List.length_append]; omega),
      List.getElem_append_right (by simp only [List.length_append]; omega)]
    congr 1
    simp only [List.length_append]
    omega
  have he' (i : Nat) (hi : i < high.length) :
      (f (t.slotAt (low.length + cut.length + i))).Encodable := by
    rw [slotAt_t _ (by omega), slotAt_high i hi]
    exact he _ (List.getElem_mem hi)
  have tables : t.top + (low.length + cut.length + high.length) * entrySize ≤ t.capacity := by
    rw [tcapacity, htop]
    simp only [entrySize]
    omega
  have done := repointed_foldl (Nat.lt_add_of_pos_right hcutpos) tables he'
  obtain ⟨memory, -, eq⟩ := foldl_writeEntry_eq (List.range high.length)
    (fun _ i => low.length + i) (fun t i => (f (t.slotAt (low.length + cut.length + i))).entry) t
  -- The loop writes to memory alone; from here on only what `Repointed` says of it is used.
  have hu : u = { t with memory } := eq
  have ucount : u.count = s.count := by rw [hu, hcount]
  replace done : Repointed t (low.length + cut.length) low.length high.length f u := done
  refine ⟨?_, by rw [done.capacity_eq, tcapacity], by rw [hu], by rw [hu]⟩
  clear_value u
  have utop : u.top = below.length + kept.length := by
    rw [done.top_eq, htop]
    omega
  refine ⟨by simpa using utop, ?_, ?_, fun i hi => ?_, fun slot hslot => ?_, ?_⟩
  · simp only [List.length_append, List.length_map]
    omega
  · have start : u.top = t.top := done.top_eq
    show Memory.region u.memory 0 u.top = below ++ kept
    rw [start, done.arena_eq, ← start, utop, hmemory]
    exact h.region_moveDown
  · have hi' : i < low.length + high.length := by simpa using hi
    show u.slotAt i = _
    rw [done.slotAt_eq i (by rw [tcapacity, htop]; simp only [entrySize]; omega)]
    by_cases hlow : i < low.length
    · rw [if_neg (by omega), List.getElem_append_left hlow, slotAt_t i (by omega),
        h.index i (by simp only [List.length_append]; omega),
        List.getElem_append_left (by simp only [List.length_append]; omega),
        List.getElem_append_left hlow]
    · rw [if_pos (by omega), List.getElem_append_right (by omega), List.getElem_map,
        slotAt_t _ (by omega), slotAt_high _ (by omega)]
  · rcases List.mem_append.1 hslot with hslot | hslot
    · exact h.encodable slot (by simp [hslot])
    · obtain ⟨slot, hmem, rfl⟩ := List.mem_map.1 hslot
      exact he slot hmem
  · show u.top + (u.count - cut.length) * entrySize ≤ u.capacity
    rw [utop, done.capacity_eq, tcapacity, ucount, scount]
    simp only [entrySize]
    omega

end Stack

end ParserMachine
