import ParserMachine.Proofs.Stack.Cells
import ParserMachine.Proofs.Yields

/-!
# What the operations of a stack do to its cells

One theorem for each operation that changes a stack, in terms of the cells that it stands for:
pushing adds a cell on top, popping takes one away, appending puts one list on top of another, and
dropping takes cells out of the middle. Pushing may find that the stack may not grow; the others
always answer, given the cells that they ask for.
-/

set_option autoImplicit false

namespace ParserMachine.Stack

open Cell (arenaOf objectsOf slotsFrom)

variable {ω : Type} {s t other : Stack ω} {cells pool : List (Cell ω)} {c : Cell ω}

/-! ### Creating -/

/-- A stack without slots, bytes and objects stands for no cells, whatever its memory holds. -/
theorem represents_of_empty (htop : s.top = 0) (hcount : s.count = 0) (hobjects : s.objects = #[])
    (hlimit : s.capacity ≤ s.limit) : s.Represents [] where
  layout := .empty htop hcount
  objects_eq := by simp [hobjects]
  sized c h := absurd h List.not_mem_nil
  capacity_le := hlimit

/-- A stack with memory of its own starts empty. -/
theorem represents_withCapacity (capacity : Nat) : (withCapacity capacity : Stack ω).Represents [] :=
  represents_of_empty rfl rfl rfl (by
    rw [withCapacity, Stack.capacity, Array.size_replicate]
    exact Nat.le_max_right _ _)

/-- A stack without memory starts empty. -/
theorem represents_new : (new : Stack ω).Represents [] := represents_withCapacity 0

/-- A stack in lent bytes starts empty, whatever these bytes are. -/
theorem represents_ofScratch (scratch : Array UInt8) :
    (ofScratch scratch : Stack ω).Represents [] :=
  represents_of_empty rfl rfl rfl (Nat.le_max_right _ _)

namespace Represents

/-- Memory and limit may be replaced by others that hold the same. -/
theorem congr (h : s.Represents cells) (hmemory : t.memory = s.memory) (htop : t.top = s.top)
    (hcount : t.count = s.count) (hobjects : t.objects = s.objects)
    (hlimit : t.capacity ≤ t.limit) : t.Represents cells where
  layout := h.layout.congr hmemory htop hcount
  objects_eq := by rw [hobjects, h.objects_eq]
  sized := h.sized
  capacity_le := hlimit

/-- A stack may be given another limit: it never ends up below the memory that the stack has. -/
theorem withLimit (h : s.Represents cells) (limit : Nat) : (s.withLimit limit).Represents cells :=
  h.congr rfl rfl rfl rfl (Nat.le_max_right _ _)

/-- A copy of a stack stands for the same cells. -/
theorem clone (h : s.Represents cells) : s.clone.Represents cells :=
  h.congr rfl rfl rfl rfl h.capacity_le

/-! ### Pushing -/

/-- A stack that is moved to other memory stands for the same cells, if all its bytes fit in there. -/
theorem moved (h : s.Represents cells) {capacity : Nat} (hc : s.top + s.bottom ≤ capacity)
    (hlimit : capacity ≤ s.limit) : (s.moved capacity).Represents cells := by
  obtain ⟨layout, size⟩ := h.layout.moved hc
  exact ⟨layout, h.objects_eq, h.sized, by rw [size]; exact hlimit⟩

/-- Room is made without touching the cells. -/
theorem reserve (h : s.Represents cells) (extra : Nat) :
    Fits (s.reserve extra) fun t =>
      t.Represents cells ∧ t.top + t.bottom + extra ≤ t.capacity := by
  have room := h.layout.room
  -- Whatever the new capacity is, between what is needed and the limit: the two ways to grow differ
  -- in nothing else.
  have grown (capacity : Nat) (hc : s.top + s.bottom + extra ≤ capacity) (hl : capacity ≤ s.limit) :
      (s.moved capacity).Represents cells ∧
        (s.moved capacity).top + (s.moved capacity).bottom + extra ≤ (s.moved capacity).capacity := by
    refine ⟨h.moved (by omega) hl, ?_⟩
    rw [(h.layout.moved (by omega)).2]
    exact hc
  rw [Stack.reserve]
  by_cases hfits : s.top + s.bottom + extra ≤ s.capacity
  · rw [if_pos hfits]
    exact ⟨h, hfits⟩
  · have enough : s.top + s.bottom + extra ≤
        doubled (s.top + s.bottom + extra) (max s.capacity firstCapacity) :=
      le_doubled (Nat.lt_of_lt_of_le (by decide) (Nat.le_max_right _ _))
    rw [if_neg hfits]
    by_cases hlimit : doubled (s.top + s.bottom + extra) (max s.capacity firstCapacity) ≤ s.limit
    · simp only [if_pos hlimit]
      exact grown _ enough hlimit
    · by_cases hneeded : s.limit < s.top + s.bottom + extra
      · simp only [if_neg hlimit, if_pos hneeded]
        exact hneeded
      · simp only [if_neg hlimit, if_neg hneeded]
        exact grown s.limit (by omega) (Nat.le_refl _)

/-- A cell is added on top, where there is room for it. -/
theorem add (h : s.Represents cells) (hc : c.Sized) {slot : Slot} (he : slot.Encodable)
    (hslot : slot = c.slot (arenaOf cells).length (objectsOf cells).length)
    (room : s.top + s.bottom + (c.payload.length + entrySize) ≤ s.capacity)
    (hmemory : t.memory = ((s.addBytes c.payload).addEntry slot.entry).memory)
    (htop : t.top = s.top + c.payload.length) (hcount : t.count = s.count + 1)
    (hobjects : t.objects.toList = s.objects.toList ++ objectsOf [c]) (hlimit : t.limit = s.limit) :
    t.Represents (cells ++ [c]) := by
  -- The payload first, then the entry: there is room for the entry once the payload has taken its own.
  have room' : (s.addBytes c.payload).top + (s.addBytes c.payload).bottom + entrySize ≤
      (s.addBytes c.payload).capacity := by
    simp only [bottom, capacity_addBytes, top_addBytes, count_addBytes] at room ⊢
    omega
  have payloadRoom : s.top + s.bottom + c.payload.length ≤ s.capacity := by omega
  have written := (h.layout.addBytes payloadRoom).addEntry he room'
  have hcapacity : t.capacity = s.capacity := by
    rw [capacity, hmemory]
    exact (capacity_addEntry _).trans (capacity_addBytes _)
  refine ⟨?_, ?_, fun d hd => ?_, ?_⟩
  · rw [Cell.slotsFrom_append, Cell.arenaOf_append, Nat.zero_add, Nat.zero_add]
    simp only [Cell.slotsFrom, Cell.arenaOf_cons, Cell.arenaOf_nil, List.append_nil, ← hslot]
    exact written.congr hmemory (by simpa using htop) (by simpa using hcount)
  · rw [hobjects, h.objects_eq, Cell.objectsOf_append]
  · rcases List.mem_append.1 hd with hd | hd
    · exact h.sized d hd
    · rw [List.mem_singleton.1 hd]
      exact hc
  · rw [hcapacity, hlimit]
    exact h.capacity_le

end Represents

/-- Encoding a slot answers with its entry, or the slot lies too far up. -/
theorem fits_encode? (slot : Slot) :
    Fits slot.encode? fun entry => slot.Encodable ∧ entry = slot.entry := by
  cases h : slot.encode? with
  | ok entry => exact Slot.encode?_eq_ok_iff.1 h
  | error fault =>
    cases slot with
    | inline place | object place =>
      rw [Slot.encode?] at h
      split at h
      · contradiction
      · next large =>
        cases h
        exact Nat.le_of_not_lt large

/-- Pushes a cell: its arena bytes, its object, and its index entry. All pushing comes to this. -/
def pushCell (s : Stack ω) (c : Cell ω) : Except Fault (Stack ω) := do
  let s ← s.reserve (c.payload.length + entrySize)
  let entry ← (c.slot s.top s.objects.size).encode?
  return { (s.addBytes c.payload).addEntry entry with objects := c.withObject s.objects }

/-- A push of a value is a push of its cell. -/
theorem push_eq {α : Type} [Inline α] (s : Stack ω) (a : α) : s.push a = s.pushCell (.ofValue a) := by
  have size : (Cell.ofValue a : Cell ω).payload.length = Inline.size α + headerSize := by
    simp [Cell.payload_ofValue, payload, Inline.length_encode, headerSize]
  rw [push, pushCell, size, Cell.payload_ofValue]
  simp only [Cell.slot, Cell.ofValue, Inline.length_encode]
  refine bind_congr fun t => bind_congr fun entry => ?_
  have kept : ((t.addBytes (payload a)).addEntry entry).objects = t.objects := by simp
  rw [Cell.withObject, ← kept]

/-- A push of an object is a push of its cell. -/
theorem pushObject_eq (s : Stack ω) (o : ω) : s.pushObject o = s.pushCell (.object o) := by
  rw [pushObject, pushCell, Cell.payload, List.length_nil, Nat.zero_add]
  simp only [addBytes_nil, Cell.slot, Cell.withObject, objects_addEntry]

namespace Represents

/-- A cell is pushed, if the stack may grow for it and an index entry can tell where it lies. -/
theorem pushCell (h : s.Represents cells) (hc : c.Sized) :
    Fits (s.pushCell c) (·.Represents (cells ++ [c])) := by
  refine (h.reserve _).bind ?_
  rintro t ⟨ht, room⟩
  have place : c.slot t.top t.objects.size =
      c.slot (arenaOf cells).length (objectsOf cells).length := by
    rw [ht.top_eq, ht.objects_size]
  refine (fits_encode? _).bind ?_
  rintro entry ⟨he, hentry⟩
  subst hentry
  rw [Yields.pure_iff]
  apply ht.add hc he place room
  · dsimp only
  · simp
  · simp
  · exact Cell.toList_withObject c _
  · simp

/-- A value that is pushed comes on top of the others, unless the stack overflows. -/
theorem push {α : Type} [Inline α] (h : s.Represents cells) (a : α) :
    Fits (s.push a) (·.Represents (cells ++ [Cell.ofValue a])) := by
  rw [push_eq]
  exact h.pushCell (Cell.sized_ofValue a)

/-- An object that is pushed comes on top of the others, unless the stack overflows. -/
theorem pushObject (h : s.Represents cells) (o : ω) :
    Fits (s.pushObject o) (·.Represents (cells ++ [.object o])) := by
  rw [pushObject_eq]
  exact h.pushCell (Cell.sized_object o)

/-- To push a slot of another stack is to push the cell that it is. -/
theorem pushFrom_eq (ho : other.Represents pool) {i : Nat} (hc : pool[i]? = some c) (s : Stack ω) :
    s.pushFrom other i = s.pushCell c := by
  obtain ⟨below, above, rfl, rfl⟩ := exists_split hc
  rw [Stack.pushFrom, ho.slot?_eq]
  cases c with
  | object o =>
    have raw := ho.rawObject?_eq below.length
    rw [rawObject?, ho.slot?_eq, hc] at raw
    simp only [Cell.slot] at raw ⊢
    rw [raw]
    exact pushObject_eq s o
  | inline tag bytes =>
    obtain ⟨-, hsize, -⟩ := ho.region_inline
    have whole := ho.region_payload
    have size : (Cell.payload (.inline tag bytes : Cell ω)).length = bytes.length + headerSize := by
      simp [Cell.payload, headerSize]
    rw [size] at whole
    simp only [Cell.slot, hsize, Nat.add_sub_cancel, whole]
    rw [Stack.pushCell, size]
    refine bind_congr fun t => bind_congr fun entry => ?_
    -- A value in the bytes leaves the objects as they are.
    have kept : ((t.addBytes (Cell.inline tag bytes : Cell ω).payload).addEntry entry).objects =
        t.objects := by simp
    rw [Cell.withObject, ← kept]

/-- A slot of another stack is pushed as the cell that it is there, unless the stack overflows. -/
theorem pushFrom (h : s.Represents cells) (ho : other.Represents pool) {i : Nat}
    (hc : pool[i]? = some c) : Fits (s.pushFrom other i) (·.Represents (cells ++ [c])) := by
  rw [ho.pushFrom_eq hc]
  exact h.pushCell (ho.sized c (List.mem_of_getElem? hc))

end Represents

/-- The slot with the given index, counted from the bottom, stands for the cell. -/
def HasAt (s : Stack ω) (index : Nat) (c : Cell ω) : Prop :=
  ∃ cells, s.Represents cells ∧ cells[index]? = some c

namespace HasAt

variable {i : Nat}

/-- The value of a slot is that of its cell. -/
theorem get?_eq {α : Type} [Inline α] (h : s.HasAt i c) : (s.get? i : Option α) = c.value? := by
  obtain ⟨cells, hs, hc⟩ := h
  rw [hs.get?_eq, hc]
  rfl

/-- The object of a slot is that of its cell. -/
theorem object?_eq {α : Type} [Boxed ω α] (h : s.HasAt i c) : (s.object? i : Option α) = c.boxed? := by
  obtain ⟨cells, hs, hc⟩ := h
  rw [hs.object?_eq, hc]
  rfl

/-- A cell that lies on a stack fits its header, as it was pushed there once. -/
theorem sized (h : s.HasAt i c) : c.Sized := by
  obtain ⟨cells, hs, hc⟩ := h
  exact hs.sized c (List.mem_of_getElem? hc)

/-- A slot of another stack is pushed by its cell alone: how it lies in the other's memory makes no
difference. -/
theorem pushFrom_eq (h : other.HasAt i c) (s : Stack ω) : s.pushFrom other i = s.pushCell c := by
  obtain ⟨cells, hother, hc⟩ := h
  exact hother.pushFrom_eq hc s

end HasAt

/-- There is no pushing of a slot that is not there. -/
theorem pushFrom_eq_error (ho : other.Represents pool) {i : Nat} (hi : pool.length ≤ i) :
    s.pushFrom other i = .error (.corrupted .slotPastTop) := by
  rw [Stack.pushFrom, ho.slot?_eq_none hi]

/-- Entries written one after the other, where there is room for all of them. -/
theorem Layout.addEntries {bytes : List UInt8} {slots : List Slot} (h : s.Layout bytes slots)
    (slot : Nat → Slot) {n : Nat} (room : s.top + s.bottom + n * entrySize ≤ s.capacity) :
    Fits ((List.range n).foldlM (fun (s : Stack ω) i => do
        let entry ← (slot i).encode?
        return s.addEntry entry) s) fun t =>
      t.Layout bytes (slots ++ (List.range n).map slot) ∧
        t.capacity = s.capacity ∧ t.objects = s.objects ∧ t.limit = s.limit := by
  induction n with
  | zero => exact ⟨by simpa using h, rfl, rfl, rfl⟩
  | succ n ih =>
    rw [List.range_succ, List.foldlM_append]
    refine (ih (by simp only [entrySize] at *; omega)).bind ?_
    rintro t ⟨ht, hcapacity, hobjects, hlimit⟩
    simp only [List.foldlM_cons, List.foldlM_nil, bind_pure]
    refine (fits_encode? _).bind ?_
    rintro entry ⟨he, hentry⟩
    subst hentry
    -- The entries written so far have come out of the room that was there at first.
    have troom : t.top + t.bottom + entrySize ≤ t.capacity := by
      have hn : t.count = s.count + n := by simp [ht.count_eq, h.count_eq]
      rw [hcapacity, ht.top_eq, ← h.top_eq]
      simp only [bottom, hn, entrySize] at room ⊢
      omega
    have done := ht.addEntry he troom
    rw [List.append_assoc, ← List.map_singleton, ← List.map_append] at done
    exact ⟨done, by simp [hcapacity], by simp [hobjects], by simp [hlimit]⟩

namespace Represents

/-- The cells of another stack are put on top. -/
theorem append (h : s.Represents cells) (ho : other.Represents pool) :
    Fits (s.append other) (·.Represents (cells ++ pool)) := by
  refine (h.reserve _).bind ?_
  rintro t ⟨ht, room⟩
  have hbytes : Memory.region other.memory 0 other.top = arenaOf pool := ho.layout.arena
  have hlength : (arenaOf pool).length = other.top := ho.top_eq.symm
  simp only [hbytes]
  have arenaRoom : t.top + t.bottom + (arenaOf pool).length ≤ t.capacity := by omega
  have written := ht.layout.addBytes arenaRoom
  have hroom : (t.addBytes (arenaOf pool)).top + (t.addBytes (arenaOf pool)).bottom +
      other.count * entrySize ≤ (t.addBytes (arenaOf pool)).capacity := by
    simp only [bottom, capacity_addBytes, top_addBytes, count_addBytes] at room ⊢
    omega
  refine (written.addEntries _ hroom).bind ?_
  rintro u ⟨hu, hcapacity, hobjects, hlimit⟩
  -- The slots of the other stack are counted from where its bytes and objects come to lie.
  have raised : (List.range other.count).map
      (fun i => (other.slotAt i).raised t.top t.objects.size) =
        slotsFrom (arenaOf cells).length (objectsOf cells).length pool := by
    have own : (List.range other.count).map other.slotAt = slotsFrom 0 0 pool := by
      refine List.ext_getElem (by simp [ho.count_eq]) ?_
      intro i _ hi
      rw [List.getElem_map, List.getElem_range, ho.layout.index i hi]
    calc (List.range other.count).map (fun i => (other.slotAt i).raised t.top t.objects.size)
        = ((List.range other.count).map other.slotAt).map (Slot.raised t.top t.objects.size) := by
          rw [List.map_map]
          rfl
      _ = slotsFrom (0 + t.top) (0 + t.objects.size) pool := by
          rw [own, Cell.map_raised_slotsFrom]
      _ = slotsFrom (arenaOf cells).length (objectsOf cells).length pool := by
          rw [ht.top_eq, ht.objects_size, Nat.zero_add, Nat.zero_add]
  rw [raised] at hu
  refine ⟨?_, ?_, fun c hc => ?_, ?_⟩
  · rw [Cell.slotsFrom_append, Cell.arenaOf_append, Nat.zero_add, Nat.zero_add]
    exact hu.congr rfl rfl rfl
  · show (u.objects ++ other.objects).toList = _
    rw [hobjects, Array.toList_append, ho.objects_eq, objects_addBytes, ht.objects_eq,
      Cell.objectsOf_append]
  · rcases List.mem_append.1 hc with hc | hc
    · exact h.sized c hc
    · exact ho.sized c hc
  · show u.capacity ≤ u.limit
    rw [hcapacity, hlimit, capacity_addBytes, limit_addBytes]
    exact ht.capacity_le

/-! ### Popping -/

/-- The slots and bytes of the lower cells are those of the whole stack, as far as they go. -/
theorem lower (h : s.Represents (cells ++ [c])) (htop : t.top = (arenaOf cells).length)
    (hcount : t.count = cells.length) (hmemory : t.memory = s.memory)
    (hobjects : t.objects.toList = objectsOf cells) (hlimit : t.limit = s.limit) :
    t.Represents cells := by
  have stop := h.top_eq
  have scount := h.count_eq
  have room := h.layout.room
  simp only [Cell.arenaOf_append, List.length_append, List.length_singleton] at stop scount
  have hcapacity : t.capacity = s.capacity := by rw [capacity, hmemory, capacity]
  refine ⟨⟨htop, by rw [hcount, Cell.length_slotsFrom], ?_, fun i hi => ?_, fun slot hslot => ?_, ?_⟩,
    hobjects, fun d hd => h.sized d (List.mem_append_left _ hd), ?_⟩
  -- The lower bytes are a front of the whole arena, as long as the shortened one.
  · have whole := h.layout.arena
    rw [stop, Memory.region_append, Cell.arenaOf_append] at whole
    rw [hmemory, htop]
    refine (List.append_inj whole (Memory.length_region ?_)).1
    unfold capacity at room
    omega
  · have hi' : i < cells.length := by simpa using hi
    rw [slotAt_eq_of_memory_eq hmemory, h.layout.index i (by simp; omega)]
    simp only [Cell.slotsFrom_append]
    rw [List.getElem_append_left hi]
  · exact h.layout.encodable slot (by rw [Cell.slotsFrom_append]; exact List.mem_append_left _ hslot)
  · simp only [bottom, htop, hcount, hcapacity] at room ⊢
    rw [stop, scount] at room
    simp only [entrySize] at room ⊢
    omega
  · rw [hcapacity, hlimit]
    exact h.capacity_le

/-- The top cell is taken away. -/
theorem pop (h : s.Represents (cells ++ [c])) : ∃ t, s.pop = .ok t ∧ t.Represents cells := by
  have index : s.indexOf? 0 = some cells.length := by
    rw [h.indexOf?_eq]
    simp
  have stop := h.top_eq
  rw [Stack.pop, index]
  simp only [h.slotAt_eq]
  -- Which mark the top goes back to is told by the kind of the slot.
  cases c with
  | object o =>
    have size := h.objects_size
    have list := h.objects_eq
    simp only [Cell.objectsOf_append, Cell.objectsOf_object, List.length_append,
      List.length_singleton] at size list
    simp only [Cell.slot, size, if_true]
    refine ⟨_, rfl, h.lower (by simpa [Cell.payload] using stop) rfl rfl ?_ rfl⟩
    rw [Array.toList_pop, list, List.dropLast_concat]
  | inline tag bytes =>
    obtain ⟨-, hsize, -⟩ := h.region_inline
    have place : (arenaOf cells).length + bytes.length + headerSize = s.top := by
      rw [stop]
      simp [Cell.payload, headerSize]
      omega
    simp only [Cell.slot, hsize, place, if_true]
    refine ⟨_, rfl, h.lower (Nat.add_sub_cancel _ _) rfl rfl ?_ rfl⟩
    simpa using h.objects_eq

/-- There is nothing to pop from an empty stack. -/
theorem pop_nil (h : s.Represents []) : s.pop = .error (.corrupted .popOnEmpty) := by
  rw [Stack.pop, h.indexOf?_eq]
  rfl

/-! ### Dropping from the middle -/

/-- The mark below a slot is the number of arena bytes of the cells below it. -/
theorem arenaBelow_eq {low high : List (Cell ω)} (h : s.Represents (low ++ high)) :
    s.arenaBelow low.length = (arenaOf low).length := by
  -- On the cells below, from the top one down, as the mark is searched: an object slot has none.
  induction low using List.reverseRecOn generalizing high with
  | nil => rfl
  | append_singleton low c ih =>
    rw [List.append_assoc, List.singleton_append] at h
    rw [List.length_append, List.length_singleton, arenaBelow, h.slotAt_eq]
    cases c with
    | inline tag bytes =>
      simp [Cell.slot, Cell.payload, headerSize]
      omega
    | object o => simpa [Cell.slot, Cell.payload] using ih h

/-- The objects of the lowest slots are counted from the index entries, and are those of the lowest
cells. -/
theorem objectsBelow_eq {low high : List (Cell ω)} (h : s.Represents (low ++ high)) :
    s.objectsBelow low.length = (objectsOf low).length := by
  induction low using List.reverseRecOn generalizing high with
  | nil => rfl
  | append_singleton low c ih =>
    rw [List.append_assoc, List.singleton_append] at h
    rw [List.length_append, List.length_singleton, objectsBelow, h.slotAt_eq]
    cases c with
    | inline tag bytes => simpa [Cell.slot] using ih h
    | object o => simp [Cell.slot]

/-- Cells are taken out of the middle. -/
theorem dropUnder {low cut high : List (Cell ω)} (h : s.Represents (low ++ cut ++ high)) :
    ∃ t, s.dropUnder high.length cut.length = .ok t ∧ t.Represents (low ++ high) := by
  by_cases hcut : cut = []
  · subst hcut
    exact ⟨s, by simp [Stack.dropUnder], by simpa using h⟩
  have hpos := List.length_pos_iff.2 hcut
  have scount := h.count_eq
  have stop := h.top_eq
  have ssize := h.objects_size
  have slist := h.objects_eq
  simp only [List.length_append, Cell.arenaOf_append, Cell.objectsOf_append] at scount stop ssize slist
  -- The two ends of the piece, in slots, in bytes and in objects.
  have keptPlace : s.count - high.length = (low ++ cut).length := by simp; omega
  have dropPlace : (low ++ cut).length - cut.length = low.length := by simp
  have byteMid := h.arenaBelow_eq
  have objectMid := h.objectsBelow_eq
  have lowest : s.Represents (low ++ (cut ++ high)) := by simpa using h
  have byteLow := lowest.arenaBelow_eq
  have objectLow := lowest.objectsBelow_eq
  have few := h.length_lt
  simp only [List.length_append] at few
  rw [Stack.dropUnder, if_neg (by omega), if_neg (by omega), if_neg (by omega)]
  simp only [keptPlace, dropPlace, byteMid, objectMid, byteLow, objectLow]
  have bytesCut : (arenaOf (low ++ cut)).length - (arenaOf low).length = (arenaOf cut).length := by simp
  have objectsCut : (objectsOf (low ++ cut)).length - (objectsOf low).length =
      (objectsOf cut).length := by simp
  rw [bytesCut, objectsCut]
  refine ⟨_, rfl, ?_⟩
  -- The tables of the three lists, one above the other.
  have layout := h.layout
  simp only [Cell.slotsFrom_append, Cell.arenaOf_append, Cell.objectsOf_append, List.length_append,
    Nat.zero_add] at layout
  -- Lowered slots are no larger than they were, so that they can still be encoded.
  have encodable : ∀ slot ∈ slotsFrom ((arenaOf low).length + (arenaOf cut).length)
      ((objectsOf low).length + (objectsOf cut).length) high,
      (slot.lowered (arenaOf cut).length (objectsOf cut).length).Encodable := by
    intro slot hslot
    have old := layout.encodable slot (List.mem_append_right _ hslot)
    cases slot with
    | inline header => exact Nat.lt_of_le_of_lt (Nat.sub_le _ _) old
    | object index => exact Nat.lt_of_le_of_lt (Nat.sub_le _ _) old
  have objectsLeft : (s.objects.extract 0 (objectsOf low).length ++
      s.objects.extract (objectsOf (low ++ cut)).length).toList = objectsOf (low ++ high) := by
    rw [Array.toList_append, Array.toList_extract, Array.toList_extract, slist]
    simp [ssize, List.extract_eq_take_drop]
  have slid := layout.slide (t := { s with
      memory := Memory.moveDown s.memory (arenaOf (low ++ cut)).length (arenaOf low).length
        (s.top - (arenaOf (low ++ cut)).length)
      top := s.top - (arenaOf cut).length
      objects := s.objects.extract 0 (objectsOf low).length ++
        s.objects.extract (objectsOf (low ++ cut)).length }) (f := Slot.lowered _ _)
    (by simpa [← List.length_pos_iff] using hpos) encodable rfl rfl (by simp [stop])
  simp only [Cell.length_slotsFrom, Cell.map_lowered_slotsFrom] at slid
  rw [List.length_append]
  obtain ⟨slidLayout, slidCapacity, slidObjects, slidLimit⟩ := slid
  refine ⟨?_, ?_, fun c hc => h.sized c ?_, ?_⟩
  · rw [Cell.arenaOf_append low high, Cell.slotsFrom_append 0 0 low high, Nat.zero_add, Nat.zero_add]
    exact slidLayout
  · exact (congrArg Array.toList slidObjects).trans objectsLeft
  · simp only [List.mem_append] at hc ⊢
    tauto
  · refine Nat.le_trans (Nat.le_of_eq slidCapacity) (Nat.le_trans h.capacity_le ?_)
    exact Nat.le_of_eq slidLimit.symm

end Represents

end ParserMachine.Stack
