import ParserMachine.Proofs.Stack.Refinement

/-!
# Pushing step by step

`Stack.push` and its kin answer with a stack or with a fault, and of a push that faults there is nothing
left to be told. In memory a push is done in steps: room is made, bytes are written one run after the
other, marks are moved, an entry is encoded and written. A step that is refused leaves what the steps before
it have done. `Steps` is that: a fault comes with the stack as it is by then, and every read and every write
is refused unless it lies inside the memory.

`Steps.AmountsTo` says that the steps come to what the change tells at once. Where they are refused for want
of room, they have not touched the stack. A slot that no index entry can tell is found out later, after its
bytes have been written. That is the one fault that leaves a stack half pushed on.

`Call.inSteps` is a call on a stack whose pushes are done in steps. `Reachable` are the families of stacks
that such calls lead to, as long as none of them is left half pushed on.
-/

set_option autoImplicit false

namespace ParserMachine

/-- What was written in two pieces, the second behind the first, was written at once. -/
theorem Memory.overwrite_append {α : Type} (memory : Array α) (place : Nat) (run more : List α) :
    overwrite memory place (run ++ more) =
      overwrite (overwrite memory place run) (place + run.length) more := by
  induction run generalizing memory place with
  | nil => rfl
  | cons a run ih =>
    rw [List.cons_append, overwrite, overwrite, ih, List.length_cons]
    congr 1
    omega

/-- The fault of a slot whose place no index entry can tell. -/
def Fault.IsOutOfRange : Fault → Prop
  | offsetOutOfRange _ | objectOutOfRange _ => True
  | _ => False

namespace Stack

variable {ω α : Type}

/-- A computation on a stack in steps. A fault comes with the stack as the steps before it left it. -/
abbrev Steps (ω α : Type) : Type := EStateM Fault (Stack ω) α

namespace Steps

/-! ### The steps -/

/-- Writes bytes at a place. -/
def write (place : Nat) (bytes : List UInt8) : Steps ω Unit := do
  let s ← get
  if place + bytes.length ≤ s.capacity then
    set { s with memory := Memory.overwrite s.memory place bytes }
  else throw .rangeOutside

/-- The bytes of another stack at a place. -/
def read (other : Stack ω) (place size : Nat) : Steps ω (List UInt8) :=
  if place + size ≤ other.capacity then return Memory.region other.memory place size
  else throw .rangeOutside

/-- The slot of another stack, read from its index entry. -/
def slot (other : Stack ω) (index : Nat) : Steps ω Slot :=
  if other.count ≤ index then throw (.corrupted .slotPastTop)
  else if other.capacity < (index + 1) * entrySize then throw .rangeOutside
  else return other.slotAt index

/-- Moves the arena to the front and the index to the end of fresh bytes, each of which must be as long. -/
def move (capacity : Nat) : Steps ω Unit := do
  let s ← get
  if s.top ≤ min capacity s.capacity ∧ s.bottom ≤ min capacity s.capacity then
    let arena := Memory.region s.memory 0 s.top
    let index := Memory.region s.memory (s.capacity - s.bottom) s.bottom
    let fresh := Memory.overwrite (Array.replicate capacity 0) 0 arena
    set { s with memory := Memory.overwrite fresh (capacity - s.bottom) index, borrowed := false }
  else throw .rangeOutside

/-- Doubles the bytes until there are as many as needed, but not past the limit. -/
def grow (needed : Nat) : Steps ω Unit := do
  let s ← get
  let wanted := doubled needed (max s.capacity firstCapacity)
  if wanted ≤ s.limit then move wanted
  else if s.limit < needed then throw (.stackOverflow needed s.limit)
  else move s.limit

/-- Makes room for further bytes. -/
def reserve (extra : Nat) : Steps ω Unit := do
  let s ← get
  let needed := s.top + s.bottom + extra
  if needed ≤ s.capacity then pure () else grow needed

/-- The index entry of a slot. -/
def encode (slot : Slot) : Steps ω Nat :=
  match slot.encode? with
  | .ok entry => pure entry
  | .error fault => throw fault

/-- Writes the index entry of one more slot. -/
def addEntry (entry : Nat) : Steps ω Unit := do
  let s ← get
  if s.capacity < (s.count + 1) * entrySize then throw .rangeOutside
  else
    write (s.entryPlace s.count) (LittleEndian.encode 4 entry)
    modify fun s => { s with count := s.count + 1 }

/-- Pushes a value inline: the value, its size, its tag, and the entry that tells where they lie. -/
def push [Inline α] (a : α) : Steps ω Unit := do
  let size := Inline.size α
  reserve (size + headerSize + entrySize)
  let place := (← get).top
  write place (Inline.encode a)
  let header := place + size
  write header (LittleEndian.encode 4 size)
  write (header + 4) (LittleEndian.encode 4 (Inline.tag α).code)
  modify fun s => { s with top := header + headerSize }
  addEntry (← encode (.inline header))

/-- Pushes an object: the object, and the entry that tells which it is. -/
def pushObject (o : ω) : Steps ω Unit := do
  reserve entrySize
  let index := (← get).objects.size
  modify fun s => { s with objects := s.objects.push o }
  addEntry (← encode (.object index))

/-- Pushes a slot of another stack. -/
def pushFrom (other : Stack ω) (index : Nat) : Steps ω Unit := do
  match ← slot other index with
  | .object i =>
    match other.objects[i]? with
    | none => throw (.corrupted .objectPastList)
    | some o => pushObject o
  | .inline header =>
    let size := LittleEndian.decode (← read other header 4)
    reserve (size + headerSize + entrySize)
    let place := (← get).top
    if header < size then throw .rangeOutside
    else
      let bytes ← read other (header - size) (size + headerSize)
      write place bytes
      modify fun s => { s with top := place + (size + headerSize) }
      addEntry (← encode (.inline (place + size)))

/-- Pushes all slots of another stack: its arena, its entries one by one, and its objects. -/
def append (other : Stack ω) : Steps ω Unit := do
  reserve (other.top + other.bottom)
  let bytes := (← get).top
  let objects := (← get).objects.size
  write bytes (← read other 0 other.top)
  modify fun s => { s with top := s.top + other.top }
  (List.range other.count).forM fun i => do
    let entry ← encode ((← slot other i).raised bytes objects)
    addEntry entry
  modify fun s => { s with objects := s.objects ++ other.objects }

/-! ### Going through them -/

variable {β : Type} {s t u other : Stack ω} {cells pool : List (Cell ω)} {x : Steps ω α}
  {f : α → Steps ω β}

/-- A step that answers is followed by the next one, on the stack that it left. -/
theorem bind_of_ok {a : α} (h : x s = .ok a t) : (x >>= f) s = f a t := by
  show EStateM.bind x f s = _
  rw [EStateM.bind, h]

/-- A step that fails is followed by none, and leaves the stack as it was at that moment. -/
theorem bind_of_error {fault : Fault} (h : x s = .error fault t) :
    (x >>= f) s = .error fault t := by
  show EStateM.bind x f s = _
  rw [EStateM.bind, h]

/-- Bytes that lie inside the memory are written; the check does not refuse them. -/
theorem write_eq {place : Nat} {bytes : List UInt8} (h : place + bytes.length ≤ s.capacity) :
    write place bytes s = .ok () { s with memory := Memory.overwrite s.memory place bytes } := by
  show (if place + bytes.length ≤ s.capacity then
    (set { s with memory := Memory.overwrite s.memory place bytes } : Steps ω Unit)
    else throw .rangeOutside) s = _
  rw [if_pos h]
  rfl

/-- Bytes that lie inside the memory of another stack are read; the check does not refuse them. -/
theorem read_eq {place size : Nat} (h : place + size ≤ other.capacity) :
    read other place size s = .ok (Memory.region other.memory place size) s := by
  rw [read, if_pos h]
  rfl

/-- Where the two tables do not meet, nothing of them is lost in fresh bytes. -/
theorem move_eq {capacity : Nat} (room : s.top + s.bottom ≤ s.capacity)
    (enough : s.top + s.bottom ≤ capacity) : move capacity s = .ok () (s.moved capacity) := by
  have fits : s.top ≤ min capacity s.capacity ∧ s.bottom ≤ min capacity s.capacity := by omega
  have memory : Memory.overwrite
      (Memory.overwrite (Array.replicate capacity 0) 0 (Memory.region s.memory 0 s.top))
      (capacity - s.bottom) (Memory.region s.memory (s.capacity - s.bottom) s.bottom) =
        (s.moved capacity).memory := by
    have arena : (Memory.region s.memory 0 s.top).length = s.top :=
      Memory.length_region (by unfold Stack.capacity at room; omega)
    have index : (Memory.region s.memory (s.capacity - s.bottom) s.bottom).length = s.bottom :=
      Memory.length_region (by unfold Stack.capacity at *; omega)
    -- Byte by byte: each is of the arena, of the index, or one of the zeros between them.
    apply Array.ext_getElem?
    intro i
    rw [Memory.getElem?_overwrite, Memory.getElem?_overwrite, arena, index, Memory.getElem?_region,
      Memory.getElem?_region]
    simp only [Stack.moved, Array.getElem?_append, Array.size_append, Array.size_extract,
      Array.size_replicate, Array.getElem?_extract, Array.getElem?_replicate, Memory.size_overwrite]
    unfold Stack.capacity at *
    grind
  show (if s.top ≤ min capacity s.capacity ∧ s.bottom ≤ min capacity s.capacity then
    (set { s with
      memory := Memory.overwrite
        (Memory.overwrite (Array.replicate capacity 0) 0 (Memory.region s.memory 0 s.top))
        (capacity - s.bottom) (Memory.region s.memory (s.capacity - s.bottom) s.bottom)
      borrowed := false } : Steps ω Unit)
    else throw .rangeOutside) s = _
  rw [if_pos fits, memory]
  rfl

/-! ### What the steps amount to -/

/-- The steps come to what the change of the stack tells at once, and to the same fault. Unless that is about
a slot that no entry can tell, the stack is then as it was. -/
def AmountsTo (s : Stack ω) (x : EStateM.Result Fault (Stack ω) Unit) (y : Except Fault (Stack ω)) :
    Prop :=
  match y with
  | .ok t => x = .ok () t
  | .error fault => ∃ t, x = .error fault t ∧ (¬fault.IsOutOfRange → t = s)

/-- A change after another. What the second is refused for is out of range, if the stack has changed by
then. -/
theorem AmountsTo.bind {x : Steps ω Unit} {more : Unit → Steps ω Unit} {y : Except Fault (Stack ω)}
    {g : Stack ω → Except Fault (Stack ω)} (h : AmountsTo s (x u) y)
    (hmore : ∀ t, y = .ok t → AmountsTo s (more () t) (g t)) :
    AmountsTo s ((x >>= more) u) (y >>= g) := by
  cases y with
  | ok t =>
    have stepped : x u = .ok () t := h
    rw [bind_of_ok stepped]
    exact hmore t rfl
  | error fault =>
    obtain ⟨t, stepped, kept⟩ := h
    exact ⟨t, bind_of_error stepped, kept⟩

/-- Room is made, or the stack is left alone. -/
theorem amountsTo_reserve (h : s.Represents cells) (extra : Nat) :
    AmountsTo s (reserve extra s) (s.reserve extra) := by
  have room := h.layout.room
  by_cases fits : s.top + s.bottom + extra ≤ s.capacity
  · show AmountsTo s ((if s.top + s.bottom + extra ≤ s.capacity then pure () else grow _ : Steps ω Unit) s) _
    rw [Stack.reserve, if_pos fits, if_pos fits]
    exact rfl
  · have enough : s.top + s.bottom + extra ≤
        doubled (s.top + s.bottom + extra) (max s.capacity firstCapacity) :=
      le_doubled (Nat.lt_of_lt_of_le (by decide) (Nat.le_max_right _ _))
    show AmountsTo s ((if s.top + s.bottom + extra ≤ s.capacity then pure () else grow _ : Steps ω Unit) s) _
    rw [Stack.reserve, if_neg fits, if_neg fits]
    show AmountsTo s ((if _ ≤ s.limit then move _ else
      if s.limit < _ then throw _ else move s.limit : Steps ω Unit) s) _
    -- Memory is doubled as far as the limit lets it, or as large as the limit, or too small at that.
    by_cases wanted : doubled (s.top + s.bottom + extra) (max s.capacity firstCapacity) ≤ s.limit
    · simp only [if_pos wanted]
      exact move_eq room (by omega)
    · by_cases refused : s.limit < s.top + s.bottom + extra
      · simp only [if_neg wanted, if_pos refused]
        exact ⟨s, rfl, fun _ => rfl⟩
      · simp only [if_neg wanted, if_neg refused]
        exact move_eq room (by omega)

/-- An index entry for which there is room is written. -/
theorem addEntry_eq (room : s.top + s.bottom + entrySize ≤ s.capacity) (entry : Nat) :
    addEntry entry s = .ok () (s.addEntry entry) := by
  have inside : (s.count + 1) * entrySize ≤ s.capacity := by
    simp only [bottom, entrySize] at *
    omega
  have place : s.entryPlace s.count + (LittleEndian.encode 4 entry).length ≤ s.capacity := by
    simp only [entryPlace, entrySize, LittleEndian.length_encode] at *
    omega
  show (if s.capacity < (s.count + 1) * entrySize then throw .rangeOutside else
    (write (s.entryPlace s.count) (LittleEndian.encode 4 entry) >>= fun _ =>
      modify fun s => { s with count := s.count + 1 }) : Steps ω Unit) s = _
  rw [if_neg (Nat.not_lt.2 inside), bind_of_ok (write_eq place)]
  rfl

/-- A slot is encoded as before, and the stack is left alone. -/
theorem encode_eq (slot : Slot) (s : Stack ω) : encode slot s = match slot.encode? with
    | .ok entry => .ok entry s
    | .error fault => .error fault s := by
  rw [encode]
  cases slot.encode? <;> rfl

/-- A slot that cannot be encoded is out of the range of index entries; there is no other reason. -/
theorem isOutOfRange_of_encode? {slot : Slot} {fault : Fault} (h : slot.encode? = .error fault) :
    fault.IsOutOfRange := by
  cases slot with
  | inline place | object place =>
    rw [Slot.encode?] at h
    split at h
    · cases h
    · cases h
      trivial

/-- The last step of a push: the slot's entry, whatever has been written before. -/
theorem amountsTo_entry (room : u.top + u.bottom + entrySize ≤ u.capacity) (slot : Slot) :
    AmountsTo s ((encode slot >>= addEntry) u) (do return u.addEntry (← slot.encode?)) := by
  cases told : slot.encode? with
  | ok entry =>
    have stepped : encode slot u = .ok entry u := by rw [encode_eq, told]
    rw [bind_of_ok stepped]
    exact addEntry_eq room entry
  | error fault =>
    have stepped : encode slot u = .error fault u := by rw [encode_eq, told]
    exact ⟨u, bind_of_error stepped, fun within => absurd (isOutOfRange_of_encode? told) within⟩

/-- The entry of a slot whose bytes have been written behind the arena. -/
theorem amountsTo_entry_addBytes {bytes : List UInt8}
    (room : t.top + t.bottom + (bytes.length + entrySize) ≤ t.capacity) (slot : Slot) :
    AmountsTo s ((encode slot >>= addEntry) (t.addBytes bytes)) (do
      return (t.addBytes bytes).addEntry (← slot.encode?)) := by
  refine amountsTo_entry ?_ slot
  simp only [bottom, capacity_addBytes, top_addBytes, count_addBytes] at *
  omega

/-- A value, its size and its tag are written one behind the other. -/
theorem amountsTo_push [Inline α] (h : s.Represents cells) (a : α) :
    AmountsTo s (push a s) (s.push a) := by
  refine (amountsTo_reserve h _).bind ?_
  intro t ht
  obtain ⟨-, room⟩ := (h.reserve _).post_of_eq_ok ht
  have value : (Inline.encode a).length = Inline.size α := Inline.length_encode a
  have length : (payload a).length = Inline.size α + headerSize := by
    simp [payload, value, headerSize]
  have word (n : Nat) : (LittleEndian.encode 4 n).length = 4 := LittleEndian.length_encode 4 n
  -- The three writes are adjacent, so they come to one write of the whole payload.
  have pushed : { t with
      memory := Memory.overwrite (Memory.overwrite (Memory.overwrite t.memory t.top (Inline.encode a))
        (t.top + Inline.size α) (LittleEndian.encode 4 (Inline.size α)))
        (t.top + Inline.size α + 4) (LittleEndian.encode 4 (Inline.tag α).code)
      top := t.top + Inline.size α + headerSize } = t.addBytes (payload a) := by
    rw [addBytes, length, payload, Memory.overwrite_append, Memory.overwrite_append, value, word]
    simp only [Nat.add_assoc]
  show AmountsTo s ((write t.top _ >>= fun _ => write (t.top + _) _ >>= fun _ => write (t.top + _ + 4) _ >>=
    fun _ => modify _ >>= fun _ => encode _ >>= addEntry : Steps ω Unit) t) _
  simp only [headerSize, entrySize] at room
  rw [bind_of_ok (write_eq (by omega)),
    bind_of_ok (write_eq (by simp only [Stack.capacity, Memory.size_overwrite, word] at *; omega)),
    bind_of_ok (write_eq (by simp only [Stack.capacity, Memory.size_overwrite, word] at *; omega))]
  show AmountsTo s ((encode _ >>= addEntry) { t with memory := _, top := _ }) _
  rw [pushed]
  refine amountsTo_entry_addBytes ?_ _
  rw [length]
  exact room

/-- The object is put in its list before its entry is encoded. -/
theorem amountsTo_pushObject (h : s.Represents cells) (o : ω) :
    AmountsTo s (pushObject o s) (s.pushObject o) := by
  refine (amountsTo_reserve h _).bind ?_
  intro t ht
  obtain ⟨-, room⟩ := (h.reserve _).post_of_eq_ok ht
  exact amountsTo_entry (u := { t with objects := t.objects.push o }) room _

/-- A slot of another stack is there, and so are its bytes. -/
theorem slot_eq (ho : other.Represents pool) {i : Nat} (hi : i < pool.length) :
    slot other i s = .ok (other.slotAt i) s := by
  have present : ¬other.count ≤ i := by
    rw [ho.count_eq]
    omega
  have inside : ¬other.capacity < (i + 1) * entrySize := by
    have room := ho.layout.room
    simp only [bottom, ho.count_eq, entrySize] at room ⊢
    omega
  rw [slot, if_neg present, if_neg inside]
  rfl

/-- The bytes of a cell are read at once, with their header, and written as they are. -/
theorem amountsTo_pushFrom (h : s.Represents cells) (ho : other.Represents pool) (i : Nat) :
    AmountsTo s (pushFrom other i s) (s.pushFrom other i) := by
  cases hcell : pool[i]? with
  | none =>
    have past : pool.length ≤ i := List.getElem?_eq_none_iff.1 hcell
    have refused : slot other i s = .error (.corrupted .slotPastTop) s := by
      rw [slot, if_pos (by rwa [ho.count_eq])]
      rfl
    rw [pushFrom_eq_error ho past]
    exact ⟨s, bind_of_error refused, fun _ => rfl⟩
  | some c =>
    obtain ⟨below, above, rfl, rfl⟩ := Represents.exists_split hcell
    have there : slot other below.length s = .ok (other.slotAt below.length) s :=
      slot_eq ho (by simp)
    rw [Stack.pushFrom, pushFrom, bind_of_ok there, ho.slot?_eq, ho.slotAt_eq]
    cases c with
    | object o =>
      have raw := ho.rawObject?_eq below.length
      rw [rawObject?, ho.slot?_eq, hcell] at raw
      simp only [Cell.slot] at raw ⊢
      rw [raw]
      exact amountsTo_pushObject h o
    | inline tag bytes =>
      obtain ⟨-, size, -⟩ := ho.region_inline
      have word : LittleEndian.decode (Memory.region other.memory
          ((Cell.arenaOf below).length + bytes.length) 4) = bytes.length := size
      have inside : (Cell.arenaOf below).length + bytes.length + headerSize ≤ other.capacity := by
        have top := ho.top_eq
        have within := ho.layout.room
        simp only [Cell.arenaOf_append, Cell.arenaOf_cons, Cell.payload, List.length_append,
          LittleEndian.length_encode] at top
        simp only [headerSize]
        omega
      simp only [Cell.slot, size]
      rw [bind_of_ok (read_eq (by simp only [headerSize] at inside; omega))]
      simp only [word]
      refine (amountsTo_reserve h _).bind ?_
      intro t ht
      obtain ⟨-, room⟩ := (h.reserve _).post_of_eq_ok ht
      -- The size that was read leads back to where the cell's bytes begin.
      have notBelow : ¬(Cell.arenaOf below).length + bytes.length < bytes.length := by omega
      have length : (Memory.region other.memory (Cell.arenaOf below).length
          (bytes.length + headerSize)).length = bytes.length + headerSize :=
        Memory.length_region (by unfold Stack.capacity at inside; omega)
      have pushed : { t with
          memory := Memory.overwrite t.memory t.top
            (Memory.region other.memory (Cell.arenaOf below).length (bytes.length + headerSize))
          top := t.top + (bytes.length + headerSize) } =
            t.addBytes (Memory.region other.memory (Cell.arenaOf below).length
              (bytes.length + headerSize)) := by
        rw [addBytes, length]
      simp only [if_neg notBelow, Nat.add_sub_cancel]
      show AmountsTo s ((read other _ _ >>= fun run => write t.top run >>= fun _ => modify _ >>= fun _ =>
        encode _ >>= addEntry : Steps ω Unit) t) _
      rw [bind_of_ok (read_eq (by omega)), bind_of_ok (write_eq (by rw [length]; omega))]
      show AmountsTo s ((encode _ >>= addEntry) { t with memory := _, top := _ }) _
      rw [pushed]
      refine amountsTo_entry_addBytes ?_ _
      rw [length]
      exact room

/-- Entries are written one by one, where there is room for all of them. -/
theorem amountsTo_entries (ho : other.Represents pool) (bytes objects : Nat) (l : List Nat)
    (hl : ∀ i ∈ l, i < pool.length)
    (room : u.top + u.bottom + l.length * entrySize ≤ u.capacity) :
    AmountsTo s
      ((l.forM fun i => do
        let entry ← encode ((← slot other i).raised bytes objects)
        addEntry entry : Steps ω Unit) u)
      (l.foldlM (fun (s : Stack ω) i => do
        let entry ← ((other.slotAt i).raised bytes objects).encode?
        return s.addEntry entry) u) := by
  -- By induction on the entries: each takes its own share of the room, and leaves the other table alone.
  induction l generalizing u with
  | nil => exact rfl
  | cons i l ih =>
    rw [List.length_cons] at room
    simp only [entrySize] at room
    have there : slot other i u = .ok (other.slotAt i) u := slot_eq ho (hl i List.mem_cons_self)
    have first : AmountsTo s
        ((do
          let entry ← encode ((← slot other i).raised bytes objects)
          addEntry entry : Steps ω Unit) u)
        (do return u.addEntry (← ((other.slotAt i).raised bytes objects).encode?)) := by
      rw [bind_of_ok there]
      exact amountsTo_entry (by simp only [entrySize]; omega) _
    rw [List.foldlM_cons]
    show AmountsTo s (((do
      let entry ← encode ((← slot other i).raised bytes objects)
      addEntry entry) >>= fun _ => l.forM _ : Steps ω Unit) u) _
    refine first.bind ?_
    intro t ht
    obtain ⟨entry, -, ht⟩ := exists_of_bind_eq_ok ht
    cases ht
    refine ih (fun i hi => hl i (List.mem_cons_of_mem _ hi)) ?_
    simp only [bottom, top_addEntry, count_addEntry, capacity_addEntry, entrySize] at room ⊢
    omega

/-- The arena is copied, then the entries are written, and last the objects are put in their list. -/
theorem amountsTo_append (h : s.Represents cells) (ho : other.Represents pool) :
    AmountsTo s (append other s) (s.append other) := by
  refine (amountsTo_reserve h _).bind ?_
  intro t ht
  obtain ⟨-, room⟩ := (h.reserve _).post_of_eq_ok ht
  have inside : 0 + other.top ≤ other.capacity := by
    have within := ho.layout.room
    omega
  have length : (Memory.region other.memory 0 other.top).length = other.top :=
    Memory.length_region inside
  have written : { t with
      memory := Memory.overwrite t.memory t.top (Memory.region other.memory 0 other.top)
      top := t.top + other.top } = t.addBytes (Memory.region other.memory 0 other.top) := by
    rw [addBytes, length]
  show AmountsTo s ((read other 0 other.top >>= fun run => write t.top run >>= fun _ => modify _ >>= fun _ =>
    (List.range other.count).forM _ >>= fun _ => modify _ : Steps ω Unit) t) _
  rw [bind_of_ok (read_eq inside), bind_of_ok (write_eq (by rw [length]; omega))]
  show AmountsTo s (((List.range other.count).forM _ >>= fun _ => modify _ : Steps ω Unit)
    { t with memory := _, top := _ }) _
  rw [written]
  refine (amountsTo_entries ho t.top t.objects.size _ ?_ ?_).bind ?_
  · intro i hi
    rw [← ho.count_eq]
    exact List.mem_range.1 hi
  · rw [List.length_range]
    simp only [bottom, capacity_addBytes, top_addBytes, count_addBytes, length] at *
    omega
  · intro u _
    exact rfl

end Steps

/-! ### Calls in steps -/

/-- The call was not refused for a slot that no index entry can tell. -/
def Reply.InRange (r : Reply) : Prop := ∀ fault, r.fault? = some fault → ¬fault.IsOutOfRange

variable {ι : Type} {family : ι → Stack ω} {s : Stack ω} {cells : List (Cell ω)}

namespace Call

/-- A stack after steps, all of them or those before one that was refused. -/
def stepped (x : Steps ω Unit) (s : Stack ω) : Stack ω × Reply :=
  match x s with
  | .ok () t => (t, .done)
  | .error fault t => (t, .refused fault)

/-- A call on a stack, beside the stacks that it may name. What is pushed is pushed step by step. -/
def inSteps (family : ι → Stack ω) (s : Stack ω) : Call ι ω → Stack ω × Reply
  | @push _ _ _ _ a => stepped (Steps.push a) s
  | .pushObject o => stepped (Steps.pushObject o) s
  | .pushFrom source index => stepped (Steps.pushFrom (family source) index) s
  | .append source => stepped (Steps.append (family source)) s
  | call => call.onStack family s

/-- Two ways of carrying out a call: with the same reply, and with the same stack unless that reply is about
a slot that no index entry can tell. -/
def Agree (x y : Stack ω × Reply) : Prop := x.2 = y.2 ∧ (x.2.InRange → x = y)

/-- Steps that amount to a change reply as it does. A refusal leaves the stack as it was on both ways,
unless it is about a slot that no index entry can tell. -/
theorem agree_stepped {x : Steps ω Unit} {y : Except Fault (Stack ω)}
    (h : Steps.AmountsTo s (x s) y) : Agree (stepped x s) (changed s y) := by
  cases y with
  | ok t =>
    have run : x s = .ok () t := h
    have went : stepped x s = (t, .done) := by rw [stepped, run]
    exact ⟨by rw [went]; rfl, fun _ => went⟩
  | error fault =>
    obtain ⟨t, run, kept⟩ := h
    have went : stepped x s = (t, .refused fault) := by rw [stepped, run]
    refine ⟨by rw [went]; rfl, ?_⟩
    intro within
    rw [went] at within ⊢
    rw [kept (within fault rfl)]
    rfl

/-- Carried out in steps, a call has the reply that it has at once. -/
theorem agree_inSteps (hs : ∀ i, ∃ pool, (family i).Represents pool) (h : s.Represents cells)
    (call : Call ι ω) : Agree (call.inSteps family s) (call.onStack family s) := by
  cases call with
  | push α a => exact agree_stepped (Steps.amountsTo_push h a)
  | pushObject o => exact agree_stepped (Steps.amountsTo_pushObject h o)
  | pushFrom source index =>
    obtain ⟨pool, ho⟩ := hs source
    exact agree_stepped (Steps.amountsTo_pushFrom h ho index)
  | append source =>
    obtain ⟨pool, ho⟩ := hs source
    exact agree_stepped (Steps.amountsTo_append h ho)
  | withLimit | clone | pop | popN | popValue | take | takeObject | dropUnder =>
    exact ⟨rfl, fun _ => rfl⟩

/-- Carried out in steps, a call comes to what it does at once, unless it is refused for a slot that no index
entry can tell. -/
theorem inSteps_eq (hs : ∀ i, ∃ pool, (family i).Represents pool) (h : s.Represents cells)
    {call : Call ι ω} {answered : Stack ω × Reply} (once : call.onStack family s = answered)
    (hreply : answered.2.InRange) : call.inSteps family s = answered := by
  obtain ⟨replies, same⟩ := agree_inSteps hs h call
  rw [once] at replies same
  exact same (by rwa [replies])

/-! ### Reachable stacks -/

/-- A change that went like one of a list, or that was refused. -/
theorem exists_represents_changed {x : Except Fault (Stack ω)} {y : List (Cell ω) × Reply}
    (h : s.Represents cells) (alike : Alike (changed s x) y) :
    ∃ cells, (changed s x).1.Represents cells := by
  cases x with
  | ok t =>
    rcases alike with ⟨fault, overflowed, -⟩ | ⟨-, member⟩
    · cases overflowed
    · exact ⟨_, member⟩
  | error fault => exact ⟨cells, h⟩

/-- Whatever is taken off a stack, it goes on to stand for some cells. -/
theorem exists_represents_taken {x : Except Fault (Option (α × Stack ω))} {y : List (Cell ω) × Reply}
    (h : s.Represents cells) (alike : Alike (taken s x) y) :
    ∃ cells, (taken s x).1.Represents cells := by
  match x with
  | .ok none => exact ⟨cells, h⟩
  | .ok (some (a, t)) =>
    rcases alike with ⟨fault, overflowed, -⟩ | ⟨-, member⟩
    · cases overflowed
    · exact ⟨_, member⟩
  | .error fault => exact ⟨cells, h⟩

/-- After any call, answered or refused, there are cells that the stack stands for. -/
theorem exists_represents_onStack (hs : ∀ i, ∃ pool, (family i).Represents pool)
    (h : s.Represents cells) (call : Call ι ω) :
    ∃ cells, (call.onStack family s).1.Represents cells := by
  obtain ⟨lists, hlists⟩ := Classical.skolem.1 hs
  have alike := refines hlists h call
  -- A call that may be refused leaves the stack alone then; otherwise the list that mirrors it tells the cells.
  cases call with
  | push | pushObject | pushFrom | append | pop | dropUnder => exact exists_represents_changed h alike
  | popValue | take | takeObject => exact exists_represents_taken h alike
  | withLimit limit => exact ⟨cells, h.withLimit limit⟩
  | clone source => exact ⟨lists source, (hlists source).clone⟩
  | popN n => exact ⟨_, (popN_eq h n).1⟩

end Call

/-- The families of stacks that calls lead to from fresh ones, each call on one member. A call that was
refused for a slot that no index entry can tell is the last one: it has left its stack half pushed on. -/
inductive Reachable [DecidableEq ι] : (ι → Stack ω) → Prop where
  | fresh {family : ι → Stack ω} (h : ∀ i, (family i).Fresh) : Reachable family
  | call {family : ι → Stack ω} (h : Reachable family) (i : ι) (call : Call ι ω)
      (hreply : (call.inSteps family (family i)).2.InRange) :
      Reachable (Function.update family i (call.inSteps family (family i)).1)

/-- All of them stand for cells. -/
theorem Reachable.exists_represents [DecidableEq ι] (h : Reachable family) (i : ι) :
    ∃ cells, (family i).Represents cells := by
  -- By induction on the calls; what is done in steps is what would have been done at once.
  induction h generalizing i with
  | fresh h => exact ⟨[], (h i).represents⟩
  | @call family _ j call hreply ih =>
    obtain ⟨cells, member⟩ := ih j
    obtain ⟨-, same⟩ := Call.agree_inSteps ih member call
    have called : ∃ cells, (call.inSteps family (family j)).1.Represents cells := by
      rw [same hreply]
      exact Call.exists_represents_onStack ih member call
    exact (Function.forall_update_iff family fun _ s => ∃ cells, s.Represents cells).2
      ⟨called, fun i _ => ih i⟩ i

end Stack

end ParserMachine
