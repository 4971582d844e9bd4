import ParserMachine.Proofs.Doubling
import ParserMachine.Proofs.Stack.Room
import ParserMachine.Proofs.Stack.Steps

/-!
# Overflow is exact

What a push needs is told before it is tried: the bytes that are in use, and its cost (`Call.cost?`). If the
limit has room for that, the push is done, in memory that has grown no further than it had to (`Grown`). If
it has not, the push is refused and has not touched the stack. Nothing else decides: not the memory that the
stack began with, and not what it has been through.

A limit of at most `objectFlag` also bounds every place that an index entry has to tell. So under such a
limit a push in steps is never stopped half way.
-/

set_option autoImplicit false

namespace ParserMachine.Stack

variable {ι ω : Type} {s t other : Stack ω} {cells pool : List (Cell ω)} {c : Cell ω}
  {family : ι → Stack ω} {needed extra : Nat}

/-! ### Room -/

/-- The stack has the bytes that another needed: those that it had, if they were enough. Otherwise they were
doubled until they were, but not past the limit. -/
structure HasRoom (s t : Stack ω) (needed : Nat) : Prop where
  limit : t.limit = s.limit
  kept : needed ≤ s.capacity → t.capacity = s.capacity
  doubled : s.capacity < needed → ∃ wanted,
    IsLeast {m | needed ≤ m ∧ ∃ k, m = max s.capacity firstCapacity * 2 ^ k} wanted ∧
      t.capacity = min s.limit wanted

/-- The stack has the bytes that another needed, and all of them are in use. -/
structure Grown (s t : Stack ω) (needed : Nat) : Prop extends HasRoom s t needed where
  used : t.top + 4 * t.count = needed

/-- The change needs so many bytes in all. It is refused if the limit is below that, and only then. -/
structure Needs (s : Stack ω) (x : Except Fault (Stack ω)) (needed : Nat) : Prop where
  refused : s.limit < needed → x = .error (.stackOverflow needed s.limit)
  done : needed ≤ s.limit → ∃ t, x = .ok t ∧ s.Grown t needed

/-- Of the stack that has the room, the limit and the capacity are all that counts. -/
theorem HasRoom.congr {u : Stack ω} (h : s.HasRoom t needed) (hlimit : u.limit = t.limit)
    (hcapacity : u.capacity = t.capacity) : s.HasRoom u needed where
  limit := hlimit.trans h.limit
  kept fits := hcapacity.trans (h.kept fits)
  doubled small := by
    obtain ⟨wanted, least, eq⟩ := h.doubled small
    exact ⟨wanted, least, hcapacity.trans eq⟩

namespace Represents

/-- More bytes than the limit allows are refused, and the message tells how many are needed and what the
limit is. -/
theorem reserve_eq_error (h : s.Represents cells) (hneeded : s.limit < s.top + s.bottom + extra) :
    s.reserve extra = .error (.stackOverflow (s.top + s.bottom + extra) s.limit) := by
  have capacity := h.capacity_le
  have enough : s.top + s.bottom + extra ≤
      ParserMachine.doubled (s.top + s.bottom + extra) (max s.capacity firstCapacity) :=
    le_doubled (Nat.lt_of_lt_of_le (by decide) (Nat.le_max_right _ _))
  rw [Stack.reserve, if_neg (by omega)]
  simp only []
  rw [if_neg (by omega), if_pos hneeded]

/-- Memory that a stack moves to has room for what is needed, and is doubled no further than that takes,
or up to the limit. -/
theorem hasRoom_moved (h : s.Represents cells) (hlt : s.capacity < needed)
    (hlimit : needed ≤ s.limit) (hused : s.top + s.bottom ≤ needed) :
    s.HasRoom (s.moved (min s.limit (ParserMachine.doubled needed (max s.capacity firstCapacity))))
      needed where
  limit := rfl
  kept fits := absurd fits (Nat.not_le.2 hlt)
  doubled _ := by
    have positive : 0 < max s.capacity firstCapacity :=
      Nat.lt_of_lt_of_le (by decide) (Nat.le_max_right _ _)
    have enough : needed ≤ ParserMachine.doubled needed (max s.capacity firstCapacity) :=
      le_doubled positive
    exact ⟨_, isLeast_doubled positive, (h.layout.moved (by omega)).2⟩

/-- Room that the limit has is made, and nothing but the memory changes. -/
theorem exists_reserve (h : s.Represents cells) (hneeded : s.top + s.bottom + extra ≤ s.limit) :
    ∃ t, s.reserve extra = .ok t ∧ s.HasRoom t (s.top + s.bottom + extra) ∧ t.top = s.top ∧
      t.count = s.count ∧ t.objects = s.objects := by
  by_cases fits : s.top + s.bottom + extra ≤ s.capacity
  · refine ⟨s, ?_, ⟨rfl, fun _ => rfl, fun small => absurd fits (Nat.not_le.2 small)⟩, rfl, rfl, rfl⟩
    rw [Stack.reserve, if_pos fits]
  · have room := h.hasRoom_moved (Nat.not_le.1 fits) hneeded (Nat.le_add_right _ _)
    rw [Stack.reserve, if_neg fits]
    simp only []
    -- Whether the limit cuts the doubled bytes short or not, there are as many as the lesser of the two.
    by_cases wanted : ParserMachine.doubled (s.top + s.bottom + extra) (max s.capacity firstCapacity) ≤
        s.limit
    · rw [if_pos wanted]
      rw [Nat.min_eq_right wanted] at room
      exact ⟨_, rfl, room, rfl, rfl, rfl⟩
    · rw [if_neg wanted, if_neg (Nat.not_lt.2 hneeded)]
      rw [Nat.min_eq_left (Nat.le_of_not_le wanted)] at room
      exact ⟨_, rfl, room, rfl, rfl, rfl⟩

/-- There are at most as many objects as slots. -/
theorem objects_size_le (h : s.Represents cells) : s.objects.size ≤ s.count := by
  rw [h.objects_size, h.count_eq]
  exact List.length_filterMap_le _ _

/-! ### What pushing needs -/

/-- Under a limit that index entries can tell, a cell is pushed where there is room for its bytes and its
entry. -/
theorem needs_pushCell (h : s.Represents cells) (hlimit : s.limit ≤ objectFlag) (c : Cell ω) :
    s.Needs (s.pushCell c) (s.top + s.bottom + (c.payload.length + entrySize)) where
  refused hneeded := by
    rw [Stack.pushCell, h.reserve_eq_error hneeded]
    rfl
  done hneeded := by
    obtain ⟨t, reserved, room, top, count, objects⟩ := h.exists_reserve hneeded
    have few := h.objects_size_le
    -- An entry can tell places below the flag, and there is no room for others under the limit.
    have told : (c.slot t.top t.objects.size).Encodable := by
      rw [top, objects]
      simp only [bottom, entrySize] at hneeded
      cases c with
      | inline tag bytes =>
        simp only [Cell.payload, List.length_append, LittleEndian.length_encode] at hneeded
        show s.top + bytes.length < objectFlag
        omega
      | object o =>
        show s.objects.size < objectFlag
        omega
    rw [Stack.pushCell, reserved]
    show ∃ t', (do
      let entry ← (c.slot t.top t.objects.size).encode?
      return { (t.addBytes c.payload).addEntry entry with objects := c.withObject t.objects }) =
        Except.ok t' ∧ _
    have encoded := Slot.encode?_eq_ok_iff.2 ⟨told, rfl⟩
    rw [encoded]
    refine ⟨_, rfl, room.congr (by simp) ?_, ?_⟩
    · simp only [Stack.capacity, memory_addEntry, memory_writeEntry, memory_addBytes, Memory.size_overwrite]
    simp only [top_addEntry, count_addEntry, top_addBytes, count_addBytes, top, count, bottom, entrySize]
    omega

/-- Cells are pushed one after the other if there is room for all of them, and only then. -/
theorem exists_pushCells_iff (h : s.Represents cells) (hlimit : s.limit ≤ objectFlag)
    {more : List (Cell ω)} (hmore : ∀ c ∈ more, c.Sized) :
    (∃ t, more.foldlM Stack.pushCell s = .ok t) ↔
      s.top + s.bottom + (more.map fun c => c.payload.length + entrySize).sum ≤ s.limit := by
  induction more generalizing s cells with
  | nil =>
    have inside := Nat.le_trans h.layout.room h.capacity_le
    exact iff_of_true ⟨s, rfl⟩ inside
  | cons c more ih =>
    rw [List.foldlM_cons, List.map_cons, List.sum_cons]
    have needs := h.needs_pushCell hlimit c
    by_cases room : s.top + s.bottom + (c.payload.length + entrySize) ≤ s.limit
    · obtain ⟨t, pushed, grown⟩ := needs.done room
      have ht := (h.pushCell (hmore c List.mem_cons_self)).post_of_eq_ok pushed
      have rest := ih ht (by rwa [grown.limit]) fun c hc => hmore c (List.mem_cons_of_mem _ hc)
      have used : t.top + t.bottom = s.top + s.bottom + (c.payload.length + entrySize) := by
        rw [← grown.used, bottom, entrySize, Nat.mul_comm]
      rw [pushed]
      show (∃ u, more.foldlM Stack.pushCell t = .ok u) ↔ _
      rw [rest, used, grown.limit, Nat.add_assoc]
    · -- The first of them is refused already.
      rw [needs.refused (Nat.lt_of_not_le room)]
      refine iff_of_false ?_ (by omega)
      rintro ⟨t, ht⟩
      cases ht

/-- A slot of another stack can be told from where the bytes and the objects of that stack come to lie. -/
theorem encodable_raised (ho : other.Represents pool) {i bytes objects : Nat} (hi : i < pool.length)
    (hbytes : bytes + other.top ≤ objectFlag) (hobjects : objects + other.count ≤ objectFlag) :
    ((other.slotAt i).raised bytes objects).Encodable := by
  obtain ⟨c, hc⟩ : ∃ c, pool[i]? = some c := ⟨_, List.getElem?_eq_getElem hi⟩
  obtain ⟨below, above, rfl, rfl⟩ := exists_split hc
  have top := ho.top_eq
  have count := ho.count_eq
  have few : (Cell.objectsOf below).length ≤ below.length := List.length_filterMap_le _ _
  simp only [Cell.arenaOf_append, Cell.arenaOf_cons, List.length_append, List.length_cons] at top count
  rw [ho.slotAt_eq]
  cases c with
  | inline tag run =>
    simp only [Cell.payload, List.length_append, LittleEndian.length_encode] at top
    show (Cell.arenaOf below).length + run.length + bytes < objectFlag
    omega
  | object o =>
    show (Cell.objectsOf below).length + objects < objectFlag
    omega

/-- Entries that can all be told are written. -/
theorem exists_addEntries (slot : Nat → Slot) (l : List Nat) (hl : ∀ i ∈ l, (slot i).Encodable)
    (s : Stack ω) :
    ∃ t, l.foldlM (fun (s : Stack ω) i => do
        let entry ← (slot i).encode?
        return s.addEntry entry) s = .ok t ∧
      t.top = s.top ∧ t.count = s.count + l.length ∧ t.capacity = s.capacity ∧ t.limit = s.limit := by
  induction l generalizing s with
  | nil => exact ⟨s, rfl, rfl, rfl, rfl, rfl⟩
  | cons i l ih =>
    obtain ⟨t, written, top, count, capacity, limit⟩ :=
      ih (fun i hi => hl i (List.mem_cons_of_mem _ hi)) (s.addEntry (slot i).entry)
    have told := Slot.encode?_eq_ok_iff.2 ⟨hl i List.mem_cons_self, rfl⟩
    refine ⟨t, ?_, by simpa using top, ?_, by simpa using capacity, by simpa using limit⟩
    · rw [List.foldlM_cons, told]
      exact written
    · rw [count, count_addEntry, List.length_cons]
      omega

/-- Another stack is appended where there is room for its bytes and its entries. -/
theorem needs_append (h : s.Represents cells) (hlimit : s.limit ≤ objectFlag)
    (ho : other.Represents pool) :
    s.Needs (s.append other) (s.top + s.bottom + (other.top + other.bottom)) where
  refused hneeded := by
    rw [Stack.append, h.reserve_eq_error hneeded]
    rfl
  done hneeded := by
    obtain ⟨t, reserved, room, top, count, objects⟩ := h.exists_reserve hneeded
    have few := h.objects_size_le
    have length : (Memory.region other.memory 0 other.top).length = other.top := by
      rw [ho.layout.arena, ho.top_eq]
    have total := hneeded
    simp only [bottom, entrySize] at total
    -- The entries of the other stack are raised by what this one holds, and can still be told.
    obtain ⟨u, written, utop, ucount, ucapacity, ulimit⟩ := exists_addEntries
      (fun i => (other.slotAt i).raised t.top t.objects.size) (List.range other.count) (by
        intro i hi
        rw [top, objects]
        exact ho.encodable_raised (by rw [← ho.count_eq]; exact List.mem_range.1 hi) (by omega) (by omega))
      (t.addBytes (Memory.region other.memory 0 other.top))
    rw [Stack.append, reserved]
    show ∃ t', (do
      let u ← (List.range other.count).foldlM _ (t.addBytes (Memory.region other.memory 0 other.top))
      return { u with objects := u.objects ++ other.objects }) = Except.ok t' ∧ _
    rw [written]
    rw [top_addBytes, length, top] at utop
    rw [count_addBytes, List.length_range, count] at ucount
    refine ⟨_, rfl, room.congr (ulimit.trans (limit_addBytes _)) (ucapacity.trans (capacity_addBytes _)),
      ?_⟩
    show u.top + 4 * u.count = _
    rw [utop, ucount]
    simp only [bottom, entrySize]
    omega

end Represents

/-! ### Calls -/

/-- What a slot takes: its payload, with header, and its entry, or the entry alone. -/
def slotCost (s : Stack ω) : Slot → Nat
  | .inline header => s.wordAt header + 12
  | .object _ => 4

namespace Call

/-- What a push costs: what its slot will take, or all that is in use on the stack that is appended. -/
def cost? (family : ι → Stack ω) : Call ι ω → Option Nat
  | @push _ _ α _ _ => some (Inline.size α + 12)
  | .pushObject _ => some 4
  | .pushFrom source index => ((family source).slot? index).map (family source).slotCost
  | .append source => some ((family source).top + 4 * (family source).count)
  | _ => none

/-- The cell that a slot stands for costs what the slot costs. -/
theorem length_payload_of_slot? (ho : other.Represents pool) {index : Nat} {slot : Slot}
    (hslot : other.slot? index = some slot) :
    ∃ c, pool[index]? = some c ∧ c.payload.length + entrySize = other.slotCost slot := by
  cases hc : pool[index]? with
  | none =>
    rw [ho.slot?_eq_none (List.getElem?_eq_none_iff.1 hc)] at hslot
    cases hslot
  | some c =>
    refine ⟨c, rfl, ?_⟩
    obtain ⟨below, above, rfl, rfl⟩ := Represents.exists_split hc
    rw [ho.slot?_eq] at hslot
    cases hslot
    cases c with
    | inline tag bytes =>
      obtain ⟨-, size, -⟩ := ho.region_inline
      simp only [slotCost, Cell.slot, size, Cell.payload, List.length_append, LittleEndian.length_encode,
        entrySize]
    | object o => rfl

/-- A call with a cost is a push that needs as much. -/
theorem exists_needs (hs : ∀ i, ∃ pool, (family i).Represents pool) (h : s.Represents cells)
    (hlimit : s.limit ≤ objectFlag) {call : Call ι ω} {cost : Nat} (hcost : call.cost? family = some cost) :
    ∃ x, call.onStack family s = changed s x ∧ s.Needs x (s.top + 4 * s.count + cost) := by
  have bottom : s.bottom = 4 * s.count := Nat.mul_comm s.count 4
  cases call with
  | push α a =>
    have needs := h.needs_pushCell hlimit (.ofValue a)
    have length : (Cell.ofValue a : Cell ω).payload.length + entrySize = Inline.size α + 12 := by
      simp [Cell.payload_ofValue, payload, Inline.length_encode, entrySize]
    rw [← push_eq, length, bottom] at needs
    cases hcost
    exact ⟨_, rfl, needs⟩
  | pushObject o =>
    have needs := h.needs_pushCell hlimit (.object o)
    rw [← pushObject_eq, bottom] at needs
    cases hcost
    exact ⟨_, rfl, needs⟩
  | pushFrom source index =>
    obtain ⟨pool, ho⟩ := hs source
    rw [cost?, Option.map_eq_some_iff] at hcost
    obtain ⟨slot, hslot, rfl⟩ := hcost
    obtain ⟨c, hc, length⟩ := length_payload_of_slot? ho hslot
    have needs := h.needs_pushCell hlimit c
    rw [← ho.pushFrom_eq hc, length, bottom] at needs
    exact ⟨_, rfl, needs⟩
  | append source =>
    obtain ⟨pool, ho⟩ := hs source
    have needs := h.needs_append hlimit ho
    have other : (family source).bottom = 4 * (family source).count := Nat.mul_comm _ 4
    rw [other, bottom] at needs
    cases hcost
    exact ⟨_, rfl, needs⟩
  | withLimit | clone | pop | popN | popValue | take | takeObject | dropUnder => cases hcost

end Call

/-- Under a limit that index entries can tell, whatever was done with the stacks before, a push is refused if
and only if it needs more than the limit, and what it needs and the limit are told. The stack is then as it
was, its memory included. A push that is done uses what it needs, in bytes that were doubled if they were
not enough. It comes to what the push does at once, and it is never stopped by a slot that no index entry can
tell. -/
theorem Reachable.overflow_exact [DecidableEq ι] (h : Reachable family) (i : ι)
    (hlimit : (family i).limit ≤ objectFlag) {call : Call ι ω} {cost : Nat}
    (hcost : call.cost? family = some cost) :
    let s := family i
    let needed := s.top + 4 * s.count + cost
    let limit := s.limit
    let after := call.inSteps family s
    after = call.onStack family s ∧ after.2.InRange ∧
      (after.2.fault?.bind Fault.message =
        some s!"stack overflow: {needed} bytes needed, limit is {limit} bytes" ↔ limit < needed) ∧
      (limit < needed → after = (s, .refused (.stackOverflow needed limit))) ∧
      (needed ≤ limit → after.2 = .done ∧ s.Grown after.1 needed) := by
  intro s needed limit after
  obtain ⟨cells, member⟩ := h.exists_represents i
  obtain ⟨x, once, needs⟩ := Call.exists_needs h.exists_represents member hlimit hcost
  -- Neither the overflow nor the answer of a push that is done is about a slot, so the steps come to both.
  rcases Nat.lt_or_ge limit needed with beyond | fits
  · have refused : call.onStack family s = (s, .refused (.stackOverflow needed limit)) := by
      rw [once, needs.refused beyond]
      rfl
    have inRange : (Reply.refused (.stackOverflow needed limit)).InRange := by
      rintro fault ⟨⟩
      exact id
    have went : after = (s, .refused (.stackOverflow needed limit)) :=
      Call.inSteps_eq h.exists_represents member refused inRange
    rw [went, refused]
    exact ⟨rfl, inRange, ⟨fun _ => beyond, fun _ => rfl⟩, fun _ => rfl,
      fun fits => absurd beyond (Nat.not_lt.2 fits)⟩
  · obtain ⟨t, done, grown⟩ := needs.done fits
    have pushed : call.onStack family s = (t, .done) := by
      rw [once, done]
      rfl
    have inRange : Reply.done.InRange := by rintro fault ⟨⟩
    have went : after = (t, .done) := Call.inSteps_eq h.exists_represents member pushed inRange
    rw [went, pushed]
    refine ⟨rfl, inRange, ⟨fun told => ?_, fun beyond => absurd beyond (Nat.not_lt.2 fits)⟩,
      fun beyond => absurd beyond (Nat.not_lt.2 fits), fun _ => ⟨rfl, grown⟩⟩
    cases told

/-- A byte is pushed on a stack that may grow to thirty bytes, and after it there is no room for a word. -/
theorem Reachable.overflow_exact_of_word :
    let fresh : Unit → Stack String := fun _ => new.withLimit 30
    let pushed := Function.update fresh () ((Call.push UInt8 7).inSteps fresh (fresh ())).1
    Reachable pushed ∧ (pushed ()).limit ≤ objectFlag ∧
      (Call.push UInt64 8).cost? pushed = some 20 ∧
      (Call.push UInt64 8).inSteps pushed (pushed ()) =
        (pushed (), .refused (.stackOverflow 33 30)) := by
  intro fresh pushed
  have answered : ((Call.push UInt8 7).inSteps fresh (fresh ())).2.fault? = none := by decide +kernel
  have reachable : Reachable pushed := by
    refine .call (.fresh fun _ => .withLimit (.withCapacity 0) 30) () (.push UInt8 7) ?_
    intro fault hfault
    cases answered.symm.trans hfault
  have limit : (pushed ()).limit ≤ objectFlag := by decide +kernel
  have cost : (Call.push UInt64 8 : Call Unit String).cost? pushed = some 20 := rfl
  have used : (pushed ()).top + 4 * (pushed ()).count + 20 = 33 := by decide +kernel
  have thirty : (pushed ()).limit = 30 := by decide +kernel
  obtain ⟨-, -, -, overflow, -⟩ := reachable.overflow_exact () limit cost
  rw [used, thirty] at overflow
  exact ⟨reachable, limit, cost, overflow (by decide)⟩

end ParserMachine.Stack
