import ParserMachine.Proofs.Stack.Operations

/-!
# How far a stack may grow

A stack's limit is fixed: no operation changes it. Whether a cell can be pushed depends on the limit and
on the cells that are there, not on the present size of the memory: a stack whose limit has room for the
cell finds the memory for it (`Represents.exists_pushCell_iff`).
-/

set_option autoImplicit false

namespace ParserMachine.Stack

variable {ω : Type} {s t : Stack ω} {cells : List (Cell ω)} {c : Cell ω}

/-! ### The limit -/

/-- Making room does not change the limit. -/
theorem limit_of_reserve {extra : Nat} (h : s.reserve extra = .ok t) : t.limit = s.limit := by
  simp only [reserve] at h
  split at h
  · cases h
    rfl
  · split at h
    · cases h
      rfl
    · split at h
      · cases h
      · cases h
        rfl

/-- A push does not change the limit. -/
theorem limit_of_pushCell (h : s.pushCell c = .ok t) : t.limit = s.limit := by
  simp only [pushCell, bind, Except.bind, pure, Except.pure] at h
  split at h
  · cases h
  · next u hreserve =>
    split at h
    · cases h
    · rw [← Except.ok.inj h]
      simpa using limit_of_reserve hreserve

/-- A pop does not change the limit. -/
theorem limit_of_pop (h : s.pop = .ok t) : t.limit = s.limit := by
  rw [pop] at h
  split at h
  · cases h
  · split at h <;> split at h <;> cases h <;> rfl

/-- Rewriting index entries does not change the limit, wherever they are and whatever is written. -/
theorem limit_foldl_writeEntry (l : List Nat) (place entry : Stack ω → Nat → Nat) (s : Stack ω) :
    (l.foldl (fun (t : Stack ω) i => t.writeEntry (place t i) (entry t i)) s).limit = s.limit := by
  obtain ⟨memory, -, eq⟩ := foldl_writeEntry_eq l place entry s
  rw [eq]

/-- Dropping slots does not change the limit. -/
theorem limit_of_dropUnder {keep drop : Nat} (h : s.dropUnder keep drop = .ok t) :
    t.limit = s.limit := by
  simp only [dropUnder] at h
  split at h
  · cases h
    rfl
  · split at h
    · cases h
    · split at h
      · cases h
      · rw [← Except.ok.inj h]
        exact limit_foldl_writeEntry _ _ _ _

/-! ### Room for a cell -/

namespace Represents

/-- Room is found just where all that is needed is within the limit. -/
theorem exists_reserve_iff (h : s.Represents cells) (extra : Nat) :
    (∃ t, s.reserve extra = .ok t) ↔ s.top + s.bottom + extra ≤ s.limit := by
  constructor
  · -- What was reserved lies inside the memory, which is never larger than the limit.
    rintro ⟨t, ht⟩
    obtain ⟨grown, room⟩ := (h.reserve extra).post_of_eq_ok ht
    have limit := limit_of_reserve ht
    have within := grown.capacity_le
    simp only [bottom, grown.top_eq, grown.count_eq, h.top_eq, h.count_eq] at room ⊢
    omega
  · intro room
    simp only [Stack.reserve]
    split
    · exact ⟨_, rfl⟩
    · split
      · exact ⟨_, rfl⟩
      · rw [if_neg (by omega)]
        exact ⟨_, rfl⟩

/-- A cell can be pushed where the limit has room for its bytes and its index entry, and an index entry can
tell where it lies. -/
theorem exists_pushCell_iff (h : s.Represents cells) :
    (∃ t, s.pushCell c = .ok t) ↔
      s.top + s.bottom + (c.payload.length + entrySize) ≤ s.limit ∧
        (c.slot s.top s.objects.size).Encodable := by
  rw [← h.exists_reserve_iff, Stack.pushCell]
  constructor
  · rintro ⟨t, ht⟩
    cases hreserve : s.reserve (c.payload.length + entrySize) with
    | error f =>
      rw [hreserve] at ht
      cases ht
    | ok u =>
      obtain ⟨grown, -⟩ := (h.reserve _).post_of_eq_ok hreserve
      rw [hreserve] at ht
      refine ⟨⟨u, rfl⟩, ?_⟩
      cases hencode : (c.slot u.top u.objects.size).encode? with
      | error f =>
        simp only [hencode, bind, Except.bind] at ht
        cases ht
      | ok entry =>
        rw [h.top_eq, h.objects_size, ← grown.top_eq, ← grown.objects_size]
        exact (Slot.encode?_eq_ok_iff.1 hencode).1
  · rintro ⟨⟨u, hreserve⟩, he⟩
    -- Reserving may move everything, but not where the slot is counted from.
    obtain ⟨grown, -⟩ := (h.reserve _).post_of_eq_ok hreserve
    rw [h.top_eq, h.objects_size, ← grown.top_eq, ← grown.objects_size] at he
    rw [hreserve]
    simp only [bind, Except.bind, Slot.encode?_eq_ok_iff.2 ⟨he, rfl⟩]
    exact ⟨_, rfl⟩

/-- A cell can be pushed where the default limit has room for it: an index entry can tell of every place
below that limit. -/
theorem exists_pushCell (h : s.Represents cells) (hlimit : defaultLimit ≤ s.limit)
    (room : (Cell.arenaOf cells).length + cells.length * entrySize +
      (c.payload.length + entrySize) ≤ defaultLimit) :
    ∃ t, s.pushCell c = .ok t := by
  rw [h.exists_pushCell_iff, h.top_eq, bottom, h.count_eq, h.objects_size]
  refine ⟨Nat.le_trans room hlimit, ?_⟩
  have objects : (Cell.objectsOf cells).length ≤ cells.length := List.length_filterMap_le _ _
  unfold entrySize defaultLimit at room
  cases c with
  | inline tag bytes =>
    simp only [Cell.payload, List.length_append] at room
    show (Cell.arenaOf cells).length + bytes.length < objectFlag
    unfold objectFlag
    omega
  | object o =>
    show (Cell.objectsOf cells).length < objectFlag
    unfold objectFlag
    omega

end Represents

end ParserMachine.Stack
