import Mathlib.Data.List.Induction
import ParserMachine.Proofs.Stack.Layout

/-!
# What a stack represents

A stack stands for a list of cells, bottom first: an inline value with the tag of its type and its
bytes, or an object. `Stack.Represents s cells` says so. The arena of the stack is then the payloads
of the cells one behind the other, and its index tells for each cell how many bytes and objects lie
below it; `Cell.arenaOf` and `Cell.slotsFrom` are these two.

The reading operations answer from the cells alone: `Represents.get?_eq`, `Represents.rawObject?_eq`
and `Represents.slot?_eq`. What the changing ones do is told in `Proofs.Stack.Operations`.
-/

set_option autoImplicit false

namespace ParserMachine

/-- What a slot of a stack holds. -/
inductive Cell (ω : Type) where
  /-- An inline value: the tag of its type and its bytes. -/
  | inline (tag : Nat) (bytes : List UInt8)
  /-- An object. -/
  | object (o : ω)

namespace Cell

variable {ω : Type}

/-- The cell of an inline value. -/
def ofValue {α : Type} [Inline α] (a : α) : Cell ω :=
  .inline (Inline.tag α).code (Inline.encode a)

/-- The inline value of type `α` in a cell; nothing where it holds none. -/
def value? {α : Type} [Inline α] : Cell ω → Option α
  | inline tag bytes =>
    if tag = (Inline.tag α).code ∧ bytes.length = Inline.size α then some (Inline.decode bytes)
    else none
  | object _ => none

/-- The object in a cell. -/
def object? : Cell ω → Option ω
  | inline .. => none
  | object o => some o

/-- The boxed value of type `α` in a cell; nothing where it holds none. -/
def boxed? {α : Type} [Boxed ω α] (c : Cell ω) : Option α := c.object?.bind Boxed.unbox

/-- The arena bytes of a cell: payload and header of an inline value, nothing for an object. -/
def payload : Cell ω → List UInt8
  | inline tag bytes =>
    bytes ++ (LittleEndian.encode 4 bytes.length ++ LittleEndian.encode 4 tag)
  | object _ => []

/-- Whether the header of the cell can hold its size and its tag. -/
def Sized : Cell ω → Prop
  | inline tag bytes => bytes.length < LittleEndian.bound 4 ∧ tag < LittleEndian.bound 4
  | object _ => True

/-- The slot of a cell above the given numbers of arena bytes and objects. -/
def slot (bytes objects : Nat) : Cell ω → Slot
  | inline _ run => .inline (bytes + run.length)
  | object _ => .object objects

/-- The objects of a stack on which the cell is put. -/
def withObject (objects : Array ω) : Cell ω → Array ω
  | inline .. => objects
  | object o => objects.push o

/-- The cell of a value holds that value. -/
@[simp] theorem value?_ofValue {α : Type} [Inline α] (a : α) :
    (ofValue a : Cell ω).value? = some a := by
  simp [value?, ofValue, Inline.length_encode, Inline.decode_encode]

/-- A value is not read at a type that has another tag. -/
theorem value?_ofValue_of_ne {α β : Type} [Inline α] [Inline β] (a : α)
    (h : Inline.tag α ≠ Inline.tag β) : ((ofValue a : Cell ω).value? : Option β) = none := by
  have code : (Inline.tag α).code ≠ (Inline.tag β).code := fun h' => h (Tag.code_injective h')
  simp [value?, ofValue, code]

/-- The cell of an object holds no inline value, of whatever type. -/
@[simp] theorem value?_object {α : Type} [Inline α] (o : ω) :
    ((object o : Cell ω).value? : Option α) = none := rfl

/-- The cell of an inline value holds no object. -/
@[simp] theorem object?_ofValue {α : Type} [Inline α] (a : α) :
    (ofValue a : Cell ω).object? = none := rfl

/-- The cell of an object holds that object. -/
@[simp] theorem object?_object (o : ω) : (object o).object? = some o := rfl

/-- The arena bytes of the cell of a value are those that a push of the value writes. -/
theorem payload_ofValue {α : Type} [Inline α] (a : α) :
    (ofValue a : Cell ω).payload = Stack.payload a := by
  simp [payload, ofValue, Stack.payload, Inline.length_encode]

/-- Every value has a cell that a header can describe: the sizes of inline types and the codes of their
tags fit into four bytes each. -/
theorem sized_ofValue {α : Type} [Inline α] (a : α) : (ofValue a : Cell ω).Sized :=
  ⟨by rw [Inline.length_encode]; exact Inline.size_lt, Tag.code_lt _⟩

/-- An object has no header, so nothing has to fit. -/
theorem sized_object (o : ω) : (object o).Sized := trivial

/-! ### Lists of cells -/

/-- The arena bytes of cells, bottom first. -/
def arenaOf (cells : List (Cell ω)) : List UInt8 := cells.flatMap payload

/-- The objects among cells, bottom first. -/
def objectsOf (cells : List (Cell ω)) : List ω := cells.filterMap object?

/-- The slots of cells above the given numbers of arena bytes and objects. -/
def slotsFrom (bytes objs : Nat) : List (Cell ω) → List Slot
  | [] => []
  | c :: cells =>
    c.slot bytes objs :: slotsFrom (bytes + c.payload.length) (objs + (objectsOf [c]).length) cells

/-- No cells take no arena bytes. -/
@[simp] theorem arenaOf_nil : arenaOf ([] : List (Cell ω)) = [] := rfl

/-- The arena bytes of two runs of cells lie one behind the other. -/
@[simp] theorem arenaOf_append (l m : List (Cell ω)) : arenaOf (l ++ m) = arenaOf l ++ arenaOf m :=
  List.flatMap_append

/-- The lowest cell has the lowest bytes. -/
@[simp] theorem arenaOf_cons (c : Cell ω) (l : List (Cell ω)) :
    arenaOf (c :: l) = c.payload ++ arenaOf l := rfl

/-- There are no objects among no cells. -/
@[simp] theorem objectsOf_nil : objectsOf ([] : List (Cell ω)) = [] := rfl

/-- The objects of two runs of cells come one after the other. -/
@[simp] theorem objectsOf_append (l m : List (Cell ω)) :
    objectsOf (l ++ m) = objectsOf l ++ objectsOf m :=
  List.filterMap_append

/-- The lowest cell has the first object, if it has any. -/
theorem objectsOf_cons (c : Cell ω) (l : List (Cell ω)) :
    objectsOf (c :: l) = objectsOf [c] ++ objectsOf l := by
  rw [← objectsOf_append, List.singleton_append]

/-- An object is the one object of its cell. -/
@[simp] theorem objectsOf_object (o : ω) : objectsOf [object o] = [o] := rfl

/-- An inline value adds no object. -/
@[simp] theorem objectsOf_inline (tag : Nat) (bytes : List UInt8) :
    objectsOf ([inline tag bytes] : List (Cell ω)) = [] := rfl

/-- Putting a cell on a stack appends its object to those that are there, if it has one. -/
theorem toList_withObject (c : Cell ω) (objects : Array ω) :
    (c.withObject objects).toList = objects.toList ++ objectsOf [c] := by
  cases c <;> simp [withObject]

/-- Each cell has one slot. -/
@[simp] theorem length_slotsFrom (bytes objs : Nat) (l : List (Cell ω)) :
    (slotsFrom bytes objs l).length = l.length := by
  induction l generalizing bytes objs with
  | nil => rfl
  | cons c l ih => rw [slotsFrom, List.length_cons, ih, List.length_cons]

/-- The slots of the upper of two runs of cells are those above all bytes and objects of the lower one. -/
theorem slotsFrom_append (bytes objs : Nat) (l m : List (Cell ω)) :
    slotsFrom bytes objs (l ++ m) =
      slotsFrom bytes objs l ++ slotsFrom (bytes + (arenaOf l).length) (objs + (objectsOf l).length) m := by
  induction l generalizing bytes objs with
  | nil => rfl
  | cons c l ih =>
    rw [List.cons_append, slotsFrom, ih, slotsFrom, List.cons_append, objectsOf_cons c l, arenaOf_cons]
    simp only [List.length_append, Nat.add_assoc]

/-- Cells put on top of others have their slots raised. -/
theorem map_raised_slotsFrom (below under bytes objs : Nat) (l : List (Cell ω)) :
    (slotsFrom bytes objs l).map (Slot.raised below under) = slotsFrom (bytes + below) (objs + under) l := by
  induction l generalizing bytes objs with
  | nil => rfl
  | cons c l ih =>
    have head : (c.slot bytes objs).raised below under = c.slot (bytes + below) (objs + under) := by
      cases c with
      | inline tag run => simp only [slot, Slot.raised, Slot.inline.injEq]; omega
      | object o => rfl
    rw [slotsFrom, List.map_cons, ih, slotsFrom, head]
    congr 2 <;> omega

/-- Cells from under which others are taken have their slots lowered. -/
theorem map_lowered_slotsFrom (below under bytes objs : Nat) (l : List (Cell ω)) :
    (slotsFrom (bytes + below) (objs + under) l).map (Slot.lowered below under) =
      slotsFrom bytes objs l := by
  rw [← map_raised_slotsFrom, List.map_map]
  have inverse : Slot.lowered below under ∘ Slot.raised below under = id := by
    funext slot
    cases slot <;> simp [Slot.lowered, Slot.raised]
  rw [inverse, List.map_id]

end Cell

namespace Stack

open Cell (arenaOf objectsOf slotsFrom)

variable {ω : Type}

/-- The stack stands for the given cells, bottom first. -/
structure Represents (s : Stack ω) (cells : List (Cell ω)) : Prop where
  layout : s.Layout (arenaOf cells) (slotsFrom 0 0 cells)
  objects_eq : s.objects.toList = objectsOf cells
  sized : ∀ c ∈ cells, c.Sized
  capacity_le : s.capacity ≤ s.limit

namespace Represents

variable {s : Stack ω} {cells below above : List (Cell ω)} {c : Cell ω}

/-- A stack has as many slots as it stands for cells. -/
theorem count_eq (h : s.Represents cells) : s.count = cells.length := by
  rw [h.layout.count_eq, Cell.length_slotsFrom]

/-- The arena reaches as far as the bytes of the cells do. -/
theorem top_eq (h : s.Represents cells) : s.top = (arenaOf cells).length := h.layout.top_eq

/-- A stack keeps as many objects as there are among its cells. -/
theorem objects_size (h : s.Represents cells) : s.objects.size = (objectsOf cells).length := by
  rw [← h.objects_eq, Array.length_toList]

/-- Places that index entries can hold bound the bytes and the objects of a stack. -/
theorem bounds_of_encodable {cells : List (Cell ω)}
    (h : ∀ slot ∈ slotsFrom 0 0 cells, slot.Encodable) :
    (arenaOf cells).length < objectFlag + headerSize ∧ (objectsOf cells).length ≤ objectFlag := by
  induction cells using List.reverseRecOn with
  | nil => simp [objectFlag, headerSize]
  | append_singleton cells c ih =>
    rw [Cell.slotsFrom_append] at h
    have lower := ih fun slot hslot => h slot (List.mem_append_left _ hslot)
    have last := h _ (List.mem_append_right _ (List.mem_singleton.2 rfl))
    rw [Cell.arenaOf_append, Cell.objectsOf_append, List.length_append, List.length_append]
    cases c with
    | inline tag bytes =>
      simp only [Cell.slot, Slot.Encodable] at last
      simp [Cell.payload, headerSize]
      omega
    | object o =>
      simp only [Cell.slot, Slot.Encodable] at last
      simp [Cell.payload]
      omega

/-- A cell takes arena bytes or is an object. -/
theorem length_le (cells : List (Cell ω)) :
    cells.length ≤ (arenaOf cells).length + (objectsOf cells).length := by
  induction cells with
  | nil => exact Nat.le_refl 0
  | cons c cells ih =>
    rw [Cell.arenaOf_cons, Cell.objectsOf_cons, List.length_append, List.length_append, List.length_cons]
    cases c with
    | inline tag bytes => simp [Cell.payload]; omega
    | object o => simp [Cell.payload]; omega

/-- A stack has far fewer slots than a word can count. -/
theorem length_lt (h : s.Represents cells) : cells.length < UInt64.size := by
  have most := length_le cells
  have bounds := bounds_of_encodable h.layout.encodable
  simp only [objectFlag, headerSize] at bounds
  unfold UInt64.size
  omega

/-- The slot of a cell counts the arena bytes and the objects below it. -/
theorem slotAt_eq (h : s.Represents (below ++ c :: above)) :
    s.slotAt below.length = c.slot (arenaOf below).length (objectsOf below).length := by
  rw [h.layout.index below.length (by simp)]
  simp [Cell.slotsFrom_append, Cell.slotsFrom]

/-- A slot within the stack is that of its cell, above the bytes and objects of the cells below. -/
theorem slot?_eq (h : s.Represents (below ++ c :: above)) :
    s.slot? below.length = some (c.slot (arenaOf below).length (objectsOf below).length) := by
  rw [slot?, if_pos (by rw [h.count_eq]; simp), h.slotAt_eq]

/-- There are no slots past the top. -/
theorem slot?_eq_none (h : s.Represents cells) {i : Nat} (hi : cells.length ≤ i) :
    s.slot? i = none := by
  rw [slot?, if_neg (by rw [h.count_eq]; omega)]

/-- The arena bytes of a cell lie behind those of the cells below it. -/
theorem region_payload (h : s.Represents (below ++ c :: above)) :
    Memory.region s.memory (arenaOf below).length c.payload.length = c.payload := by
  have whole := h.layout.arena
  have inside : s.top ≤ s.memory.size := Nat.le_trans (Nat.le_add_right _ _) h.layout.room
  rw [h.top_eq] at whole inside
  simp only [Cell.arenaOf_append, Cell.arenaOf_cons, List.length_append] at whole inside
  rw [Memory.region_append, Memory.region_append, Nat.zero_add] at whole
  have lower : (Memory.region s.memory 0 (arenaOf below).length).length = (arenaOf below).length :=
    Memory.length_region (by omega)
  have middle : (Memory.region s.memory (arenaOf below).length c.payload.length).length =
      c.payload.length := Memory.length_region (by omega)
  exact (List.append_inj (List.append_inj whole lower).2 middle).1

/-- The three parts of an inline cell's arena bytes, read from their places. -/
theorem region_inline {tag : Nat} {bytes : List UInt8}
    (h : s.Represents (below ++ .inline tag bytes :: above)) :
    let header := (arenaOf below).length + bytes.length
    Memory.region s.memory (header - bytes.length) bytes.length = bytes ∧
      s.wordAt header = bytes.length ∧ s.wordAt (header + 4) = tag := by
  obtain ⟨small, tagSmall⟩ := h.sized (.inline tag bytes) (by simp)
  have whole := h.region_payload
  have size : (Cell.payload (.inline tag bytes : Cell ω)).length = bytes.length + (4 + 4) := by
    simp [Cell.payload]
  have inside : s.top ≤ s.memory.size := Nat.le_trans (Nat.le_add_right _ _) h.layout.room
  rw [h.top_eq] at inside
  simp only [Cell.arenaOf_append, Cell.arenaOf_cons, List.length_append, size] at inside
  -- The payload was written in one piece and is taken apart at the sizes of its three parts.
  rw [size, Cell.payload, Memory.region_append, Memory.region_append] at whole
  obtain ⟨hbytes, hheader⟩ := List.append_inj whole (Memory.length_region (by omega))
  obtain ⟨hsize, htag⟩ := List.append_inj hheader
    (by rw [Memory.length_region (by omega), LittleEndian.length_encode])
  refine ⟨?_, ?_, ?_⟩
  · rw [Nat.add_sub_cancel, hbytes]
  · rw [wordAt, hsize, LittleEndian.decode_encode_of_lt small]
  · rw [wordAt, htag, LittleEndian.decode_encode_of_lt tagSmall]

/-- A list is split at each of its places. -/
theorem exists_split {α : Type} {l : List α} {i : Nat} {a : α} (h : l[i]? = some a) :
    ∃ below above, l = below ++ a :: above ∧ below.length = i := by
  obtain ⟨hi, rfl⟩ := List.getElem?_eq_some_iff.1 h
  exact ⟨l.take i, l.drop (i + 1), by simp, by simp; omega⟩

/-- A typed read of a slot is a typed read of its cell. -/
theorem get?_eq {α : Type} [Inline α] (h : s.Represents cells) (i : Nat) :
    (s.get? i : Option α) = cells[i]?.bind Cell.value? := by
  cases hcell : cells[i]? with
  | none => rw [get?, h.slot?_eq_none (List.getElem?_eq_none_iff.1 hcell), Option.bind_none]
  | some c =>
    obtain ⟨below, above, rfl, rfl⟩ := exists_split hcell
    rw [get?, h.slot?_eq, Option.bind_some]
    cases c with
    | object o => rfl
    | inline tag bytes =>
      obtain ⟨hbytes, hsize, htag⟩ := h.region_inline
      rw [Nat.add_sub_cancel] at hbytes
      simp [Cell.slot, hsize, htag, hbytes, Cell.value?]

/-- The object in a slot is the object in its cell. -/
theorem rawObject?_eq (h : s.Represents cells) (i : Nat) :
    s.rawObject? i = cells[i]?.bind Cell.object? := by
  cases hcell : cells[i]? with
  | none => rw [rawObject?, h.slot?_eq_none (List.getElem?_eq_none_iff.1 hcell), Option.bind_none]
  | some c =>
    obtain ⟨below, above, rfl, rfl⟩ := exists_split hcell
    rw [rawObject?, h.slot?_eq, Option.bind_some]
    cases c with
    | inline tag bytes => rfl
    | object o =>
      have list : s.objects.toList[(objectsOf below).length]? = some o := by
        rw [h.objects_eq, Cell.objectsOf_append, Cell.objectsOf_cons]
        simp
      simpa [Cell.slot] using list

/-- An object is found in a slot just where the cell has one of the type that is asked for. -/
theorem object?_eq {α : Type} [Boxed ω α] (h : s.Represents cells) (i : Nat) :
    (s.object? i : Option α) = cells[i]?.bind Cell.boxed? := by
  rw [object?, h.rawObject?_eq, Option.bind_assoc]
  rfl

/-- A slot that is counted from the top is found as long as there are so many cells. -/
theorem indexOf?_eq (h : s.Represents cells) (depth : Nat) :
    s.indexOf? depth = if depth < cells.length then some (cells.length - (depth + 1)) else none := by
  rw [indexOf?, h.count_eq]

/-- What is read at the index of a depth is read of the cells from the top. -/
theorem bind_indexOf? {β : Type} (h : s.Represents cells) (depth : Nat)
    (read : Nat → Option β) (f : Cell ω → Option β) (hread : ∀ i, read i = cells[i]?.bind f) :
    (s.indexOf? depth).bind read = cells.reverse[depth]?.bind f := by
  rw [h.indexOf?_eq]
  split
  · next hlt =>
    rw [Option.bind_some, hread, List.getElem?_reverse hlt]
    congr 2
    omega
  · next hge => rw [List.getElem?_eq_none (by simpa using hge), Option.bind_none, Option.bind_none]

/-- A look at a depth finds the value of the cell there, counted from the top. -/
theorem peekAt?_eq {α : Type} [Inline α] (h : s.Represents cells) (depth : Nat) :
    (s.peekAt? depth : Option α) = cells.reverse[depth]?.bind Cell.value? :=
  h.bind_indexOf? depth _ _ h.get?_eq

/-- A look at the top finds the object of the topmost cell. -/
theorem peekObject?_eq {α : Type} [Boxed ω α] (h : s.Represents cells) :
    (s.peekObject? : Option α) = cells.reverse[0]?.bind Cell.boxed? :=
  h.bind_indexOf? 0 _ _ h.object?_eq

/-- A slot is an object slot just where its cell is an object. -/
theorem isObject_eq (h : s.Represents cells) (depth : Nat) :
    s.isObject depth = (cells.reverse[depth]?.bind Cell.object?).isSome := by
  rw [isObject, h.indexOf?_eq]
  by_cases hlt : depth < cells.length
  · have place : cells.length - 1 - depth = cells.length - (depth + 1) := by omega
    have inside : cells.length - (depth + 1) < cells.length := by omega
    rw [if_pos hlt, List.getElem?_reverse hlt, place]
    obtain ⟨below, above, hsplit, hlength⟩ := exists_split (List.getElem?_eq_getElem inside)
    rw [List.getElem?_eq_getElem inside]
    generalize cells[cells.length - (depth + 1)] = c at hsplit ⊢
    rw [hsplit] at h
    rw [← hlength, Option.map_some, h.slotAt_eq]
    cases c <;> rfl
  · rw [if_neg hlt, List.getElem?_eq_none (by simpa using hlt)]
    rfl

end Represents

end Stack

end ParserMachine
