import ParserMachine.Doubling
import ParserMachine.Fault
import ParserMachine.Memory
import ParserMachine.Stack.Inline

/-!
# Value stacks

An untyped stack of slots. A slot is *inline*, holding a value in the stack's own bytes, or an
*object*, holding a value of the object type `ω`. One run of bytes holds two tables that grow towards
each other:

```text
 0                      top              capacity - 4 * count      capacity
 | payload | header | payload | header | ... free ... | entry | entry |
 '-------- arena, upwards ------->            <------ index, downwards
```

* An inline slot has its payload in the arena, followed by an 8-byte header: the size of the payload
  and the tag of its type, 4 bytes each. Its index entry is the place of the header.
* An object slot has its value in a list beside the bytes. Its index entry is the place in that list,
  marked by `objectFlag`.

A stack that runs out of bytes doubles them, up to its limit; a push that needs more is a fault. A
typed read answers nothing where the slot holds another type. Every operation that faults leaves the
stack as it was, except `popN`, which tells what it left. What a caller asks about a slot counted from
the top is answered through `atDepth`.
-/

set_option autoImplicit false

namespace ParserMachine

/-- A stack of inline values and objects. -/
structure Stack (ω : Type) where
  /-- The arena and the index. -/
  memory : Array UInt8
  /-- Whether the bytes are still those that the stack was given to start with. -/
  borrowed : Bool
  /-- Arena bytes in use. -/
  top : Nat
  /-- Number of slots. -/
  count : Nat
  /-- The values of the object slots, oldest first. -/
  objects : Array ω
  /-- The most bytes that the stack may grow to. -/
  limit : Nat

/-- Where the value of a slot lies. -/
inductive Slot where
  /-- In the arena, before the header at the given place. -/
  | inline (header : Nat)
  /-- In the object list, at the given place. -/
  | object (index : Nat)
  deriving DecidableEq, Repr

/-- How values of a type are told from other objects. -/
class Boxed (ω α : Type) where
  /-- The object that holds a value. -/
  box : α → ω
  /-- The value of the type that an object holds, if it holds one. -/
  unbox : ω → Option α
  /-- A boxed value is found again. -/
  unbox_box : ∀ a, unbox (box a) = some a

/-! ### Layout -/

/-- The mark of an index entry that points into the object list. -/
def objectFlag : Nat := 0x10000000

/-- The index entry of a slot. -/
def Slot.entry : Slot → Nat
  | inline header => header
  | object index => objectFlag + index

/-- The slot that an index entry stands for. -/
def Slot.ofEntry (entry : Nat) : Slot :=
  if entry / objectFlag % 2 = 1 then .object (entry % objectFlag) else .inline entry

/-- The index entry of a slot, which must be able to hold its place. -/
def Slot.encode? : Slot → Except Fault Nat
  | inline header => if header < objectFlag then .ok header else .error (.offsetOutOfRange header)
  | object index =>
    if index < objectFlag then .ok (objectFlag + index) else .error (.objectOutOfRange index)

/-- A slot of a stack that was put on top of `bytes` arena bytes and `objects` objects. -/
def Slot.raised (bytes objects : Nat) : Slot → Slot
  | .inline header => .inline (header + bytes)
  | .object index => .object (index + objects)

/-- A slot that slid down by the given numbers of bytes and objects. -/
def Slot.lowered (bytes objects : Nat) : Slot → Slot
  | .inline header => .inline (header - bytes)
  | .object index => .object (index - objects)

/-- An index entry that could be encoded is read back as the slot that it was made of. -/
theorem Slot.ofEntry_of_encode? {s : Slot} {n : Nat} (h : s.encode? = .ok n) : ofEntry n = s := by
  cases s with
  | inline header =>
    rw [encode?] at h
    split at h
    · injection h
      subst n
      have : header / objectFlag = 0 := Nat.div_eq_of_lt ‹_›
      simp [ofEntry, this]
    · contradiction
  | object index =>
    rw [encode?] at h
    split at h
    · injection h
      subst n
      have hdiv : (objectFlag + index) / objectFlag = 1 := by
        unfold objectFlag at *
        omega
      have hmod : (objectFlag + index) % objectFlag = index := by
        unfold objectFlag at *
        omega
      simp [ofEntry, hdiv, hmod]
    · contradiction

namespace Stack

variable {ω : Type}

/-- Bytes allocated when a stack first needs some. -/
def firstCapacity : Nat := 64

/-- The limit of a stack that is given none. -/
def defaultLimit : Nat := 64 * 1024 * 1024

/-- Bytes of an index entry. -/
def entrySize : Nat := 4

/-- Bytes of a payload's header. -/
def headerSize : Nat := 8

/-- All bytes of the stack. -/
def capacity (s : Stack ω) : Nat := s.memory.size

/-- Index bytes in use. -/
def bottom (s : Stack ω) : Nat := s.count * entrySize

/-- Whether the stack has no slots. -/
def isEmpty (s : Stack ω) : Bool := s.count = 0

/-! ### Creating -/

/-- An empty stack with the given number of bytes of its own. -/
def withCapacity (capacity : Nat) : Stack ω :=
  ⟨Array.replicate capacity 0, false, 0, 0, #[], max defaultLimit capacity⟩

/-- An empty stack without bytes. -/
def new : Stack ω := withCapacity 0

instance : Inhabited (Stack ω) := ⟨new⟩

/-- An empty stack in given bytes, whatever they hold. -/
def ofScratch (scratch : Array UInt8) : Stack ω :=
  ⟨scratch, true, 0, 0, #[], max defaultLimit scratch.size⟩

/-- The stack with another limit; its present capacity stays allowed. -/
def withLimit (s : Stack ω) (limit : Nat) : Stack ω :=
  { s with limit := max limit s.capacity }

/-- A copy, in bytes of its own. -/
def clone (s : Stack ω) : Stack ω := { s with borrowed := false }

/-! ### Slots -/

/-- The number in the four bytes at a place. -/
def wordAt (s : Stack ω) (place : Nat) : Nat :=
  LittleEndian.decode (Memory.region s.memory place 4)

/-- The place of the index entry of a slot, counted from the bottom. -/
def entryPlace (s : Stack ω) (index : Nat) : Nat :=
  s.capacity - (index + 1) * entrySize

/-- Where the value of a slot lies. -/
def slotAt (s : Stack ω) (index : Nat) : Slot :=
  .ofEntry (s.wordAt (s.entryPlace index))

/-- `slotAt`, for the slots that there are. -/
def slot? (s : Stack ω) (index : Nat) : Option Slot :=
  if index < s.count then some (s.slotAt index) else none

/-- The index of a slot counted from the top. -/
def indexOf? (s : Stack ω) (depth : Nat) : Option Nat :=
  if depth < s.count then some (s.count - (depth + 1)) else none

/-- An answer about the slot at a depth. The depth is a 64-bit word, and so must be the next one. -/
def atDepth {β : Type} (depth : Nat) (answer : β) : Except Fault β :=
  if depth + 1 < UInt64.size then .ok answer else .error .rangeOutside

/-! ### Room -/

/-- The stack with its contents moved into fresh bytes. -/
def moved (s : Stack ω) (capacity : Nat) : Stack ω :=
  -- The arena stays at the low end, and the index at the high one.
  let arena := s.memory.extract 0 s.top
  let free := Array.replicate (capacity - s.top - s.bottom) 0
  let index := s.memory.extract (s.capacity - s.bottom) s.capacity
  { s with memory := arena ++ free ++ index, borrowed := false }

/-- The stack with room for the given number of further bytes. -/
def reserve (s : Stack ω) (extra : Nat) : Except Fault (Stack ω) :=
  let needed := s.top + s.bottom + extra
  if needed ≤ s.capacity then .ok s
  else
    -- Doubled as long as the limit allows, and then as large as it allows.
    let wanted := doubled needed (max s.capacity firstCapacity)
    if wanted ≤ s.limit then .ok (s.moved wanted)
    else if s.limit < needed then .error (.stackOverflow needed s.limit)
    else .ok (s.moved s.limit)

/-- Writes the index entry of a slot. -/
def writeEntry (s : Stack ω) (index entry : Nat) : Stack ω :=
  let place := s.entryPlace index
  { s with memory := Memory.overwrite s.memory place (LittleEndian.encode 4 entry) }

/-- The stack with an index entry for one more slot, for which there is room. -/
def addEntry (s : Stack ω) (entry : Nat) : Stack ω :=
  let s := s.writeEntry s.count entry
  { s with count := s.count + 1 }

/-- Writes bytes at the end of the arena, where there is room for them. -/
def addBytes (s : Stack ω) (bytes : List UInt8) : Stack ω :=
  { s with memory := Memory.overwrite s.memory s.top bytes, top := s.top + bytes.length }

/-! ### Pushing -/

/-- The payload and header of an inline value. -/
def payload {α : Type} [Inline α] (a : α) : List UInt8 :=
  Inline.encode a ++
    (LittleEndian.encode 4 (Inline.size α) ++ LittleEndian.encode 4 (Inline.tag α).code)

/-- Pushes a value inline. -/
def push {α : Type} [Inline α] (s : Stack ω) (a : α) : Except Fault (Stack ω) := do
  let size := Inline.size α
  let s ← s.reserve (size + headerSize + entrySize)
  let entry ← (Slot.inline (s.top + size)).encode?
  return (s.addBytes (payload a)).addEntry entry

/-- Pushes an object. -/
def pushObject (s : Stack ω) (o : ω) : Except Fault (Stack ω) := do
  let s ← s.reserve entrySize
  let entry ← (Slot.object s.objects.size).encode?
  let s := s.addEntry entry
  return { s with objects := s.objects.push o }

/-- Pushes a slot of another stack: the bytes of an inline value, or the object itself. -/
def pushFrom (s other : Stack ω) (index : Nat) : Except Fault (Stack ω) :=
  match other.slot? index with
  | none => .error (.corrupted .slotPastTop)
  | some (.object i) =>
    match other.objects[i]? with
    | none => .error (.corrupted .objectPastList)
    | some o => s.pushObject o
  | some (.inline header) => do
    let size := other.wordAt header
    let s ← s.reserve (size + headerSize + entrySize)
    let entry ← (Slot.inline (s.top + size)).encode?
    -- The header lies behind the value and is copied with it.
    return (s.addBytes (Memory.region other.memory (header - size) (size + headerSize))).addEntry
      entry

/-- Pushes all slots of another stack, in their order. Room is made for all of them at once. -/
def append (s other : Stack ω) : Except Fault (Stack ω) := do
  let s ← s.reserve (other.top + other.bottom)
  let bytes := s.top
  let objects := s.objects.size
  let s := s.addBytes (Memory.region other.memory 0 other.top)
  let s ← (List.range other.count).foldlM (fun (s : Stack ω) i => do
    let entry ← ((other.slotAt i).raised bytes objects).encode?
    return s.addEntry entry) s
  return { s with objects := s.objects ++ other.objects }

/-! ### Reading -/

/-- The inline value of type `α` in a slot, counted from the bottom. -/
def get? {α : Type} [Inline α] (s : Stack ω) (index : Nat) : Option α :=
  match s.slot? index with
  | some (.inline header) =>
    let size := s.wordAt header
    if s.wordAt (header + 4) = (Inline.tag α).code && size = Inline.size α then
      some (Inline.decode (Memory.region s.memory (header - size) size))
    else none
  | _ => none

/-- The inline value of type `α` in a slot, counted from the top. -/
def peekAt? {α : Type} [Inline α] (s : Stack ω) (depth : Nat) : Option α :=
  (s.indexOf? depth).bind s.get?

/-- The inline value of type `α` on top. -/
def peek? {α : Type} [Inline α] (s : Stack ω) : Option α := s.peekAt? 0

/-- The object in a slot, counted from the bottom. -/
def rawObject? (s : Stack ω) (index : Nat) : Option ω :=
  match s.slot? index with
  | some (.object i) => s.objects[i]?
  | _ => none

/-- The boxed value of type `α` in a slot, counted from the bottom. -/
def object? {α : Type} [Boxed ω α] (s : Stack ω) (index : Nat) : Option α :=
  (s.rawObject? index).bind Boxed.unbox

/-- The boxed value of type `α` on top. -/
def peekObject? {α : Type} [Boxed ω α] (s : Stack ω) : Option α :=
  (s.indexOf? 0).bind s.object?

/-- The value of type `α` on top, inline or boxed. -/
def peekValue? {α : Type} [Inline α] [Boxed ω α] (s : Stack ω) : Option α :=
  (s.peek? : Option α).or s.peekObject?

/-- Whether a slot, counted from the top, holds a value of type `α`, inline or boxed. -/
def holds (α : Type) [Inline α] [Boxed ω α] (s : Stack ω) (depth : Nat) : Bool :=
  (s.peekAt? depth : Option α).isSome ||
    (((s.indexOf? depth).bind s.object? : Option α)).isSome

/-- Whether a slot, counted from the top, is an object slot. -/
def isObject (s : Stack ω) (depth : Nat) : Bool :=
  match (s.indexOf? depth).map s.slotAt with
  | some (.object _) => true
  | _ => false

/-! ### Popping -/

/-- Removes the top slot, whose value must be the newest of its kind. -/
def pop (s : Stack ω) : Except Fault (Stack ω) :=
  match s.indexOf? 0 with
  | none => .error (.corrupted .popOnEmpty)
  | some index =>
    match s.slotAt index with
    | .object i =>
      if i + 1 = s.objects.size then
        .ok { s with objects := s.objects.pop, count := index }
      else .error (.corrupted .staleObject)
    | .inline header =>
      if header + headerSize = s.top then
        .ok { s with top := header - s.wordAt header, count := index }
      else .error (.corrupted .stalePayload)

/-- Removes slots from the top, as many as asked for or until there is a fault. -/
def popN : Nat → Stack ω → Stack ω × Option Fault
  | 0, s => (s, none)
  | n + 1, s =>
    match s.pop with
    | .ok s => popN n s
    | .error fault => (s, some fault)

/-- Removes the given number of slots from the top. -/
def popAll (s : Stack ω) (n : Nat) : Except Fault (Stack ω) :=
  match popN n s with
  | (s, none) => .ok s
  | (_, some fault) => .error fault

/-- Pops the top slot as an inline value of type `α`; nothing where it holds none. -/
def popValue? {α : Type} [Inline α] (s : Stack ω) : Except Fault (Option (α × Stack ω)) :=
  match (s.peek? : Option α) with
  | none => .ok none
  | some a => return some (a, ← s.pop)

/-- Pops the top slot as a boxed value of type `α`; nothing where it holds none. -/
def takeObject? {α : Type} [Boxed ω α] (s : Stack ω) : Except Fault (Option (α × Stack ω)) :=
  match (s.peekObject? : Option α) with
  | none => .ok none
  | some a => return some (a, ← s.pop)

/-- Pops the top slot as a value of type `α`, inline or boxed; nothing where it holds none. -/
def take? {α : Type} [Inline α] [Boxed ω α] (s : Stack ω) :
    Except Fault (Option (α × Stack ω)) :=
  match (s.peekValue? : Option α) with
  | none => .ok none
  | some a => return some (a, ← s.pop)

/-! ### Dropping from the middle -/

/-- Arena bytes of the given number of lowest slots. -/
def arenaBelow (s : Stack ω) : Nat → Nat
  | 0 => 0
  | n + 1 =>
    match s.slotAt n with
    | .inline header => header + headerSize
    | .object _ => arenaBelow s n

/-- Objects of the given number of lowest slots. -/
def objectsBelow (s : Stack ω) : Nat → Nat
  | 0 => 0
  | n + 1 =>
    match s.slotAt n with
    | .inline _ => objectsBelow s n
    | .object index => index + 1

/-- Removes `drop` slots that lie directly beneath the top `keep` ones. The kept ones slide down. -/
def dropUnder (s : Stack ω) (keep drop : Nat) : Except Fault (Stack ω) :=
  if drop = 0 then .ok s
  else if UInt64.size ≤ keep + drop then .error .rangeOutside
  else if s.count < keep + drop then .error (.corrupted .dropPastBottom)
  else
    let firstKept := s.count - keep
    let firstDropped := firstKept - drop
    let byteLow := s.arenaBelow firstDropped
    let byteMid := s.arenaBelow firstKept
    let objectLow := s.objectsBelow firstDropped
    let objectMid := s.objectsBelow firstKept
    let bytes := byteMid - byteLow
    let objects := objectMid - objectLow
    let s := { s with
      memory := Memory.moveDown s.memory byteMid byteLow (s.top - byteMid)
      top := s.top - bytes
      objects := s.objects.extract 0 objectLow ++ s.objects.extract objectMid }
    -- From the lowest one up, so that no entry is overwritten before it was read.
    let s := (List.range keep).foldl (fun (s : Stack ω) i =>
      s.writeEntry (firstDropped + i)
        ((s.slotAt (firstKept + i)).lowered bytes objects).entry) s
    .ok { s with count := s.count - drop }

/-- The measures of a stack, named. -/
def describe (s : Stack ω) : String :=
  s!"Stack \x7b len: {s.count}, top: {s.top}, bottom: {s.bottom}, objects: {s.objects.size}, capacity: {s.capacity} \x7d"

end Stack

end ParserMachine
