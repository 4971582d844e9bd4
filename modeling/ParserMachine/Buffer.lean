import ParserMachine.Doubling
import ParserMachine.Fault
import ParserMachine.Memory

/-!
# Double-ended buffers

A sequence that grows at both ends. Its elements lie in a window of a larger backing array, with
free room before and behind; a write at either end lands in that room, and where there is too little
the capacity is doubled until there is enough. So a long series of writes at both ends moves each
element only a few times.

`Buffer.toList` is the sequence that a buffer stands for. Every operation can be understood by what
it does to that list; where the window lies is seen only by `capacity`, `frontRoom` and `backRoom`.
-/

set_option autoImplicit false

namespace ParserMachine

/-- Why a buffer cannot be built over given memory. -/
inductive BufferError where
  /-- The memory has no room at all. -/
  | zeroCapacity
  /-- The window would start outside the memory. -/
  | splitOutOfRange (split capacity : Nat)
  deriving DecidableEq, Repr

/-- The wording of a refused buffer. -/
def BufferError.message : BufferError → String
  | zeroCapacity => "buffer backing must not be empty"
  | splitOutOfRange split capacity => s!"split point {split} exceeds backing capacity {capacity}"

/-- A sequence in a window of a backing array. -/
structure Buffer (α : Type) where
  /-- The backing array, absent before the first write. -/
  backing : Option (Array α)
  /-- Where the window starts. -/
  start : Nat
  /-- How many elements the window holds. -/
  size : Nat
  /-- The least capacity that a first write allocates. -/
  firstCapacity : Nat

namespace Buffer

variable {α : Type}

/-- Capacity that a first write allocates where nothing else is asked for. -/
def defaultCapacity : Nat := 32

/-- An empty buffer without memory. -/
def new : Buffer α := ⟨none, 0, 0, defaultCapacity⟩

instance : Inhabited (Buffer α) := ⟨new⟩

/-- Whether the buffer holds no elements. -/
def isEmpty (b : Buffer α) : Bool := b.size = 0

/-- The size of the backing array. -/
def capacity (b : Buffer α) : Nat :=
  match b.backing with
  | some backing => backing.size
  | none => 0

/-- Free places before the window. -/
def frontRoom (b : Buffer α) : Nat := b.start

/-- Free places behind the window. -/
def backRoom (b : Buffer α) : Nat := b.capacity - (b.start + b.size)

/-- The elements. -/
def toList (b : Buffer α) : List α :=
  match b.backing with
  | some backing => Memory.region backing b.start b.size
  | none => []

/-- Equality of contents. -/
def sameItems [BEq α] (a b : Buffer α) : Bool :=
  a.toList == b.toList

/-- The least power of two that is at least the given number. -/
def powerOfTwoAbove (n : Nat) : Nat := doubled n 1

/-! ### Building -/

variable [Inhabited α]

/-- An empty buffer over given memory, with its window at the given place. -/
def ofBacking (memory : Array α) (split : Nat) : Except BufferError (Buffer α) :=
  if memory.isEmpty then .error .zeroCapacity
  else if memory.size < split then .error (.splitOutOfRange split memory.size)
  else .ok ⟨some memory, split, 0, memory.size⟩

/-- An empty buffer of the given capacity, with its window at the given place. -/
def withSplit (capacity split : Nat) : Except BufferError (Buffer α) :=
  ofBacking (Array.replicate capacity default) split

/-- An empty buffer with at least the given capacity, its window in the middle. Without capacity it
allocates on the first write. -/
def empty (capacity : Nat) : Buffer α :=
  if capacity = 0 then new
  else
    let room := powerOfTwoAbove capacity
    ⟨some (Array.replicate room default), room / 2, 0, room⟩

/-! ### Growing -/

/-- The buffer with memory of its own: the first allocation leaves half of the room on each side. -/
def allocated (b : Buffer α) (extra : Nat) : Buffer α :=
  match b with
  | ⟨some _, _, _, _⟩ => b
  | ⟨none, _, size, firstCapacity⟩ =>
    let room := powerOfTwoAbove (max firstCapacity (extra * 2))
    ⟨some (Array.replicate room default), room / 2, size, firstCapacity⟩

/-- The buffer with its window moved to the given place of a fresh array. -/
def relocated (b : Buffer α) (capacity start : Nat) : Buffer α :=
  ⟨some (Memory.overwrite (Array.replicate capacity default) start b.toList), start, b.size,
    b.firstCapacity⟩

/-- The buffer with room for a run behind its window. -/
def reserveBack (b : Buffer α) (extra : Nat) : Buffer α :=
  let b := b.allocated extra
  let needed := b.start + b.size + extra
  if needed ≤ b.capacity then b
  else b.relocated (doubled needed (max b.capacity 1)) b.start

/-- The buffer with room for a run before its window. All that the capacity grows by goes to the
front. -/
def reserveFront (b : Buffer α) (extra : Nat) : Buffer α :=
  let b := b.allocated extra
  if extra ≤ b.start then b
  else
    let capacity := doubled (extra + b.capacity - b.start) (max b.capacity 1)
    b.relocated capacity (b.start + (capacity - b.capacity))

/-- The buffer with a run added at the back. -/
def extend (b : Buffer α) (run : List α) : Buffer α :=
  if run.isEmpty then b
  else
    match b.reserveBack run.length with
    | ⟨some backing, start, size, firstCapacity⟩ =>
      ⟨some (Memory.overwrite backing (start + size) run), start, size + run.length, firstCapacity⟩
    | b => b

/-- The buffer with a run added at the front, in the order of the run. -/
def extendFront (b : Buffer α) (run : List α) : Buffer α :=
  if run.isEmpty then b
  else
    match b.reserveFront run.length with
    | ⟨some backing, start, size, firstCapacity⟩ =>
      let start := start - run.length
      ⟨some (Memory.overwrite backing start run), start, size + run.length, firstCapacity⟩
    | b => b

/-- The buffer with one element added at the back. -/
def append (b : Buffer α) (a : α) : Buffer α := b.extend [a]

/-- The buffer with one element added at the front. -/
def prepend (b : Buffer α) (a : α) : Buffer α := b.extendFront [a]

/-- A buffer with the given elements. -/
def ofList (l : List α) : Buffer α := new.extend l

/-! ### Parts -/

/-- One end of a range of places. -/
inductive Bound where
  /-- The range goes up to, or starts from, the given place. -/
  | included (place : Nat)
  /-- The range stops short of, or starts behind, the given place. -/
  | excluded (place : Nat)
  /-- The range is open at this end. -/
  | unbounded
  deriving DecidableEq, Repr

/-- The first place of a range. -/
def Bound.first : Bound → Nat
  | included place => place
  | excluded place => place + 1
  | unbounded => 0

/-- The first place behind a range in a sequence of the given size. -/
def Bound.stop (size : Nat) : Bound → Nat
  | included place => place + 1
  | excluded place => place
  | unbounded => size

omit [Inhabited α] in
/-- Part of the elements; a range that does not lie inside them is a fault. -/
def slice (b : Buffer α) (lower upper : Bound) : Except Fault (List α) :=
  let first := lower.first
  let stop := upper.stop b.size
  if first ≤ stop && stop ≤ b.size then .ok ((b.toList.drop first).take (stop - first))
  else .error .rangeOutside

omit [Inhabited α] in
/-- The elements and the capacity, named. -/
def describe [ToString α] (b : Buffer α) : String :=
  let items := ", ".intercalate (b.toList.map toString)
  s!"GrowableBuffer \x7b items: [{items}], capacity: {b.capacity} \x7d"

end Buffer

end ParserMachine
