/-!
# Tags for types, handed out on demand

A tag is a small number that stands for a type. Nobody lists the types in advance: the first look-up
of a type takes the next free tag and enters it in a table that all threads share. Each thread keeps
a cache of the tags it has seen and asks the table only for those it has not.

A look-up is up to three steps, and steps of different threads may come in any order: the thread
reads its own cache; where that has no answer it asks the table, which is one locked step; and it
enters the answer in its cache. `TagStore.step` is one such step and `TagStore.lookup` a look-up
that nobody interrupts.
-/

set_option autoImplicit false

namespace ParserMachine

/-- The table that all threads share. -/
structure TagTable (κ : Type) where
  /-- The types seen so far with their tags, newest first. -/
  tags : List (κ × UInt32) := []
  /-- The tag for the next new type. -/
  next : UInt32 := 1

namespace TagTable

variable {κ : Type} [DecidableEq κ]

/-- The tag of a type and the table that has it; a new type takes the next tag. -/
def assign (t : TagTable κ) (type : κ) : UInt32 × TagTable κ :=
  match t.tags.lookup type with
  | some tag => (tag, t)
  | none => (t.next, ⟨(type, t.next) :: t.tags, t.next + 1⟩)

end TagTable

/-- How far a thread is with a look-up. -/
inductive TagRequest (κ : Type) where
  /-- No look-up is going on. -/
  | idle
  /-- The cache did not know the type. -/
  | missed (type : κ)
  /-- The table has answered, and the cache is still to be filled. -/
  | answered (type : κ) (tag : UInt32)
  deriving DecidableEq

/-- A thread's own part: its cache and its look-up. -/
structure TagThread (κ : Type) where
  /-- The tags that the thread has seen. -/
  cache : List (κ × UInt32) := []
  /-- The look-up that is going on. -/
  request : TagRequest κ := .idle

/-- The shared table and the threads that use it. -/
structure TagStore (θ κ : Type) where
  /-- The shared table. -/
  table : TagTable κ := {}
  /-- The threads. -/
  threads : θ → TagThread κ := fun _ => {}

namespace TagStore

variable {θ κ : Type} [DecidableEq θ] [DecidableEq κ]

/-- The store with one thread's part replaced. -/
def setThread (s : TagStore θ κ) (thread : θ) (own : TagThread κ) : TagStore θ κ :=
  { s with threads := fun t => if t = thread then own else s.threads t }

/-- One step of a thread that looks up a type, with the tag where the step finds it: reading the
cache, asking the table, or filling the cache. A thread whose look-up is under way goes on with it,
whatever type is named. -/
def step (s : TagStore θ κ) (thread : θ) (type : κ) : Option UInt32 × TagStore θ κ :=
  let own := s.threads thread
  match own.request with
  | .idle =>
    match own.cache.lookup type with
    | some tag => (some tag, s)
    | none => (none, s.setThread thread { own with request := .missed type })
  | .missed type =>
    let (tag, table) := s.table.assign type
    (none, { s with table }.setThread thread { own with request := .answered type tag })
  | .answered type tag =>
    (some tag, s.setThread thread ⟨(type, tag) :: own.cache, .idle⟩)

/-- A look-up that nobody interrupts. -/
def lookup (s : TagStore θ κ) (thread : θ) (type : κ) : UInt32 × TagStore θ κ :=
  let own := s.threads thread
  match own.cache.lookup type with
  | some tag => (tag, s)
  | none =>
    let (tag, table) := s.table.assign type
    (tag, { s with table }.setThread thread { own with cache := (type, tag) :: own.cache })

/-- Looks up types one after the other in one thread. -/
def lookupAll (s : TagStore θ κ) (thread : θ) : List κ → List UInt32 × TagStore θ κ
  | [] => ([], s)
  | type :: types =>
    let (tag, s) := s.lookup thread type
    let (tags, s) := s.lookupAll thread types
    (tag :: tags, s)

end TagStore

end ParserMachine
