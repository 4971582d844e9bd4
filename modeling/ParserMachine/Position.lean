/-!
# Positions

A `Cursor` is a place in the input: how many tokens lie before it, and its line and column, both
counted from 1. A `Position` is a cursor with the name of its source.

Coordinates are 64-bit words. Inside an input they never come near the end of that range; for
positions built by hand, `Cursor.advance?` and `Cursor.advanceLine?` refuse a step that would leave
it.

Line and column are bookkeeping: two positions are `same`, and are ordered, by name and offset
only.
-/

set_option autoImplicit false

namespace ParserMachine

/-- Offset, line and column, without a source name. -/
structure Cursor where
  /-- Tokens before this place. -/
  offset : UInt64
  /-- Line number, from 1. -/
  line : UInt64
  /-- Column number, from 1. -/
  column : UInt64
  deriving DecidableEq, Repr

namespace Cursor

/-- The beginning of an input. -/
def start : Cursor := ⟨0, 1, 1⟩

instance : Inhabited Cursor := ⟨start⟩

/-- Steps over tokens of the current line. -/
def next (c : Cursor) (amount : UInt64) : Cursor :=
  ⟨c.offset + amount, c.line, c.column + amount⟩

/-- Steps over one token that ends its line. -/
def nextLine (c : Cursor) : Cursor :=
  ⟨c.offset + 1, c.line + 1, 1⟩

/-- Whether a word can be raised by an amount and stay a word. -/
def hasRoom (word amount : UInt64) : Bool :=
  word.toNat + amount.toNat < UInt64.size

/-- `next`, refused where a coordinate would leave its range. -/
def advance? (c : Cursor) (amount : UInt64) : Option Cursor :=
  if hasRoom c.offset amount && hasRoom c.column amount then some (c.next amount) else none

/-- `nextLine`, refused where a coordinate would leave its range. -/
def advanceLine? (c : Cursor) : Option Cursor :=
  if hasRoom c.offset 1 && hasRoom c.line 1 then some c.nextLine else none

/-- Offset first, then line, then column. -/
instance : Ord Cursor where
  compare a b :=
    ((compare a.offset b.offset).then (compare a.line b.line)).then (compare a.column b.column)

/-- A cursor with its coordinates named. -/
def describe (c : Cursor) : String :=
  s!"Cursor \x7b offset: {c.offset}, line: {c.line}, column: {c.column} \x7d"

end Cursor

/-- A cursor in a named source. -/
structure Position extends Cursor where
  /-- Name of the source, possibly empty. -/
  name : String
  deriving DecidableEq, Repr

namespace Position

/-- The cursor in the named source. -/
def ofCursor (name : String) (cursor : Cursor) : Position := ⟨cursor, name⟩

/-- The beginning of the named source. -/
def ofName (name : String) : Position := ofCursor name .start

instance : Inhabited Position := ⟨ofName ""⟩

/-- Whether two positions agree in name and offset. -/
def same (a b : Position) : Bool :=
  a.offset = b.offset && a.name = b.name

/-- By name first, then by offset. -/
instance : Ord Position where
  compare a b := (compare a.name b.name).then (compare a.offset b.offset)

/-- The later of two positions, the second where neither is. -/
def max (a b : Position) : Position :=
  if compare a b = .gt then a else b

/-- The earlier of two positions, the first where neither is. -/
def min (a b : Position) : Position :=
  if compare a b = .gt then b else a

/-- Positions in order; those that compare equal keep the order they are given in. -/
def sort (positions : List Position) : List Position :=
  positions.mergeSort fun a b => (compare a b).isLE

/-- The text of a position: source name, line and column. -/
def text (p : Position) : String :=
  s!"{p.name}({p.line},{p.column})"

instance : ToString Position := ⟨text⟩

/-- Positions compare as equal just where they agree in name and offset. Lines and columns play no part
in either. -/
theorem compare_eq_eq_iff_same (a b : Position) : compare a b = .eq ↔ a.same b = true := by
  show (compare a.name b.name).then (compare a.offset b.offset) = .eq ↔ _
  rw [Ordering.then_eq_eq, Std.compare_eq_iff_eq, Std.compare_eq_iff_eq]
  simp [same, and_comm]

end Position

end ParserMachine
