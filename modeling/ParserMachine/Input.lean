import ParserMachine.Fault
import ParserMachine.Stack.Inline

/-!
# Reading input

An `Input` is an array of tokens that a 64-bit machine can address. A `Span` is a run of it, by
place and length, which stands for the tokens where they need not be copied. A `Reader` is an input
with the name of its source and a cursor; reading moves the cursor, and restoring a cursor seen
before goes back.
-/

set_option autoImplicit false

namespace ParserMachine

/-- Tokens to parse: fewer than half of the range of a 64-bit word, as memory can hold. -/
structure Input (τ : Type) where
  /-- The tokens. -/
  tokens : Array τ
  /-- Every place in the input, and the place behind it, is a word. -/
  size_lt : tokens.size < UInt64.size / 2

namespace Input

variable {τ : Type}

/-- The tokens of an array, if they are not too many to address. -/
def ofArray? (tokens : Array τ) : Option (Input τ) :=
  if h : tokens.size < UInt64.size / 2 then some ⟨tokens, h⟩ else none

instance : Inhabited (Input τ) := ⟨#[], (by decide : 0 < UInt64.size / 2)⟩

/-- The number of tokens. -/
def size (w : Input τ) : Nat := w.tokens.size

/-- The first place, from the given one on, whose token fails a predicate or is missing. -/
def endOfRun (w : Input τ) (p : τ → Bool) (place : Nat) : Nat :=
  if h : place < w.tokens.size then
    if p w.tokens[place] then endOfRun w p (place + 1) else place
  else place
termination_by w.tokens.size - place

/-- How many tokens in a row satisfy a predicate, from the given place on. -/
def countWhile (w : Input τ) (p : τ → Bool) (place : Nat) : Nat :=
  w.endOfRun p place - place

/-- How many tokens in a row are those of a given run, from the given place on. -/
def countCommon [DecidableEq τ] (w : Input τ) : List τ → Nat → Nat
  | [], _ => 0
  | t :: run, place =>
    if w.tokens[place]? = some t then countCommon w run (place + 1) + 1 else 0

end Input

/-- A run of input tokens, by its first place and its length. -/
structure Span where
  start : UInt64
  length : UInt64
  deriving DecidableEq, Repr

namespace Span

instance : Inline Span where
  tag := .span
  size := 16
  encode s := LittleEndian.encode 8 s.start.toNat ++ LittleEndian.encode 8 s.length.toNat
  decode bs := ⟨Inline.wordAt bs 0, Inline.wordAt bs 8⟩
  length_encode s := by simp
  decode_encode s := by
    have bound (w : UInt64) : w.toNat < LittleEndian.bound 8 := w.toNat_lt
    simp [Inline.wordAt, List.drop_append, List.take_of_length_le,
      LittleEndian.decode_encode_of_lt (bound s.start),
      LittleEndian.decode_encode_of_lt (bound s.length)]
  size_lt := by decide

/-- The place behind a span. -/
def stop (s : Span) : Nat := s.start.toNat + s.length.toNat

/-- The tokens that a span covers, all of which must be there. -/
def of {τ : Type} (s : Span) (w : Input τ) : Except Fault (List τ) :=
  if s.stop ≤ w.size then .ok (w.tokens.extract s.start.toNat s.stop).toList
  else .error .rangeOutside

end Span

/-- An input, the name of its source, and how far it has been read. -/
structure Reader (τ : Type) where
  input : Input τ
  name : String
  cursor : Cursor

namespace Reader

variable {τ : Type}

/-- A reader at the beginning of an input. -/
def ofInput (input : Input τ) (name : String) : Reader τ := ⟨input, name, .start⟩

/-- The number of tokens read. -/
def offset (r : Reader τ) : Nat := r.cursor.offset.toNat

/-- The next token, if there is one. -/
def peek? (r : Reader τ) : Option τ := r.input.tokens[r.offset]?

/-- Whether every token has been read. -/
def atEnd (r : Reader τ) : Bool := r.input.size ≤ r.offset

/-- How many tokens have not been read. -/
def remainingSize (r : Reader τ) : Nat := r.input.size - r.offset

/-- The tokens that have not been read. -/
def remaining (r : Reader τ) : List τ :=
  (r.input.tokens.extract r.offset r.input.size).toList

/-- The reader at another cursor of the same input. -/
def restore (r : Reader τ) (cursor : Cursor) : Reader τ := { r with cursor }

/-- The reader behind the given number of tokens of the current line. -/
def next (r : Reader τ) (amount : Nat) : Reader τ :=
  r.restore (r.cursor.next (UInt64.ofNat amount))

/-- The reader behind a token that ends its line. -/
def nextLine (r : Reader τ) : Reader τ :=
  r.restore r.cursor.nextLine

/-- A run of tokens that starts with the next one. -/
def span (r : Reader τ) (length : Nat) : Span :=
  ⟨r.cursor.offset, UInt64.ofNat length⟩

/-- A cursor as a position in the reader's source. -/
def positionOf (r : Reader τ) (cursor : Cursor) : Position :=
  Position.ofCursor r.name cursor

/-- Where the reader is. -/
def position (r : Reader τ) : Position := r.positionOf r.cursor

end Reader

end ParserMachine
