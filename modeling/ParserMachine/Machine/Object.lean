import ParserMachine.Bytecode.Code
import ParserMachine.Parser
import ParserMachine.Stack

/-!
# What the machine keeps on stacks

The machine's stacks hold results, and beside them what programs refer to by index: predicates,
names, complaints, functions, and the routines that apply functions. A constant pool is such a stack.

Tokens, spans, cursors, marks and routines are inline; all else are objects. A function is kept with
the kinds that it goes between, so that applying it to a value of another kind can be refused.
-/

set_option autoImplicit false

namespace ParserMachine

/-- What an object slot of the machine holds. -/
inductive Object (S : Signature) where
  /-- A result. -/
  | datum (d : Datum S)
  /-- The name of a category. -/
  | label (name : String)
  /-- An error told in its own words. -/
  | complaint (c : Complaint S.Custom)
  /-- A test of single tokens. -/
  | predicate (p : S.Token → Bool)
  /-- A function that maps a result. -/
  | mapping {a b : Kind S.Base} (f : S.Val a → S.Val b)
  /-- A function that makes the parser to go on with. -/
  | binder {a b : Kind S.Base} (f : S.Val a → Parser S b)
  /-- A function that combines two results. -/
  | projection {a b c : Kind S.Base} (f : S.Val a → S.Val b → S.Val c)
  /-- A program to run: its instructions and its constants. -/
  | program (code : Code) (pool : Stack (Object S))
  /-- The cursor of a frame. No instruction boxes one, but where a frame begins is asked for either way. -/
  | cursor (place : Cursor)

/-- The instructions of a parser and the constants that they refer to. -/
structure Program (S : Signature) where
  code : Code
  pool : Stack (Object S)

/-- The routine that applies a function to what lies on the stack. -/
inductive Dispatcher where
  /-- Maps the value on top. -/
  | map
  /-- Makes a program of the value on top, in its place. -/
  | bind
  /-- Makes a program of the value on top, which stays. -/
  | select
  /-- Combines the two values on top. -/
  | project
  deriving DecidableEq, Repr

/-- The routine that makes a value of how a block ended. It takes the value of the block's own kind, but
carries no kind: it is stored as a number of eight bytes, and the kinds of a family of parsers need not
fit. `observing_eq_observingAs` says that the kind of the block is never missed. -/
inductive Observer where
  | observe
  deriving DecidableEq, Repr

/-- The kind of item that a payload in an error frame tells. -/
inductive ItemKind where
  /-- The payload is one token. -/
  | token
  /-- The payload is a span of the input, or a run of tokens. -/
  | tokens
  /-- The payload is a name. -/
  | label
  /-- There is no payload. -/
  | endOfInput
  deriving DecidableEq, Repr

/-- A mark in an error frame, above the payload that it describes. -/
inductive Marker where
  /-- The bottom of a frame; no payload. -/
  | terminator
  /-- An expected item. -/
  | expected (kind : ItemKind)
  /-- An unexpected item. -/
  | unexpected (kind : ItemKind)
  /-- A complaint. -/
  | fancy
  deriving DecidableEq, Repr

namespace Dispatcher

/-- The number of a routine. -/
def code : Dispatcher → Nat
  | map => 0 | bind => 1 | select => 2 | project => 3

/-- The routine with a number. -/
def ofCode : Nat → Dispatcher
  | 0 => map
  | 1 => bind
  | 2 => select
  | _ => project

instance : Inline Dispatcher :=
  Inline.ofNumber .dispatcher 8 code ofCode (fun d => by cases d <;> decide)
    (fun d => by cases d <;> rfl) Inline.eightBytes_lt

end Dispatcher

instance : Inline Observer :=
  Inline.ofNumber .observer 8 (fun _ => 0) (fun _ => .observe) (fun _ => by decide) (fun _ => rfl)
    Inline.eightBytes_lt

namespace ItemKind

/-- The number of an item kind. -/
def code : ItemKind → Nat
  | token => 0 | tokens => 1 | label => 2 | endOfInput => 3

/-- The item kind with a number. -/
def ofCode : Nat → ItemKind
  | 0 => token
  | 1 => tokens
  | 2 => label
  | _ => endOfInput

/-- How many slots a payload takes. -/
def payloadSlots : ItemKind → Nat
  | endOfInput => 0
  | _ => 1

end ItemKind

namespace Marker

/-- The number of a mark. -/
def code : Marker → Nat
  | terminator => 0
  | fancy => 1
  | expected kind => 2 + kind.code
  | unexpected kind => 6 + kind.code

/-- The mark with a number. -/
def ofCode (n : Nat) : Marker :=
  if n = 0 then terminator
  else if n = 1 then fancy
  else if n < 6 then expected (.ofCode (n - 2))
  else unexpected (.ofCode (n - 6))

instance : Inline Marker :=
  Inline.ofNumber .marker 2 code ofCode
    (fun m => by rcases m with _ | k | k | _ <;> first | decide | (cases k <;> decide))
    (fun m => by rcases m with _ | k | k | _ <;> first | rfl | (cases k <;> rfl))
    Inline.twoBytes_lt

/-- How many slots lie below a mark as its payload. -/
def payloadSlots : Marker → Nat
  | terminator => 0
  | expected kind => kind.payloadSlots
  | unexpected kind => kind.payloadSlots
  | fancy => 1

end Marker

namespace Object

variable {S : Signature}

instance : Boxed (Object S) (Datum S) where
  box := datum
  unbox
    | datum d => some d
    | _ => none
  unbox_box _ := rfl

instance : Boxed (Object S) (List S.Token) where
  box ts := datum (.run ts)
  unbox
    | datum (.run ts) => some ts
    | _ => none
  unbox_box _ := rfl

instance : Boxed (Object S) String where
  box := label
  unbox
    | label name => some name
    | _ => none
  unbox_box _ := rfl

instance : Boxed (Object S) (Complaint S.Custom) where
  box := complaint
  unbox
    | complaint c => some c
    | _ => none
  unbox_box _ := rfl

instance : Boxed (Object S) (S.Token → Bool) where
  box := predicate
  unbox
    | predicate p => some p
    | _ => none
  unbox_box _ := rfl

instance : Boxed (Object S) (Program S) where
  box p := program p.code p.pool
  unbox
    | program code pool => some ⟨code, pool⟩
    | _ => none
  unbox_box _ := rfl

instance : Boxed (Object S) Cursor where
  box := cursor
  unbox
    | cursor place => some place
    | _ => none
  unbox_box _ := rfl

end Object

end ParserMachine
