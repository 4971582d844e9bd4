import ParserMachine.Machine.Frame
import ParserMachine.Machine.Program

/-!
# Instructions at work

What each instruction does to the machine: its reader and its stack. An instruction that succeeds
pushes one value, and one that fails pushes one error frame; nothing else is left on the stack.

Whether input was consumed is stored nowhere. It is the difference of the reader's offset before and
after.

Instructions that wrap blocks are given the function that runs a block, so that `step` is no
recursion. The program that a function makes is run in the same way.
-/

set_option autoImplicit false

namespace ParserMachine.Machine

variable {S : Signature}

/-- How a block ended. -/
inductive Reply where
  /-- One value was pushed. -/
  | ok
  /-- One error frame was pushed. -/
  | err
  deriving DecidableEq, Repr

/-- Why a run stopped without a reply. -/
inductive Stop where
  /-- So many blocks would run within each other, more than allowed. -/
  | tooDeep (depth : Nat)
  /-- No limit is set, and blocks run within each other without end. -/
  | endless
  /-- A function of the grammar made a parser that cannot be built. -/
  | unbuilt (f : Fault)
  /-- A rule of the library was broken. -/
  | fault (f : Fault)
  deriving DecidableEq, Repr

instance : MonadLift (Except Malformed) (Except Fault) where
  monadLift x := x.mapError .malformed

instance : MonadLift (Except Fault) (Except Stop) where
  monadLift x := x.mapError .fault

/-- The machine between two instructions. -/
structure State (S : Signature) where
  /-- The input, and how far it has been read. -/
  reader : Reader S.Token
  /-- The values and error frames pushed so far. -/
  stack : Stack (Object S)
  /-- How many blocks run within each other. -/
  depth : Nat

/-- Runs a block: its code, the pool of constants, the place in the pool that its indices count from,
and the machine before it. -/
abbrev BlockRunner (S : Signature) : Type :=
  List UInt8 → Stack (Object S) → Nat → State S → Except Stop (Reply × State S)

/-! ### Constants and values -/

/-- An inline constant. -/
def constantValue {α : Type} [Inline α] (pool : Stack (Object S)) (id : Nat) : Except Fault α :=
  match (pool.get? id : Option α) with
  | some a => .ok a
  | none => .error (.corrupted .wrongConstant)

/-- An object constant. -/
def constantObject {α : Type} [Boxed (Object S) α] (pool : Stack (Object S)) (id : Nat) :
    Except Fault α :=
  match (pool.object? id : Option α) with
  | some a => .ok a
  | none => .error (.corrupted .wrongConstant)

/-- The result in the top slot, in whichever way it is held there: as a span of the input, as an
inline token, as the inline unit value, or as an object. -/
def topDatum? (input : Input S.Token) (s : Stack (Object S)) :
    Except Fault (Option (Datum S)) :=
  match (s.peek? : Option Span) with
  | some span => return some (.run (← span.of input))
  | none =>
    match (s.peek? : Option S.Token) with
    | some t => .ok (some (.token t))
    | none =>
      match (s.peek? : Option Unit) with
      | some () => .ok (some .unit)
      | none => .ok s.peekObject?

/-- The result of kind `k` in the top slot. -/
def peekValue (input : Input S.Token) (s : Stack (Object S)) (k : Kind S.Base) :
    Except Fault (S.Val k) := do
  match (← topDatum? input s).bind (Datum.toVal? k) with
  | some v => .ok v
  | none => .error (.corrupted .wrongValue)

/-- Pops the result of kind `k` in the top slot. -/
def takeValue (input : Input S.Token) (s : Stack (Object S)) (k : Kind S.Base) :
    Except Fault (S.Val k × Stack (Object S)) := do
  return (← peekValue input s k, ← s.pop)

/-! ### Primitives -/

/-- Pushes a token that was matched and steps over it. -/
def accept (s : State S) (t : S.Token) : Except Fault (Reply × State S) :=
  match s with
  | ⟨reader, stack, depth⟩ => return (.ok, ⟨reader.next 1, ← stack.push t, depth⟩)

/-- Pushes a run of the next tokens and steps over it. -/
def acceptRun (s : State S) (size : Nat) : Except Fault (Reply × State S) :=
  match s with
  | ⟨reader, stack, depth⟩ =>
    return (.ok, ⟨reader.next size, ← stack.push (reader.span size), depth⟩)

/-- Pushes an error frame for the present place, with the items that are added to it. -/
def refuse (s : State S) (items : Stack (Object S) → Except Fault (Stack (Object S))) :
    Except Fault (Reply × State S) :=
  match s with
  | ⟨reader, stack, depth⟩ => do
    let stack ← items (← Frame.start stack)
    return (.err, ⟨reader, ← Frame.close stack reader.cursor, depth⟩)

/-- Takes one token that satisfies a test; where there is none, the given items are expected. -/
def takeIf (test : S.Token → Bool)
    (wanted : Stack (Object S) → Except Fault (Stack (Object S))) (s : State S) :
    Except Fault (Reply × State S) :=
  let found := s.reader.peek?
  match found.filter test with
  | some t => accept s t
  | none => refuse s fun stack => do wanted (← Frame.unexpected stack found)

/-- Matches the token that a constant gives. -/
def token (pool : Stack (Object S)) (id : Nat) (s : State S) : Except Fault (Reply × State S) := do
  let wanted : S.Token ← constantValue pool id
  takeIf (· = wanted) (Frame.expected · .token pool id) s

/-- Matches the run of tokens that a constant gives. What did match is consumed in any case. -/
def tokens (pool : Stack (Object S)) (id : Nat) (s : State S) :
    Except Fault (Reply × State S) := do
  let wanted : List S.Token ← constantObject pool id
  let matched := s.reader.input.countCommon wanted s.reader.offset
  if matched = wanted.length then acceptRun s matched
  else
    let available := min s.reader.remainingSize wanted.length
    let span := s.reader.span available
    -- The frame is closed at the start, before what did match is stepped over.
    let (reply, s) ← refuse s fun stack => do
      let stack ←
        if available = 0 then Frame.unexpectedEnd stack else Frame.unexpectedSpan stack span
      Frame.expected stack .tokens pool id
    return (reply, ⟨s.reader.next matched, s.stack, s.depth⟩)

/-- Takes any one token. -/
def take1 (s : State S) : Except Fault (Reply × State S) :=
  match s.reader.peek? with
  | some found => accept s found
  | none => refuse s Frame.unexpectedEnd

/-- Takes the given number of tokens. -/
def takeN (count : Nat) (s : State S) : Except Fault (Reply × State S) :=
  if s.reader.remainingSize < count then refuse s Frame.unexpectedEnd else acceptRun s count

/-- Takes the tokens that satisfy the predicate that a constant gives. -/
def takeWhile (pool : Stack (Object S)) (id : Nat) (atLeastOne : Bool) (s : State S) :
    Except Fault (Reply × State S) := do
  let p : S.Token → Bool ← constantObject pool id
  let count := s.reader.input.countWhile p s.reader.offset
  if atLeastOne && count = 0 then
    let found := s.reader.peek?
    refuse s (Frame.unexpected · found)
  else acceptRun s count

/-- Takes one token that satisfies the predicate that a constant gives. -/
def satisfy (pool : Stack (Object S)) (id : Nat) (s : State S) :
    Except Fault (Reply × State S) := do
  let p : S.Token → Bool ← constantObject pool id
  takeIf p .ok s

/-- Takes one token of the set that a constant gives. -/
def oneOf (pool : Stack (Object S)) (id : Nat) (s : State S) :
    Except Fault (Reply × State S) := do
  let set : List S.Token ← constantObject pool id
  takeIf (· ∈ set) (Frame.expectedEach · set) s

/-- Takes one token that is not in the set that a constant gives. -/
def noneOf (pool : Stack (Object S)) (id : Nat) (s : State S) :
    Except Fault (Reply × State S) := do
  let set : List S.Token ← constantObject pool id
  takeIf (· ∉ set) .ok s

/-- Succeeds at the end of the input. -/
def eof (s : State S) : Except Fault (Reply × State S) :=
  match s.reader.peek? with
  | none =>
    match s with
    | ⟨reader, stack, depth⟩ => return (.ok, ⟨reader, ← stack.push (), depth⟩)
  | found => refuse s fun stack => do Frame.expectedEnd (← Frame.unexpected stack found)

/-- Takes a token that ends its line; where there is none, the name that a constant gives is
expected. -/
def newline (pool : Stack (Object S)) (id : Nat) (s : State S) :
    Except Fault (Reply × State S) :=
  let found := s.reader.peek?
  match found.filter Token.isLineBreak with
  | some t =>
    match s with
    | ⟨reader, stack, depth⟩ => return (.ok, ⟨reader.nextLine, ← stack.push t, depth⟩)
  | none => refuse s fun stack => do Frame.expected (← Frame.unexpected stack found) .label pool id

/-! ### Functions -/

/-- Pops the function on top. -/
def takeFunction (s : Stack (Object S)) : Except Fault (Object S × Stack (Object S)) := do
  match (s.indexOf? 0).bind s.rawObject? with
  | some function => return (function, ← s.pop)
  | none => .error (.corrupted .wrongFunction)

/-- The program of a parser that a function of the grammar made. -/
def build (rules : Grammar S) {k : Kind S.Base} (p : Parser S k) : Except Stop (Program S) :=
  (p.compile rules).mapError .unbuilt

/-- Lets a routine apply the function on top to what lies below it. -/
def dispatch (rules : Grammar S) (input : Input S.Token) (routine : Dispatcher)
    (s : Stack (Object S)) : Except Stop (Stack (Object S)) := do
  let (function, s) ← takeFunction s
  match routine, function with
  | .map, .mapping (a := a) f =>
    let (v, s) ← takeValue input s a
    s.pushObject (.datum (.ofVal (f v)))
  | .bind, .binder (a := a) f =>
    let (v, s) ← takeValue input s a
    let p ← build rules (f v)
    s.pushObject (.program p.code p.pool)
  | .select, .binder (a := a) f =>
    -- The value stays where it is, for the projection that comes later.
    let v ← peekValue input s a
    let p ← build rules (f v)
    s.pushObject (.program p.code p.pool)
  | .project, .projection (a := a) (b := b) f =>
    let (second, s) ← takeValue input s b
    let (first, s) ← takeValue input s a
    s.pushObject (.datum (.ofVal (f first second)))
  | _, _ => throw (.fault (.corrupted .wrongFunction))

/-- Pushes the function that an instruction names and lets its routine apply it. -/
def invoke (rules : Grammar S) (code : List UInt8) (pool : Stack (Object S)) (offset : Nat)
    (s : State S) : Except Stop (State S) :=
  match s with
  | ⟨reader, stack, depth⟩ => do
    let routineId ← (Bytecode.constantAt code 1 offset : Except Fault Nat)
    let routine : Dispatcher ← (constantValue pool routineId : Except Fault Dispatcher)
    let functionId ← (Bytecode.constantAt code 3 offset : Except Fault Nat)
    let stack ← stack.pushFrom pool functionId
    return ⟨reader, ← dispatch rules reader.input routine stack, depth⟩

/-- Runs the program that a function has just pushed. -/
def runMade (run : BlockRunner S) (s : State S) : Except Stop (Reply × State S) :=
  match s with
  | ⟨reader, stack, depth⟩ => do
    match ← (stack.takeObject? : Except Fault (Option (Program S × Stack (Object S)))) with
    | some (program, stack) => run program.code.bytes program.pool 0 ⟨reader, stack, depth⟩
    | none => throw (.fault (.corrupted .noProgram))

/-! ### Blocks -/

/-- Runs a block and on failure goes back to its start. -/
def tryBlock (run : State S → Except Stop (Reply × State S)) (s : State S) :
    Except Stop (Reply × State S) := do
  let start := s.reader.cursor
  let (reply, s) ← run s
  if reply = .err && s.reader.cursor.offset ≠ start.offset then
    return (reply, ⟨s.reader.restore start, s.stack, s.depth⟩)
  else return (reply, s)

/-- Runs the left block, and the right one where the left failed without consuming. Where both
failed, their frames become one. -/
def choice (left right : State S → Except Stop (Reply × State S)) (s : State S) :
    Except Stop (Reply × State S) := do
  let start := s.reader.cursor.offset
  let (reply, s) ← left s
  if reply = .ok then return (.ok, s)
  else if s.reader.cursor.offset ≠ start then return (.err, s)
  else
    -- The frame of the left side stays under what the right one leaves.
    let (reply, s) ← right s
    match reply with
    | .ok => return (.ok, ⟨s.reader, ← Frame.discardUnder s.stack 1, s.depth⟩)
    | .err => return (.err, ⟨s.reader, ← Frame.mergeTop s.stack, s.depth⟩)

/-- Runs a block; where it fails without consuming, the expected items of its frame make room for
the name that a constant gives, if one is given. -/
def labelled (run : State S → Except Stop (Reply × State S)) (pool : Stack (Object S))
    (label : Option Nat) (s : State S) : Except Stop (Reply × State S) := do
  let start := s.reader.cursor.offset
  let (reply, s) ← run s
  if reply = .err && s.reader.cursor.offset = start then
    let stack ← Frame.stripExpected s.stack
    match label with
    | some id => return (reply, ⟨s.reader, ← Frame.relabel stack pool id, s.depth⟩)
    | none => return (reply, ⟨s.reader, stack, s.depth⟩)
  else return (reply, s)

/-- Runs a block and on success goes back to its start. -/
def lookAhead (run : State S → Except Stop (Reply × State S)) (s : State S) :
    Except Stop (Reply × State S) := do
  let start := s.reader.cursor
  let (reply, s) ← run s
  if reply = .ok then return (reply, ⟨s.reader.restore start, s.stack, s.depth⟩) else return (reply, s)

/-- Runs a block and turns its reply around, at its start. What the block matched is unexpected. -/
def notFollowedBy (run : State S → Except Stop (Reply × State S)) (s : State S) :
    Except Stop (Reply × State S) := do
  let start := s.reader.cursor
  let (reply, s) ← run s
  match reply with
  | .ok =>
    -- The value is dropped. How much was matched is told by the offsets.
    let stack ← s.stack.pop
    let matched := s.reader.cursor.offset - start.offset
    let reader := s.reader.restore start
    let found := reader.peek?
    refuse ⟨reader, stack, s.depth⟩ fun stack =>
      if 1 < matched then Frame.unexpectedSpan stack ⟨start.offset, matched⟩
      else Frame.unexpected stack found
  | .err =>
    let stack ← Frame.discard s.stack
    return (.ok, ⟨s.reader.restore start, ← stack.push (), s.depth⟩)

/-- Runs a block and pushes what it ended in, value or error. The value is taken as it is; that it is of
the block's kind is `observing_eq_observingAs`. -/
def observing (run : State S → Except Stop (Reply × State S)) (s : State S) :
    Except Stop (Reply × State S) := do
  let (reply, s) ← run s
  match reply with
  | .ok =>
    match ← (topDatum? s.reader.input s.stack : Except Fault (Option (Datum S))) with
    | some d =>
      let stack ← s.stack.pop
      return (.ok, ⟨s.reader, ← stack.pushObject (.datum (.success d)), s.depth⟩)
    | none => throw (.fault (.corrupted .wrongValue))
  | .err =>
    let (e, stack) ← Frame.popError s.reader s.stack
    return (.ok, ⟨s.reader, ← stack.pushObject (.datum (.failure e)), s.depth⟩)

/-! ### One instruction -/

/-- The block that starts at a place of a program and whose size is the operand at another. -/
def wrapped (code : List UInt8) (place sizePlace : Nat) : Except Fault (List UInt8) := do
  Bytecode.block code place (← Bytecode.readWord code sizePlace 4)

/-- Runs the first instruction of a block. -/
def step (run : BlockRunner S) (rules : Grammar S) (code : List UInt8) (pool : Stack (Object S))
    (offset : Nat) (s : State S) : Except Stop (Reply × State S) := do
  let op ← (Bytecode.opcodeAt code : Except Fault Opcode)
  let constant : Except Fault Nat := Bytecode.constantAt code 1 offset
  match op with
  | .pure =>
    match s with
    | ⟨reader, stack, depth⟩ =>
      return (.ok, ⟨reader, ← stack.pushFrom pool (← constant), depth⟩)
  | .error =>
    let id ← constant
    refuse s (Frame.complaint · pool id)
  | .token => token pool (← constant) s
  | .tokens => tokens pool (← constant) s
  | .take1 => take1 s
  | .takeN => takeN (← (Bytecode.readWord code 1 4 : Except Fault Nat)) s
  | .takeWhile => takeWhile pool (← constant) false s
  | .takeWhile1 => takeWhile pool (← constant) true s
  | .satisfy => satisfy pool (← constant) s
  | .oneOf => oneOf pool (← constant) s
  | .noneOf => noneOf pool (← constant) s
  | .eof => eof s
  | .newline => newline pool (← constant) s
  | .invoke => return (.ok, ← invoke rules code pool offset s)
  | .invokeM => runMade run (← invoke rules code pool offset s)
  | .try =>
    let body ← wrapped code 5 1
    tryBlock (run body pool offset) s
  | .or =>
    let leftSize ← (Bytecode.readWord code 1 4 : Except Fault Nat)
    let rightSize ← (Bytecode.readWord code 5 4 : Except Fault Nat)
    let rightOffset ← (Bytecode.readWord code 9 2 : Except Fault Nat)
    let left ← (Bytecode.block code 11 leftSize : Except Fault (List UInt8))
    let right ← (Bytecode.block code (11 + leftSize) rightSize : Except Fault (List UInt8))
    -- The constants of the right side lie behind those of the left one.
    choice (run left pool offset) (run right pool (offset + rightOffset)) s
  | .label =>
    let body ← wrapped code 7 3
    labelled (run body pool offset) pool (some (← constant)) s
  | .hidden =>
    let body ← wrapped code 5 1
    labelled (run body pool offset) pool none s
  | .lookAhead =>
    let body ← wrapped code 5 1
    lookAhead (run body pool offset) s
  | .notFollowedBy =>
    let body ← wrapped code 5 1
    notFollowedBy (run body pool offset) s
  | .observing =>
    let body ← wrapped code 7 3
    -- The routine must be there, though there is only one.
    let _ ← (constantValue pool (← constant) : Except Fault Observer)
    observing (run body pool offset) s

end ParserMachine.Machine
