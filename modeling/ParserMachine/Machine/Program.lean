import ParserMachine.Machine.Object

/-!
# Compiling parsers

`Parser.compile` makes a program of a parser: its instructions, and the pool of the constants that
they name by index. A primitive is one instruction. A function is two constants, the routine that
applies it and the function itself, and one instruction that follows. A wrapper becomes the header of
one instruction around the whole program. A choice joins two programs: the constants of the second
are put behind those of the first, and its instructions keep their indices, which count from the
place that the choice names.

The parser of a rule is not part of the program that names it. It is compiled when it is run, like
every parser that a function makes.
-/

set_option autoImplicit false

namespace ParserMachine

namespace Program

variable {S : Signature}

/-- The program without instructions and constants. -/
def empty : Program S := ⟨.empty, .new⟩

instance : Inhabited (Program S) := ⟨empty⟩

/-- The program with one more constant, an inline value, and the operand that names it. -/
def addValue {α : Type} [Inline α] (p : Program S) (a : α) : Except Fault (UInt16 × Program S) :=
  match p with
  | ⟨code, pool⟩ => do
    let id ← Code.constantId pool.count
    return (id, ⟨code, ← pool.push a⟩)

/-- The program with one more constant, an object, and the operand that names it. -/
def addObject (p : Program S) (o : Object S) : Except Fault (UInt16 × Program S) :=
  match p with
  | ⟨code, pool⟩ => do
    let id ← Code.constantId pool.count
    return (id, ⟨code, ← pool.pushObject o⟩)

/-- The program with instructions added behind its own. -/
def emit (p : Program S) (code : Code) : Program S :=
  match p with
  | ⟨own, pool⟩ => ⟨own.append code, pool⟩

/-- A program of one instruction. -/
def ofOp (op : Opcode) : Program S := empty.emit (.op op)

/-- A program of one instruction with an inline constant. -/
def ofValue {α : Type} [Inline α] (op : Opcode) (a : α) : Except Fault (Program S) := do
  let (id, p) ← (empty : Program S).addValue a
  return p.emit (.constant op id)

/-- A program of one instruction with an object constant. -/
def ofObject (op : Opcode) (o : Object S) : Except Fault (Program S) := do
  let (id, p) ← (empty : Program S).addObject o
  return p.emit (.constant op id)

/-- The program followed by the application of a function to its value. -/
def invoke (p : Program S) (op : Opcode) (dispatcher : Dispatcher) (function : Object S) :
    Except Fault (Program S) := do
  let (routine, p) ← p.addValue dispatcher
  let (argument, p) ← p.addObject function
  return p.emit (.invoke op routine argument)

/-- The program as the block of one instruction. -/
def wrap (p : Program S) (op : Opcode) : Except Fault (Program S) :=
  match p with
  | ⟨code, pool⟩ => return ⟨← code.framed op, pool⟩

/-- The program as the block of one instruction with a constant. -/
def wrapWith (p : Program S) (op : Opcode) (id : UInt16) : Except Fault (Program S) :=
  match p with
  | ⟨code, pool⟩ => return ⟨← code.framedWith op id, pool⟩

/-- The choice of two programs. -/
def or (p q : Program S) : Except Fault (Program S) :=
  match p, q with
  | ⟨left, pool⟩, ⟨right, others⟩ => do
    let offset ← Code.constantId pool.count
    let pool ← pool.append others
    return ⟨← left.or right offset, pool⟩

/-- The sizes of a program, named. -/
def describe (p : Program S) : String :=
  s!"Parsec \x7b instructions: {p.code.size}, constants: {p.pool.count} \x7d"

end Program

namespace Parser

variable {S : Signature}

/-- The program of a parser. -/
def compile (rules : Grammar S) : {k : Kind S.Base} → Parser S k → Except Fault (Program S)
  | _, .pure v => Program.ofObject .pure (.datum (.ofVal v))
  | _, .error c => Program.ofObject .error (.complaint c)
  | _, .token t => Program.ofValue .token t
  | _, .tokens ts => Program.ofObject .tokens (.datum (.run ts))
  | _, .satisfy p => Program.ofObject .satisfy (.predicate p)
  | _, .oneOf ts => Program.ofObject .oneOf (.datum (.run ts))
  | _, .noneOf ts => Program.ofObject .noneOf (.datum (.run ts))
  | _, .take n => return Program.empty.emit (.count .takeN (← Code.takeCount n))
  | _, .take1 => .ok (.ofOp .take1)
  | _, .takeWhile p => Program.ofObject .takeWhile (.predicate p)
  | _, .takeWhile1 p => Program.ofObject .takeWhile1 (.predicate p)
  | _, .eof => .ok (.ofOp .eof)
  | _, .newline => Program.ofObject .newline (.label "newline")
  | _, .map p f => do
    let p ← compile rules p
    p.invoke .invoke .map (.mapping f)
  | _, .bind p f => do
    let p ← compile rules p
    p.invoke .invokeM .bind (.binder f)
  | _, .selectMany p f project => do
    let p ← compile rules p
    let p ← p.invoke .invokeM .select (.binder f)
    p.invoke .invoke .project (.projection project)
  | _, .or p q => do
    let p ← compile rules p
    let q ← compile rules q
    p.or q
  | _, .try p => do
    let p ← compile rules p
    p.wrap .try
  | _, .label name p => do
    let p ← compile rules p
    let (id, p) ← p.addObject (.label name)
    p.wrapWith .label id
  | _, .hidden p => do
    let p ← compile rules p
    p.wrap .hidden
  | _, .lookAhead p => do
    let p ← compile rules p
    p.wrap .lookAhead
  | _, .notFollowedBy p => do
    let p ← compile rules p
    p.wrap .notFollowedBy
  | _, .observing p => do
    let p ← compile rules p
    let (id, p) ← p.addValue Observer.observe
    p.wrapWith .observing id
  | _, .rule r => do
    let p ← Program.ofObject .pure (.datum .unit)
    p.invoke .invokeM .bind (.binder fun _ : S.Val .unit => rules r)

end Parser

end ParserMachine
