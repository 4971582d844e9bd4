import ParserMachine.Buffer
import ParserMachine.Bytecode.Opcode

/-!
# Building programs

The instruction bytes of a program, kept in a double-ended buffer: an instruction that follows goes
to the back, the header of one that wraps the whole program goes to the front.

A number that does not fit its operand is a fault, never a shorter number.
-/

set_option autoImplicit false

namespace ParserMachine

/-- The instruction bytes of a program. -/
structure Code where
  /-- The bytes, with room at both ends. -/
  buffer : Buffer UInt8
  deriving Inhabited

namespace Code

/-- The bytes of a program. -/
def bytes (c : Code) : List UInt8 := c.buffer.toList

/-- The size of a program in bytes. -/
def size (c : Code) : Nat := c.buffer.size

/-- Whether the program has no instructions. -/
def isEmpty (c : Code) : Bool := c.size = 0

/-- Whether two programs have the same bytes. -/
def same (a b : Code) : Bool := a.buffer.sameItems b.buffer

/-- The program without instructions. -/
def empty : Code := ⟨.new⟩

/-- The operand that names the constant with the given index. -/
def constantId (index : Nat) : Except Fault UInt16 :=
  if index < UInt16.size then .ok (UInt16.ofNat index) else .error (.tooManyConstants (index + 1))

/-- The operand that tells the size of a block. -/
def blockLength (size : Nat) : Except Fault UInt32 :=
  if size < UInt32.size then .ok (UInt32.ofNat size) else .error (.blockTooLong size)

/-- The operand that tells how many tokens to take. -/
def takeCount (count : Nat) : Except Fault UInt32 :=
  if count < UInt32.size then .ok (UInt32.ofNat count) else .error (.takeTooLarge count)

/-- The bytes of a constant operand. -/
def idBytes (id : UInt16) : List UInt8 := LittleEndian.encode 2 id.toNat

/-- The bytes of a length or count operand. -/
def wordBytes (word : UInt32) : List UInt8 := LittleEndian.encode 4 word.toNat

/-- One instruction without operands. -/
def op (op : Opcode) : Code := ⟨.ofList [op.byte]⟩

/-- One instruction with a constant. -/
def constant (op : Opcode) (id : UInt16) : Code := ⟨.ofList (op.byte :: idBytes id)⟩

/-- One instruction with a count. -/
def count (op : Opcode) (count : UInt32) : Code := ⟨.ofList (op.byte :: wordBytes count)⟩

/-- One instruction that applies a function. -/
def invoke (op : Opcode) (dispatcher function : UInt16) : Code :=
  ⟨.ofList (op.byte :: (idBytes dispatcher ++ idBytes function))⟩

/-- The instructions of one program, then those of another. -/
def append (c next : Code) : Code := ⟨c.buffer.extend next.bytes⟩

/-- The program as the block of one instruction. -/
def framed (c : Code) (op : Opcode) : Except Fault Code := do
  let length ← blockLength c.size
  return ⟨c.buffer.extendFront (op.byte :: wordBytes length)⟩

/-- The program as the block of one instruction with a constant. -/
def framedWith (c : Code) (op : Opcode) (id : UInt16) : Except Fault Code := do
  let length ← blockLength c.size
  return ⟨c.buffer.extendFront (op.byte :: (idBytes id ++ wordBytes length))⟩

/-- Two programs as the blocks of a choice; the constants of the second are moved by `offset`. -/
def or (left right : Code) (offset : UInt16) : Except Fault Code := do
  let leftLength ← blockLength left.size
  let rightLength ← blockLength right.size
  let header :=
    Opcode.or.byte :: (wordBytes leftLength ++ (wordBytes rightLength ++ idBytes offset))
  return ⟨(left.buffer.extendFront header).extend right.bytes⟩

/-- The size and the bytes of a program, named. -/
def describe (c : Code) : String :=
  let bytes := ", ".intercalate (c.bytes.map toString)
  s!"Instructions \x7b len: {c.size}, bytes: [{bytes}] \x7d"

end Code

end ParserMachine
