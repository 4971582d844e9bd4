import ParserMachine.Fault
import ParserMachine.LittleEndian

/-!
# Opcodes and instruction layout

An instruction is an opcode byte, then operands of fixed width, little-endian, then the blocks that
it wraps:

| opcodes | operands | blocks |
|---|---|---|
| `take1`, `eof` | | |
| `take_n` | count: 4 bytes | |
| `invoke`, `invoke_m` | dispatcher, function: 2 bytes each | |
| `try`, `hidden`, `look_ahead`, `not_followed_by` | length: 4 bytes | one |
| `label`, `observing` | constant: 2 bytes, length: 4 bytes | one |
| `or` | two lengths: 4 bytes each, constant offset: 2 bytes | two |
| all others | constant: 2 bytes | |

`Opcode.operands` is that table. The header size of an instruction, the places of its operands, the
lengths of its blocks and its whole size are all read off it.
-/

set_option autoImplicit false

namespace ParserMachine

/-- What an instruction does. -/
inductive Opcode where
  | pure | error | token | tokens | invoke | invokeM | take1 | takeN | takeWhile1 | takeWhile
  | satisfy | oneOf | noneOf | try | or | label | hidden | lookAhead | notFollowedBy | eof
  | observing | newline
  deriving DecidableEq, Repr

/-- What an operand stands for. -/
inductive Operand where
  /-- A constant, by its index. -/
  | constant
  /-- A number of tokens. -/
  | count
  /-- The constant that applies the function. -/
  | dispatcher
  /-- The constant that is applied. -/
  | function
  /-- The constant that names a category. -/
  | label
  /-- The size of the wrapped block. -/
  | length
  /-- The size of the first of two wrapped blocks. -/
  | leftLength
  /-- The size of the second of two wrapped blocks. -/
  | rightLength
  /-- How far the constants of the second block are moved. -/
  | rightOffset
  deriving DecidableEq, Repr

namespace Operand

/-- The bytes that an operand takes. -/
def width : Operand → Nat
  | count | length | leftLength | rightLength => 4
  | _ => 2

/-- Whether the operand is the size of a wrapped block. -/
def isBlockSize : Operand → Bool
  | length | leftLength | rightLength => true
  | _ => false

/-- The name of an operand in listings. -/
def name : Operand → String
  | constant => "constant"
  | count => "count"
  | dispatcher => "dispatcher"
  | function => "function"
  | label => "label"
  | length => "len"
  | leftLength => "lhs_len"
  | rightLength => "rhs_len"
  | rightOffset => "rhs_offset"

end Operand

namespace Opcode

/-- All opcodes, in the order of their bytes. -/
def all : List Opcode :=
  [pure, error, token, tokens, invoke, invokeM, take1, takeN, takeWhile1, takeWhile, satisfy,
    oneOf, noneOf, .try, or, label, hidden, lookAhead, notFollowedBy, eof, observing, newline]

/-- The byte of an opcode. -/
def byte : Opcode → UInt8
  | pure => 0x01 | error => 0x02 | token => 0x03 | tokens => 0x04 | invoke => 0x05
  | invokeM => 0x06 | take1 => 0x07 | takeN => 0x08 | takeWhile1 => 0x09 | takeWhile => 0x0a
  | satisfy => 0x0b | oneOf => 0x0c | noneOf => 0x0d | .try => 0x0e | or => 0x0f | label => 0x10
  | hidden => 0x11 | lookAhead => 0x12 | notFollowedBy => 0x13 | eof => 0x14 | observing => 0x15
  | newline => 0x16

/-- The opcode with the given byte. -/
def ofByte? (b : UInt8) : Option Opcode :=
  all.find? fun op => op.byte = b

/-- The mnemonic of an opcode. -/
def name : Opcode → String
  | pure => "pure" | error => "error" | token => "token" | tokens => "tokens"
  | invoke => "invoke" | invokeM => "invoke_m" | take1 => "take1" | takeN => "take_n"
  | takeWhile1 => "take_while1" | takeWhile => "take_while" | satisfy => "satisfy"
  | oneOf => "one_of" | noneOf => "none_of" | .try => "try" | or => "or" | label => "label"
  | hidden => "hidden" | lookAhead => "look_ahead" | notFollowedBy => "not_followed_by"
  | eof => "eof" | observing => "observing" | newline => "newline"

/-- The opcode with the given mnemonic. -/
def ofName? (name : String) : Option Opcode :=
  all.find? fun op => op.name = name

/-- The name of an opcode as written in structured listings. -/
def title : Opcode → String
  | pure => "Pure" | error => "Error" | token => "Token" | tokens => "Tokens"
  | invoke => "Invoke" | invokeM => "InvokeM" | take1 => "Take1" | takeN => "TakeN"
  | takeWhile1 => "TakeWhile1" | takeWhile => "TakeWhile" | satisfy => "Satisfy"
  | oneOf => "OneOf" | noneOf => "NoneOf" | .try => "Try" | or => "Or" | label => "Label"
  | hidden => "Hidden" | lookAhead => "LookAhead" | notFollowedBy => "NotFollowedBy"
  | eof => "Eof" | observing => "Observing" | newline => "Newline"

/-- The operands of an opcode, in the order in which they are written. -/
def operands : Opcode → List Operand
  | take1 | eof => []
  | takeN => [.count]
  | invoke | invokeM => [.dispatcher, .function]
  | .try | hidden | lookAhead | notFollowedBy => [.length]
  | label => [.label, .length]
  | observing => [.dispatcher, .length]
  | or => [.leftLength, .rightLength, .rightOffset]
  | _ => [.constant]

/-- The bytes of an instruction before its blocks. -/
def headerSize (op : Opcode) : Nat :=
  1 + (op.operands.map Operand.width).foldl (· + ·) 0

/-- Every instruction has at least the byte of its opcode. -/
theorem headerSize_pos (op : Opcode) : 0 < op.headerSize := by
  unfold headerSize; omega

/-- The byte of an opcode is read back as that opcode. -/
@[simp] theorem ofByte?_byte (op : Opcode) : ofByte? op.byte = some op := by
  cases op <;> rfl

/-- No other byte is read as the opcode. -/
theorem byte_of_ofByte? {b : UInt8} {op : Opcode} (h : ofByte? b = some op) : op.byte = b := by
  simpa using List.find?_some h

end Opcode

/-! ### Decoding -/

namespace Bytecode

/-- The number written in the given bytes of a program. -/
def readWord (code : List UInt8) (place width : Nat) : Except Malformed Nat :=
  let word := (code.drop place).take width
  if word.length = width then .ok (LittleEndian.decode word)
  else .error (if width = 2 then .truncated16 else .truncated32)

/-- The opcode that a program starts with. -/
def opcodeAt : List UInt8 → Except Malformed Opcode
  | [] => .error .unknownOpcode
  | b :: _ =>
    match Opcode.ofByte? b with
    | some op => .ok op
    | none => .error .unknownOpcode

/-- Operands together with the places where they are written. -/
def placed (place : Nat) : List Operand → List (Operand × Nat)
  | [] => []
  | o :: os => (o, place) :: placed (place + o.width) os

/-- The operands of the first instruction of a program. -/
def readOperands (code : List UInt8) (op : Opcode) : Except Malformed (List (Operand × Nat)) :=
  (placed 1 op.operands).mapM fun (o, place) => return (o, ← readWord code place o.width)

/-- The sizes of the blocks that the first instruction of a program wraps. -/
def blockSizes (code : List UInt8) (op : Opcode) : Except Malformed (List Nat) :=
  ((placed 1 op.operands).filter (·.1.isBlockSize)).mapM fun (o, place) =>
    readWord code place o.width

/-- The size of the first instruction of a program, with the blocks that it wraps. -/
def instructionSize (code : List UInt8) : Except Malformed Nat := do
  let op ← opcodeAt code
  return op.headerSize + (← blockSizes code op).foldl (· + ·) 0

/-- A size that is told is positive, so that a loop that goes on by sizes comes to an end. -/
theorem instructionSize_pos {code : List UInt8} {n : Nat} (h : instructionSize code = .ok n) :
    0 < n := by
  simp only [instructionSize, bind, Except.bind, pure, Except.pure] at h
  split at h
  · contradiction
  · next op _ =>
    split at h
    · contradiction
    · have := op.headerSize_pos
      injection h
      omega

/-- There is no opcode to be read where the code has ended. -/
theorem opcodeAt_ne_nil {code : List UInt8} {op : Opcode} (h : opcodeAt code = .ok op) :
    code ≠ [] := by
  rintro rfl
  simp [opcodeAt] at h

/-- The index of the constant named by an operand, in a pool entered at the given offset. -/
def constantAt (code : List UInt8) (place offset : Nat) : Except Malformed Nat :=
  return (← readWord code place 2) + offset

/-- The number written at any place, of which a 64-bit word can tell the end. -/
def wordAt (code : List UInt8) (place width : Nat) : Except Fault Nat :=
  if place + width < UInt64.size then (readWord code place width).mapError .malformed
  else .error .rangeOutside

/-- The constant's index told by the operand at any place, where a 64-bit word can hold it. -/
def constantIndexAt (code : List UInt8) (place offset : Nat) : Except Fault Nat := do
  let index := (← wordAt code place 2) + offset
  if index < UInt64.size then return index else .error .rangeOutside

/-- A block of a program, which must lie inside it. -/
def block (code : List UInt8) (place size : Nat) : Except Malformed (List UInt8) :=
  let bytes := (code.drop place).take size
  if bytes.length = size then .ok bytes else .error .blockPastFrame

end Bytecode

end ParserMachine
