/-!
# Faults

A fault is the discovery that a caller or a program broke a rule of the library: a stack read
past its bottom, bytecode that is no bytecode, a constant that does not fit its operand. It is not
a parse failure, which is an ordinary answer. Each fault is a cause; `Fault.message` gives its
wording, and only a range fault has none.
-/

set_option autoImplicit false

namespace ParserMachine

/-- The ways in which the layout of a value stack can turn out not to be what its user expected. -/
inductive Corruption where
  | popOnEmpty
  | dropPastBottom
  | slotPastTop
  | objectPastList
  | staleObject
  | stalePayload
  | objectMissing
  | wrongConstant
  | wrongValue
  | wrongFunction
  | noProgram
  | noFrame
  | unterminatedFrame
  | noFrameToReopen
  | wrongFancyPayload
  | wrongItemPayload
  | poppedForeignValues
  | valuesLeft
  deriving DecidableEq, Repr

/-- What is said about a broken stack. -/
def Corruption.message : Corruption → String
  | popOnEmpty => "pop on an empty stack"
  | dropPastBottom => "drop_under past the bottom of the stack"
  | slotPastTop => "slot index past the top of the stack"
  | objectPastList => "object index past the object list"
  | staleObject => "popped object is not the newest object"
  | stalePayload => "popped slot is not the newest arena payload"
  | objectMissing => "object slot without an object"
  | wrongConstant => "constant has the wrong type"
  | wrongValue => "value has the wrong type"
  | wrongFunction => "function has the wrong type"
  | noProgram => "bind function did not produce a program"
  | noFrame => "expected a pending error frame"
  | unterminatedFrame => "unterminated error frame"
  | noFrameToReopen => "no pending error frame to reopen"
  | wrongFancyPayload => "fancy error payload has the wrong type"
  | wrongItemPayload => "error item payload has the wrong type"
  | poppedForeignValues => "failed block popped values it did not push"
  | valuesLeft => "values left on the stack after the parse"

/-- The ways in which bytes can fail to be bytecode. -/
inductive Malformed where
  | unknownOpcode
  | truncated16
  | truncated32
  | blockPastFrame
  deriving DecidableEq, Repr

/-- What is said about malformed bytecode. -/
def Malformed.message : Malformed → String
  | unknownOpcode => "unknown opcode"
  | truncated16 => "truncated u16 operand"
  | truncated32 => "truncated u32 operand"
  | blockPastFrame => "block runs past the end of its frame"

/-- A broken rule, with what is needed to report it. -/
inductive Fault where
  /-- A stack was not laid out as its user expected. -/
  | corrupted (cause : Corruption)
  /-- A stack may not grow to the bytes that a push needs. -/
  | stackOverflow (needed limit : Nat)
  /-- An arena offset does not fit an index entry. -/
  | offsetOutOfRange (offset : Nat)
  /-- An object index does not fit an index entry. -/
  | objectOutOfRange (index : Nat)
  /-- Bytes that are no bytecode were decoded. -/
  | malformed (cause : Malformed)
  /-- A constant's index does not fit its operand. -/
  | tooManyConstants (count : Nat)
  /-- A token count does not fit its operand. -/
  | takeTooLarge (count : Nat)
  /-- A wrapped block is longer than its frame can say. -/
  | blockTooLong (length : Nat)
  /-- A range does not lie inside the sequence it is taken of. -/
  | rangeOutside
  deriving DecidableEq, Repr

/-- The wording of a fault. A range that lies outside is reported without one, and so is a count that no
64-bit word can hold. -/
def Fault.message : Fault → Option String
  | corrupted cause => some s!"stack corrupted: {cause.message}"
  | stackOverflow needed limit =>
    some s!"stack overflow: {needed} bytes needed, limit is {limit} bytes"
  | offsetOutOfRange offset => some s!"stack overflow: arena offset {offset} out of range"
  | objectOutOfRange index => some s!"stack overflow: object index {index} out of range"
  | malformed cause => some s!"invalid bytecode: {cause.message}"
  | tooManyConstants count =>
    if count < UInt64.size then some s!"constant pool overflow: {count} constants" else none
  | takeTooLarge count => some s!"take count {count} exceeds u32::MAX"
  | blockTooLong length => some s!"block of {length} bytes exceeds the u32 frame"
  | rangeOutside => none

end ParserMachine
