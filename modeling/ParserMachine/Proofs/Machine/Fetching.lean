import ParserMachine.Machine.Step
import ParserMachine.Proofs.Machine.Loading

/-!
# Fetching loaded instructions

What the machine reads of an instruction that is loaded, whatever follows it: the opcode, the operands,
the blocks and the size. Each form of instruction has its theorems: one constant (`LoadsConstant`), a
routine and a function (`LoadsInvoke`), a block (`Wraps`), a block and a constant (`WrapsConstant`), two
blocks (`Chooses`).
-/

set_option autoImplicit false

namespace ParserMachine.Parser

open Machine

variable {S : Signature} {pool : List (Cell (Object S))} {op : Opcode} {c : Cell (Object S)}
  {code body : List UInt8} {offset : Nat}

/-- The opcode that the machine fetches. -/
theorem fetch_opcode (op : Opcode) (after : List UInt8) :
    (liftM (Bytecode.opcodeAt (op.byte :: after)) : Except Fault Opcode) = .ok op := by
  rw [Bytecode.opcodeAt_eq]
  rfl

/-- A number of four bytes is read back from its place, whatever is around it. -/
theorem fetch_word (before : List UInt8) (place : Nat) (hplace : before.length = place)
    (word : UInt32) (after : List UInt8) :
    (liftM (Bytecode.readWord (before ++ (Code.wordBytes word ++ after)) place 4) :
      Except Fault Nat) = .ok word.toNat := by
  rw [← hplace, Bytecode.readWord_word]
  rfl

/-- An index is read back from its place, whatever is around it. -/
theorem fetch_id (before : List UInt8) (place : Nat) (hplace : before.length = place)
    (id : UInt16) (after : List UInt8) :
    (liftM (Bytecode.readWord (before ++ (Code.idBytes id ++ after)) place 2) :
      Except Fault Nat) = .ok id.toNat := by
  rw [← hplace, Bytecode.readWord_id]
  rfl

/-- A block is read back from its place, whatever is around it, if its size is told right. -/
theorem fetch_block {size : Nat} (before : List UInt8) (place : Nat) (hplace : before.length = place)
    (hsize : size = body.length) (after : List UInt8) :
    (liftM (Bytecode.block (before ++ (body ++ after)) place size) : Except Fault (List UInt8)) =
      .ok body := by
  rw [← hplace, hsize, Bytecode.block_eq]
  rfl

/-- An index takes two bytes. -/
@[simp] theorem length_idBytes (id : UInt16) : (Code.idBytes id).length = 2 :=
  LittleEndian.length_encode 2 _

/-- A block size takes four bytes. -/
@[simp] theorem length_wordBytes (word : UInt32) : (Code.wordBytes word).length = 4 :=
  LittleEndian.length_encode 4 _

/-! ### One constant -/

namespace LoadsConstant

variable (h : LoadsConstant pool op c code offset) (rest : List UInt8)
include h

/-- The instruction begins with its opcode, whatever follows it. -/
theorem opcode : (liftM (Bytecode.opcodeAt (code ++ rest)) : Except Fault Opcode) = .ok op := by
  obtain ⟨id, rfl, -⟩ := h
  exact fetch_opcode op _

/-- The index that the instruction names does not depend on what follows. -/
theorem exists_index : ∃ i, pool[i]? = some c ∧
    ∀ rest, Bytecode.constantAt (code ++ rest) 1 offset = .ok i := by
  obtain ⟨id, rfl, hc⟩ := h
  exact ⟨_, hc, fun rest => Bytecode.constantAt_eq [op.byte] rest id offset⟩

/-- The index in the instruction leads to its constant in the pool. -/
theorem constant : ∃ id, (liftM (Bytecode.constantAt (code ++ rest) 1 offset) : Except Fault Nat) =
    .ok id ∧ pool[id]? = some c := by
  obtain ⟨i, hc, hi⟩ := h.exists_index
  exact ⟨i, by rw [hi rest]; rfl, hc⟩

/-- The instruction is as long as its code, and what follows does not count. -/
theorem size (hop : op.operands = [.constant]) :
    Bytecode.instructionSize (code ++ rest) = .ok code.length := by
  obtain ⟨id, rfl, -⟩ := h
  rw [List.cons_append, Bytecode.instructionSize_of_no_block (by rw [hop]; decide), Opcode.headerSize,
    hop, List.length_cons, length_idBytes]
  rfl

end LoadsConstant

/-! ### A routine and a function -/

namespace LoadsInvoke

variable {routine : Dispatcher} {function : Object S}
  (h : LoadsInvoke pool op routine function code offset) (rest : List UInt8)
include h

/-- The instruction begins with its opcode, whatever follows it. -/
theorem opcode : (liftM (Bytecode.opcodeAt (code ++ rest)) : Except Fault Opcode) = .ok op := by
  obtain ⟨first, second, rfl, -, -⟩ := h
  exact fetch_opcode op _

/-- The indices that the instruction names do not depend on what follows. -/
theorem exists_indices : ∃ i j, pool[i]? = some (.ofValue routine) ∧
    pool[j]? = some (.object function) ∧
      ∀ rest, Bytecode.constantAt (code ++ rest) 1 offset = .ok i ∧
        Bytecode.constantAt (code ++ rest) 3 offset = .ok j := by
  obtain ⟨first, second, rfl, hroutine, hfunction⟩ := h
  refine ⟨_, _, hroutine, hfunction, fun rest => ⟨?_, ?_⟩⟩
  · rw [List.cons_append, List.append_assoc]
    exact Bytecode.constantAt_eq [op.byte] _ first offset
  · rw [← List.cons_append, List.append_assoc]
    have place : (op.byte :: Code.idBytes first).length = 3 := by simp
    rw [← place]
    exact Bytecode.constantAt_eq (op.byte :: Code.idBytes first) _ second offset

/-- The two indices in the instruction lead to the routine and to the function in the pool. -/
theorem constants : ∃ first second,
    (liftM (Bytecode.constantAt (code ++ rest) 1 offset) : Except Fault Nat) = .ok first ∧
      pool[first]? = some (.ofValue routine) ∧
      (liftM (Bytecode.constantAt (code ++ rest) 3 offset) : Except Fault Nat) = .ok second ∧
      pool[second]? = some (.object function) := by
  obtain ⟨i, j, hroutine, hfunction, h⟩ := h.exists_indices
  obtain ⟨hi, hj⟩ := h rest
  exact ⟨i, j, by rw [hi]; rfl, hroutine, by rw [hj]; rfl, hfunction⟩

/-- The instruction is as long as its code, and what follows does not count. -/
theorem size (hop : op.operands = [.dispatcher, .function]) :
    Bytecode.instructionSize (code ++ rest) = .ok code.length := by
  obtain ⟨first, second, rfl, -, -⟩ := h
  rw [List.cons_append, Bytecode.instructionSize_of_no_block (by rw [hop]; decide), Opcode.headerSize,
    hop, List.length_cons, List.length_append, length_idBytes, length_idBytes]
  rfl

end LoadsInvoke

/-! ### A block -/

/-- The block that the machine fetches, given that it fetches its size. -/
theorem wrapped_eq {place sizePlace size : Nat}
    (hsize : (liftM (Bytecode.readWord code sizePlace 4) : Except Fault Nat) = .ok size)
    (hblock : (liftM (Bytecode.block code place size) : Except Fault (List UInt8)) = .ok body) :
    wrapped code place sizePlace = .ok body := by
  rw [wrapped, hsize]
  exact hblock

namespace Wraps

variable (h : Wraps op body code) (rest : List UInt8)
include h

/-- The instruction begins with its opcode, whatever follows it. -/
theorem opcode : (liftM (Bytecode.opcodeAt (code ++ rest)) : Except Fault Opcode) = .ok op := by
  obtain ⟨size, -, rfl⟩ := h
  exact fetch_opcode op _

/-- The block of the instruction is read back, and nothing of what follows. -/
theorem block : wrapped (code ++ rest) 5 1 = .ok body := by
  obtain ⟨size, hsize, rfl⟩ := h
  rw [List.append_assoc]
  exact wrapped_eq (fetch_word [op.byte] 1 rfl size (body ++ rest))
    (fetch_block (op.byte :: Code.wordBytes size) 5 (by simp) hsize rest)

/-- The instruction is as long as its header and its block. -/
theorem size (hop : op.operands = [.length]) :
    Bytecode.instructionSize (code ++ rest) = .ok code.length := by
  obtain ⟨size, hsize, rfl⟩ := h
  have whole := Bytecode.instructionSize_of_block size (by rw [hop]; decide)
    (show [op.byte].length = 1 from rfl) (body ++ rest)
  rw [List.append_assoc, List.length_append, List.length_cons, length_wordBytes, ← hsize]
  rw [Opcode.headerSize, hop] at whole
  exact whole

end Wraps

/-! ### A block and a constant -/

namespace WrapsConstant

variable (h : WrapsConstant pool op c body code offset) (rest : List UInt8)
include h

/-- The instruction begins with its opcode, whatever follows it. -/
theorem opcode : (liftM (Bytecode.opcodeAt (code ++ rest)) : Except Fault Opcode) = .ok op := by
  obtain ⟨id, size, -, rfl, -⟩ := h
  exact fetch_opcode op _

/-- The index that the instruction names does not depend on what follows. -/
theorem exists_index : ∃ i, pool[i]? = some c ∧
    ∀ rest, Bytecode.constantAt (code ++ rest) 1 offset = .ok i := by
  obtain ⟨id, size, -, rfl, hc⟩ := h
  refine ⟨_, hc, fun rest => ?_⟩
  rw [List.append_assoc, ← List.cons_append, List.append_assoc]
  exact Bytecode.constantAt_eq [op.byte] _ id offset

/-- The index in the instruction leads to its constant in the pool. -/
theorem constant : ∃ id, (liftM (Bytecode.constantAt (code ++ rest) 1 offset) : Except Fault Nat) =
    .ok id ∧ pool[id]? = some c := by
  obtain ⟨i, hc, hi⟩ := h.exists_index
  exact ⟨i, by rw [hi rest]; rfl, hc⟩

/-- The block of the instruction is read back from behind the index and its size. -/
theorem block : wrapped (code ++ rest) 7 3 = .ok body := by
  obtain ⟨id, size, hsize, rfl, -⟩ := h
  have word := fetch_word (op.byte :: Code.idBytes id) 3 (by simp) size (body ++ rest)
  have block := fetch_block (op.byte :: (Code.idBytes id ++ Code.wordBytes size)) 7 (by simp)
    hsize rest
  simp only [List.cons_append, List.append_assoc] at word block ⊢
  exact wrapped_eq word block

/-- The instruction is as long as its header and its block. -/
theorem size {operand : Operand} (hop : op.operands = [operand, .length])
    (hwidth : operand.width = 2) (hother : operand.isBlockSize = false) :
    Bytecode.instructionSize (code ++ rest) = .ok code.length := by
  obtain ⟨id, size, hsize, rfl, -⟩ := h
  have place : (Bytecode.placed 1 op.operands).filter (·.1.isBlockSize) = [(.length, 3)] := by
    rw [hop]
    simp only [Bytecode.placed, List.filter_cons, hother, hwidth]
    rfl
  have whole := Bytecode.instructionSize_of_block size place
    (show (op.byte :: Code.idBytes id).length = 3 by simp) (body ++ rest)
  have header : op.headerSize = 7 := by
    simp only [Opcode.headerSize, hop, List.map_cons, hwidth]
    rfl
  simp only [List.cons_append, List.append_assoc] at whole ⊢
  rw [whole, header, hsize]
  simp [Nat.add_comm, Nat.add_left_comm]

end WrapsConstant

/-! ### Two blocks -/

namespace Chooses

variable {left right : List UInt8} {shift : Nat} (h : Chooses left right shift code)
  (rest : List UInt8)
include h

/-- A choice begins with its opcode, whatever follows it. -/
theorem opcode : (liftM (Bytecode.opcodeAt (code ++ rest)) : Except Fault Opcode) = .ok .or := by
  obtain ⟨leftSize, rightSize, id, -, -, -, rfl⟩ := h
  exact fetch_opcode .or _

/-- The sizes of a choice, the move of the right side's constants and the two blocks are read back. -/
theorem blocks :
    (liftM (Bytecode.readWord (code ++ rest) 1 4) : Except Fault Nat) = .ok left.length ∧
      (liftM (Bytecode.readWord (code ++ rest) 5 4) : Except Fault Nat) = .ok right.length ∧
      (liftM (Bytecode.readWord (code ++ rest) 9 2) : Except Fault Nat) = .ok shift ∧
      (liftM (Bytecode.block (code ++ rest) 11 left.length) : Except Fault (List UInt8)) = .ok left ∧
      (liftM (Bytecode.block (code ++ rest) (11 + left.length) right.length) :
        Except Fault (List UInt8)) = .ok right := by
  obtain ⟨leftSize, rightSize, id, hleft, hright, hshift, rfl⟩ := h
  -- Each operand is read behind the bytes of those before it.
  have leftWord := fetch_word [Opcode.or.byte] 1 rfl leftSize
    (Code.wordBytes rightSize ++ (Code.idBytes id ++ (left ++ (right ++ rest))))
  have rightWord := fetch_word (Opcode.or.byte :: Code.wordBytes leftSize) 5 (by simp) rightSize
    (Code.idBytes id ++ (left ++ (right ++ rest)))
  have shiftId := fetch_id (Opcode.or.byte :: (Code.wordBytes leftSize ++ Code.wordBytes rightSize))
    9 (by simp) id (left ++ (right ++ rest))
  have leftBlock := fetch_block
    (Opcode.or.byte :: (Code.wordBytes leftSize ++ (Code.wordBytes rightSize ++ Code.idBytes id)))
    11 (by simp) (Eq.refl left.length) (right ++ rest)
  have rightBlock := fetch_block
    (Opcode.or.byte :: (Code.wordBytes leftSize ++ (Code.wordBytes rightSize ++ Code.idBytes id)) ++ left)
    (11 + left.length) (by simp; omega) (Eq.refl right.length) rest
  simp only [List.cons_append, List.append_assoc, List.nil_append] at *
  rw [hleft] at leftWord
  rw [hright] at rightWord
  rw [hshift] at shiftId
  exact ⟨leftWord, rightWord, shiftId, leftBlock, rightBlock⟩

/-- A choice is as long as its header and its two blocks. -/
theorem size : Bytecode.instructionSize (code ++ rest) = .ok code.length := by
  obtain ⟨leftSize, rightSize, id, hleft, hright, -, rfl⟩ := h
  have whole := Bytecode.instructionSize_of_choice leftSize rightSize
    (Code.idBytes id ++ (left ++ (right ++ rest)))
  simp only [List.cons_append, List.append_assoc] at whole ⊢
  rw [whole, hleft, hright]
  congr 1
  simp
  omega

end Chooses

end ParserMachine.Parser
