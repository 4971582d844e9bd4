import ParserMachine.Bytecode.Code
import ParserMachine.Proofs.Buffer
import ParserMachine.Proofs.Yields

/-!
# Decoding what was written

An operand that was written at its width is read back from its place (`readWord_eq`), a block from
its own (`block_eq`), and the size of an instruction is found from its header, whatever follows it.
The operands of programs are words of their width, so `idBytes` and `wordBytes` never lose a digit.

`Code.Emits` says which bytes a program has, and what building a program does to them.
-/

set_option autoImplicit false

namespace ParserMachine

namespace Bytecode

variable {before after body : List UInt8} {op : Opcode}

/-- An operand is read back. -/
theorem readWord_eq {width n : Nat} (h : n < LittleEndian.bound width) :
    readWord (before ++ (LittleEndian.encode width n ++ after)) before.length width = .ok n := by
  have word : ((before ++ (LittleEndian.encode width n ++ after)).drop before.length).take width =
      LittleEndian.encode width n := by
    rw [List.drop_left, List.take_append_of_le_length (by simp), List.take_of_length_le (by simp)]
  simp only [readWord, word, LittleEndian.length_encode, if_true, LittleEndian.decode_encode_of_lt h]

/-- An index that was written to code is read back from its place. -/
theorem readWord_id (before after : List UInt8) (id : UInt16) :
    readWord (before ++ (Code.idBytes id ++ after)) before.length 2 = .ok id.toNat :=
  readWord_eq id.toNat_lt

/-- A number of four bytes that was written to code is read back from its place. -/
theorem readWord_word (before after : List UInt8) (word : UInt32) :
    readWord (before ++ (Code.wordBytes word ++ after)) before.length 4 = .ok word.toNat :=
  readWord_eq word.toNat_lt

/-- An index that was written to code is read back as the place of its constant, counted from where the
constants of the block start. -/
theorem constantAt_eq (before after : List UInt8) (id : UInt16) (offset : Nat) :
    constantAt (before ++ (Code.idBytes id ++ after)) before.length offset =
      .ok (id.toNat + offset) := by
  rw [constantAt, readWord_id]
  rfl

/-- A block is cut out at its place. -/
theorem block_eq (before body after : List UInt8) :
    block (before ++ (body ++ after)) before.length body.length = .ok body := by
  have bytes : ((before ++ (body ++ after)).drop before.length).take body.length = body := by
    rw [List.drop_left, List.take_left]
  simp only [block, bytes, if_true]

/-- An instruction starts with the byte of its opcode. -/
theorem opcodeAt_eq (op : Opcode) (after : List UInt8) : opcodeAt (op.byte :: after) = .ok op := by
  simp only [opcodeAt, Opcode.ofByte?_byte]

/-! ### Sizes -/

/-- Operands none of which is a block size leave nothing to be read for the blocks. -/
theorem filter_placed (place : Nat) {operands : List Operand}
    (h : ∀ o ∈ operands, o.isBlockSize = false) :
    (placed place operands).filter (·.1.isBlockSize) = [] := by
  induction operands generalizing place with
  | nil => rfl
  | cons o operands ih =>
    rw [placed, List.filter_cons, if_neg (by simp [h o List.mem_cons_self])]
    exact ih _ fun o ho => h o (List.mem_cons_of_mem _ ho)

/-- An instruction without blocks is its header. -/
theorem instructionSize_of_no_block (h : ∀ o ∈ op.operands, o.isBlockSize = false)
    (after : List UInt8) : instructionSize (op.byte :: after) = .ok op.headerSize := by
  have sizes : blockSizes (op.byte :: after) op = .ok [] := by
    simp only [blockSizes, filter_placed 1 h, List.mapM_nil]
    rfl
  simp only [instructionSize, opcodeAt_eq, bind, Except.bind, sizes]
  rfl

/-- An instruction that wraps one block, whose size is its last operand. -/
theorem instructionSize_of_block {place : Nat} (size : UInt32)
    (h : (placed 1 op.operands).filter (·.1.isBlockSize) = [(.length, place)])
    (hplace : (op.byte :: before).length = place) (after : List UInt8) :
    instructionSize (op.byte :: before ++ (Code.wordBytes size ++ after)) =
      .ok (op.headerSize + size.toNat) := by
  have word := readWord_word (op.byte :: before) after size
  rw [hplace] at word
  have sizes : blockSizes (op.byte :: before ++ (Code.wordBytes size ++ after)) op =
      .ok [size.toNat] := by
    simp only [blockSizes, h, List.mapM_cons, List.mapM_nil, Operand.width, word]
    rfl
  rw [List.cons_append] at sizes ⊢
  simp only [instructionSize, opcodeAt_eq, bind, Except.bind, sizes, List.foldl_cons, List.foldl_nil, Nat.zero_add]
  rfl

/-- A choice takes its header of eleven bytes and its two blocks. -/
theorem instructionSize_of_choice (left right : UInt32) (after : List UInt8) :
    instructionSize (Opcode.or.byte :: (Code.wordBytes left ++ (Code.wordBytes right ++ after))) =
      .ok (11 + left.toNat + right.toNat) := by
  have leftWord := readWord_word [Opcode.or.byte] (Code.wordBytes right ++ after) left
  have rightWord := readWord_word (Opcode.or.byte :: Code.wordBytes left) after right
  have place : (Opcode.or.byte :: Code.wordBytes left).length = 5 := by
    rw [List.length_cons, Code.wordBytes, LittleEndian.length_encode]
  rw [place] at rightWord
  simp only [List.length_singleton, List.cons_append, List.nil_append] at leftWord rightWord
  have sizes : blockSizes (Opcode.or.byte :: (Code.wordBytes left ++ (Code.wordBytes right ++ after)))
      .or = .ok [left.toNat, right.toNat] := by
    have operands : (placed 1 Opcode.or.operands).filter (·.1.isBlockSize) =
        [(.leftLength, 1), (.rightLength, 5)] := by decide
    simp only [blockSizes, operands, List.mapM_cons, List.mapM_nil, Operand.width, leftWord, rightWord]
    rfl
  simp only [instructionSize, opcodeAt_eq, bind, Except.bind, sizes, List.foldl_cons, List.foldl_nil,
    Nat.zero_add, Nat.add_assoc]
  rfl

end Bytecode

namespace Code

variable {c d : Code} {bytes bytes' : List UInt8}

/-- The program has the given bytes. -/
def Emits (c : Code) (bytes : List UInt8) : Prop := c.buffer.Stores bytes

/-- The bytes of a program are those that it was said to have. -/
theorem Emits.bytes_eq (h : c.Emits bytes) : c.bytes = bytes := Buffer.Stores.toList_eq h

/-- A program is as long as the bytes that it was said to have. -/
theorem Emits.size_eq (h : c.Emits bytes) : c.size = bytes.length := Buffer.Stores.size_eq h

/-- A program made of bytes has these bytes. -/
theorem emits_ofList (bytes : List UInt8) : (⟨.ofList bytes⟩ : Code).Emits bytes :=
  Buffer.Stores.ofList bytes

/-- The empty program has no bytes. -/
theorem emits_empty : empty.Emits [] := Buffer.Stores.new

/-- Programs that are joined have the bytes of the first, then those of the second. -/
theorem Emits.append (h : c.Emits bytes) (h' : d.Emits bytes') :
    (c.append d).Emits (bytes ++ bytes') := by
  rw [Code.append, h'.bytes_eq]
  exact Buffer.Stores.extend h bytes'

/-- A block is refused only if its size does not fit into four bytes; otherwise the size is told
exactly. -/
theorem yields_blockLength (size : Nat) :
    Yields Fault.IsRefusal (blockLength size) (·.toNat = size) := by
  rw [blockLength]
  split
  · next small => exact UInt32.toNat_ofNat_of_lt' small
  · next large => exact Nat.le_of_not_lt large

/-- An index is refused only if it does not fit into two bytes; otherwise it is told exactly. -/
theorem yields_constantId (index : Nat) :
    Yields Fault.IsRefusal (constantId index) (·.toNat = index) := by
  rw [constantId]
  split
  · next small => exact UInt16.toNat_ofNat_of_lt' small
  · next large => exact Nat.lt_succ_of_le (Nat.le_of_not_lt large)

/-- A number of tokens is refused only if it does not fit into four bytes; otherwise it is told exactly. -/
theorem yields_takeCount (count : Nat) :
    Yields Fault.IsRefusal (takeCount count) (·.toNat = count) := by
  rw [takeCount]
  split
  · next small => exact UInt32.toNat_ofNat_of_lt' small
  · next large => exact Nat.le_of_not_lt large

/-- A block is wrapped by putting an opcode and its size before its bytes. -/
theorem Emits.framed (h : c.Emits bytes) (op : Opcode) :
    Yields Fault.IsRefusal (c.framed op) fun d =>
      ∃ size : UInt32, size.toNat = bytes.length ∧ d.Emits (op.byte :: wordBytes size ++ bytes) :=
  (yields_blockLength _).bind fun size hsize =>
    ⟨size, by rw [hsize, h.size_eq], Buffer.Stores.extendFront h (op.byte :: wordBytes size)⟩

/-- A block is wrapped together with a constant by putting an opcode, the index and its size before its
bytes. -/
theorem Emits.framedWith (h : c.Emits bytes) (op : Opcode) (id : UInt16) :
    Yields Fault.IsRefusal (c.framedWith op id) fun d =>
      ∃ size : UInt32, size.toNat = bytes.length ∧
        d.Emits (op.byte :: (idBytes id ++ wordBytes size) ++ bytes) :=
  (yields_blockLength _).bind fun size hsize =>
    ⟨size, by rw [hsize, h.size_eq],
      Buffer.Stores.extendFront h (op.byte :: (idBytes id ++ wordBytes size))⟩

/-- Two blocks become a choice by putting an opcode, their sizes and the move of the second one's
constants before their bytes. -/
theorem Emits.or (h : c.Emits bytes) (h' : d.Emits bytes') (offset : UInt16) :
    Yields Fault.IsRefusal (c.or d offset) fun e =>
      ∃ left right : UInt32, left.toNat = bytes.length ∧ right.toNat = bytes'.length ∧
        e.Emits (Opcode.or.byte :: (wordBytes left ++ (wordBytes right ++ idBytes offset)) ++ bytes ++
          bytes') := by
  refine (yields_blockLength _).bind ?_
  intro left hleft
  refine (yields_blockLength _).bind ?_
  intro right hright
  refine ⟨left, right, by rw [hleft, h.size_eq], by rw [hright, h'.size_eq], ?_⟩
  rw [h'.bytes_eq]
  exact Buffer.Stores.extend (Buffer.Stores.extendFront h _) bytes'

end Code

end ParserMachine
