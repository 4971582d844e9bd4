import Mathlib.Algebra.GroupWithZero.Nat
import Mathlib.Data.List.Forall2
import ParserMachine.Bytecode.Listing
import ParserMachine.Proofs.Bytecode.Decoding

/-!
# Listing what was written

Code is written from the inside to the outside: a header is put in front of blocks that are there
already. It is listed from the outside to the inside, and the walk knows nothing of a block but the size
that its header tells. `Lists` says of a piece of code that the walk goes through it, wherever it lies and
whatever follows it, and what it makes of it: entries that lie side by side (`Tile`), that write back to
the code (`Entry.bytes`), and whose opcodes and depths are given.

`Lists.append` and `Lists.instruction` put such pieces together. The latter is about any instruction, with
the operands that its opcode has and the blocks that its operands tell the sizes of.
-/

set_option autoImplicit false

namespace ParserMachine

/-! ### Operands -/

namespace Bytecode

/-- The bytes of operands, each at its width. -/
def operandBytes (operands : List (Operand × Nat)) : List UInt8 :=
  operands.flatMap fun operand => LittleEndian.encode operand.1.width operand.2

/-- The operands are those of the opcode, and each can be told at its width. -/
structure Operates (op : Opcode) (operands : List (Operand × Nat)) : Prop where
  kinds : operands.map Prod.fst = op.operands
  fits : ∀ operand ∈ operands, operand.2 < LittleEndian.bound operand.1.width

/-- The operand is read at the place. -/
def ReadAt (code : List UInt8) (place operand : Operand × Nat) : Prop :=
  place.1 = operand.1 ∧ readWord code place.2 place.1.width = .ok operand.2

variable {code : List UInt8} {op : Opcode} {operands places : List (Operand × Nat)}

/-- Without operands there are no bytes. -/
@[simp] theorem operandBytes_nil : operandBytes [] = [] := rfl

/-- The bytes of operands are those of the first one, at its width, and then those of the others. -/
@[simp] theorem operandBytes_cons (operand : Operand × Nat) (operands : List (Operand × Nat)) :
    operandBytes (operand :: operands) =
      LittleEndian.encode operand.1.width operand.2 ++ operandBytes operands := rfl

/-- Operands take as many bytes as their widths add up to, whatever their numbers are. -/
theorem length_operandBytes (operands : List (Operand × Nat)) :
    (operandBytes operands).length = ((operands.map Prod.fst).map Operand.width).sum := by
  simp [operandBytes, List.length_flatMap, Function.comp_def]

/-- A header is as long as its opcode tells. -/
theorem Operates.length_header (h : Operates op operands) :
    (op.byte :: operandBytes operands).length = op.headerSize := by
  rw [List.length_cons, length_operandBytes, h.kinds, Opcode.headerSize, List.sum_eq_foldl,
    Nat.add_comm]

/-- Operands are read where they were written. -/
theorem readAt_placed (h : ∀ operand ∈ operands, operand.2 < LittleEndian.bound operand.1.width)
    (before after : List UInt8) :
    List.Forall₂ (ReadAt (before ++ (operandBytes operands ++ after)))
      (placed before.length (operands.map Prod.fst)) operands := by
  -- What was read belongs to what lies before the next operand.
  induction operands generalizing before with
  | nil => exact .nil
  | cons operand operands ih =>
    obtain ⟨o, value⟩ := operand
    have first := h _ List.mem_cons_self
    have others := ih (fun operand hmem => h operand (List.mem_cons_of_mem _ hmem))
      (before ++ LittleEndian.encode o.width value)
    rw [List.length_append, LittleEndian.length_encode, List.append_assoc] at others
    rw [operandBytes_cons, List.append_assoc]
    exact .cons ⟨rfl, readWord_eq first⟩ others

/-- Operands that can each be read at their places are read together. -/
theorem mapM_readWord (h : List.Forall₂ (ReadAt code) places operands) :
    (places.mapM fun (o, place) => return (o, ← readWord code place o.width) :
      Except Malformed (List (Operand × Nat))) = .ok operands := by
  induction h with
  | nil => rfl
  | @cons place operand places operands h _ ih =>
    obtain ⟨o, place⟩ := place
    obtain ⟨o', value⟩ := operand
    obtain ⟨rfl, read⟩ := h
    have read : readWord code place o.width = .ok value := read
    simp only [List.mapM_cons, read, ih]
    rfl

/-- The operands that are block sizes are read as the sizes of the blocks, in their order. -/
theorem mapM_readWord_filter (h : List.Forall₂ (ReadAt code) places operands) :
    ((places.filter (·.1.isBlockSize)).mapM fun (o, place) => readWord code place o.width) =
      .ok ((operands.filter (·.1.isBlockSize)).map Prod.snd) := by
  induction h with
  | nil => rfl
  | @cons place operand places operands h _ ih =>
    obtain ⟨kind, read⟩ := h
    rw [List.filter_cons, List.filter_cons, kind]
    split
    · simp only [List.mapM_cons, read, ih]
      rfl
    · exact ih

/-- The program starts with an instruction that has the opcode and the operands, and the sizes of its blocks
are among them. -/
structure Decodes (code : List UInt8) (op : Opcode) (operands : List (Operand × Nat)) : Prop where
  opcode : opcodeAt code = .ok op
  reads : readOperands code op = .ok operands
  sizes : blockSizes code op = .ok ((operands.filter (·.1.isBlockSize)).map Prod.snd)

/-- What was written is decoded, whatever follows it. -/
theorem Operates.decodes (h : Operates op operands) (after : List UInt8) :
    Decodes (op.byte :: operandBytes operands ++ after) op operands := by
  have reads := readAt_placed h.fits [op.byte] after
  rw [h.kinds] at reads
  exact ⟨opcodeAt_eq op _, mapM_readWord reads, mapM_readWord_filter reads⟩

end Bytecode

namespace Listing

open Bytecode

/-! ### Entries -/

/-- The bytes of an instruction before its blocks, as the entry tells them. -/
def Entry.bytes (e : Entry) : List UInt8 := e.opcode.byte :: operandBytes e.operands

/-- An entry writes back to as many bytes as the header of its instruction has. -/
theorem length_bytes {e : Entry} (h : Operates e.opcode e.operands) :
    e.bytes.length = e.opcode.headerSize := h.length_header

/-- The first of the entries is at the start, each of the others where the header of the one before it
ends, and the header of the last one ends at the stop. -/
def Tile : Nat → List Entry → Nat → Prop
  | start, [], stop => start = stop
  | start, e :: entries, stop => e.offset = start ∧ Tile (start + e.opcode.headerSize) entries stop

/-- Entries that lie side by side up to where others begin lie side by side with them. -/
theorem Tile.append {start middle stop : Nat} {entries entries' : List Entry}
    (h : Tile start entries middle) (h' : Tile middle entries' stop) :
    Tile start (entries ++ entries') stop := by
  induction entries generalizing start with
  | nil =>
    cases h
    exact h'
  | cons e entries ih => exact ⟨h.1, ih h.2⟩

/-- The entries tell the code, which starts at the offset: they lie side by side, write back to it, and
have the given depths and opcodes. -/
structure Tell (offset : Nat) (code : List UInt8) (outline : List (Nat × Opcode))
    (entries : List Entry) : Prop where
  tile : Tile offset entries (offset + code.length)
  bytes : entries.flatMap Entry.bytes = code
  depths : entries.map (fun e => (e.depth, e.opcode)) = outline

variable {offset depth : Nat} {code code' : List UInt8} {op : Opcode}
  {outline outline' : Nat → List (Nat × Opcode)}

/-- What tells a piece of code and what tells the piece behind it tell both together. -/
theorem Tell.append {first second : List (Nat × Opcode)} {entries entries' : List Entry}
    (h : Tell offset code first entries) (h' : Tell (offset + code.length) code' second entries') :
    Tell offset (code ++ code') (first ++ second) (entries ++ entries') where
  tile := by
    rw [List.length_append, ← Nat.add_assoc]
    exact h.tile.append h'.tile
  bytes := by rw [List.flatMap_append, h.bytes, h'.bytes]
  depths := by rw [List.map_append, h.depths, h'.depths]

/-- The entry of an instruction and what tells the code behind its header tell both together. -/
theorem Tell.cons {e : Entry} {rest : List (Nat × Opcode)} {entries : List Entry}
    (he : Operates e.opcode e.operands) (h : Tell (e.offset + e.opcode.headerSize) code rest entries) :
    Tell e.offset (e.bytes ++ code) ((e.depth, e.opcode) :: rest) (e :: entries) where
  tile := by
    rw [List.length_append, length_bytes he, ← Nat.add_assoc]
    exact ⟨rfl, h.tile⟩
  bytes := by rw [List.flatMap_cons, h.bytes]
  depths := by rw [List.map_cons, h.depths]

/-- No entries tell no code. -/
theorem Tell.nil : Tell offset [] [] [] := ⟨rfl, rfl, rfl⟩

/-! ### Walking -/

/-- A walk through no bytes lists nothing. -/
theorem walk_zero (code : List UInt8) (offset depth : Nat) (listed : Array Entry) :
    walk code offset 0 depth listed = .ok listed := by
  rw [walk, if_pos rfl]

/-- The walk lists an instruction, then its blocks, and goes on behind them. -/
theorem walk_instruction {sizes : List Nat} {operands : List (Operand × Nat)} {span : Nat}
    (hop : opcodeAt code = .ok op) (hsizes : blockSizes code op = .ok sizes)
    (hoperands : readOperands code op = .ok operands) (hspan : 0 < span) (listed : Array Entry) :
    walk code offset span depth listed = (do
      let listed ← walkBlocks (code.drop op.headerSize) (offset + op.headerSize) (depth + 1) sizes
        (listed.push ⟨offset, depth, op, operands⟩)
      let size := op.headerSize + sizes.foldl (· + ·) 0
      walk (code.drop size) (offset + size) (span - size) depth listed) := by
  rw [walk, if_neg (Nat.ne_of_gt hspan)]
  split
  · next e he =>
    rw [hop] at he
    cases he
  · next op' he =>
    rw [hop] at he
    cases he
    rw [hsizes, hoperands]
    rfl

/-- A walk through no blocks lists nothing. -/
theorem walkBlocks_nil (code : List UInt8) (offset depth : Nat) (listed : Array Entry) :
    walkBlocks code offset depth [] listed = .ok listed := by
  rw [walkBlocks]

/-- A walk through blocks goes through the first one and then, from where it ends, through the others. -/
theorem walkBlocks_cons (code : List UInt8) (offset depth size : Nat) (sizes : List Nat)
    (listed : Array Entry) :
    walkBlocks code offset depth (size :: sizes) listed = (do
      let listed ← walk code offset size depth listed
      walkBlocks (code.drop size) (offset + size) depth sizes listed) := by
  rw [walkBlocks]

/-- The walk goes through the code, wherever it lies, and lists entries that tell it. -/
def Lists (code : List UInt8) (outline : Nat → List (Nat × Opcode)) : Prop :=
  ∀ offset depth, ∃ entries, Tell offset code (outline depth) entries ∧
    ∀ rest span listed, walk (code ++ rest) offset (code.length + span) depth listed =
      walk rest (offset + code.length) span depth (listed ++ entries.toArray)

namespace Lists

/-- Code that is listed and code that is listed behind it are listed together, at one depth. -/
theorem append (h : Lists code outline) (h' : Lists code' outline') :
    Lists (code ++ code') fun depth => outline depth ++ outline' depth := by
  intro offset depth
  obtain ⟨entries, tell, walks⟩ := h offset depth
  obtain ⟨entries', tell', walks'⟩ := h' (offset + code.length) depth
  refine ⟨entries ++ entries', tell.append tell', ?_⟩
  intro rest span listed
  rw [List.append_assoc, List.length_append, Nat.add_assoc, walks, walks', Nat.add_assoc]
  simp

/-- Blocks are listed one after the other. -/
theorem blocks {blocks : List (List UInt8)} {outlines : List (Nat → List (Nat × Opcode))}
    (h : List.Forall₂ Lists blocks outlines) (offset depth : Nat) :
    ∃ entries, Tell offset blocks.flatten (outlines.flatMap (· depth)) entries ∧
      ∀ rest listed, walkBlocks (blocks.flatten ++ rest) offset depth (blocks.map List.length) listed =
        .ok (listed ++ entries.toArray) := by
  induction h generalizing offset with
  | nil =>
    refine ⟨[], .nil, ?_⟩
    intro rest listed
    rw [List.map_nil, walkBlocks_nil]
    simp
  | @cons block outline blocks outlines h _ ih =>
    obtain ⟨entries, tell, walks⟩ := h offset depth
    obtain ⟨entries', tell', walks'⟩ := ih (offset + block.length)
    refine ⟨entries ++ entries', tell.append tell', ?_⟩
    intro rest listed
    -- The span of the block is its size, so the walk through it ends where the next one starts.
    have first := walks (blocks.flatten ++ rest) 0 listed
    rw [walk_zero, Nat.add_zero] at first
    rw [List.map_cons, walkBlocks_cons, List.flatten_cons, List.append_assoc, first]
    show walkBlocks _ _ _ _ _ = _
    rw [List.drop_left, walks']
    simp

/-- An instruction with its operands and its blocks, whose sizes are among the operands. -/
theorem instruction {operands : List (Operand × Nat)} (bodies : List (List UInt8))
    {outlines : List (Nat → List (Nat × Opcode))} (hoperands : Operates op operands)
    (hsizes : (operands.filter (·.1.isBlockSize)).map Prod.snd = bodies.map List.length)
    (h : List.Forall₂ Lists bodies outlines) :
    Lists (op.byte :: operandBytes operands ++ bodies.flatten) fun depth =>
      (depth, op) :: outlines.flatMap (· (depth + 1)) := by
  intro offset depth
  have header := hoperands.length_header
  have size : op.headerSize + (bodies.map List.length).foldl (· + ·) 0 =
      (op.byte :: operandBytes operands ++ bodies.flatten).length := by
    rw [List.length_append, header, List.length_flatten, List.sum_eq_foldl]
  obtain ⟨entries, tell, walks⟩ := blocks h (offset + op.headerSize) (depth + 1)
  refine ⟨⟨offset, depth, op, operands⟩ :: entries,
    Tell.cons (e := ⟨offset, depth, op, operands⟩) hoperands tell, ?_⟩
  intro rest span listed
  have decodes := hoperands.decodes (bodies.flatten ++ rest)
  rw [← List.append_assoc] at decodes
  -- The decoder sees the code as a whole and takes each part of it by its place.
  generalize hwhole : op.byte :: operandBytes operands ++ bodies.flatten ++ rest = whole at decodes ⊢
  have sizes := decodes.sizes
  rw [hsizes] at sizes
  have inner : whole.drop op.headerSize = bodies.flatten ++ rest := by
    rw [← hwhole, List.append_assoc, ← header, List.drop_left]
  have behind : whole.drop (op.byte :: operandBytes operands ++ bodies.flatten).length = rest := by
    rw [← hwhole, List.drop_left]
  have nonempty : 0 < (op.byte :: operandBytes operands ++ bodies.flatten).length + span := by
    rw [List.cons_append, List.length_cons]
    omega
  rw [walk_instruction decodes.opcode sizes decodes.reads nonempty, inner, walks]
  show walk (whole.drop _) _ _ _ _ = _
  rw [size, behind, Nat.add_sub_cancel_left]
  simp

/-- Code that is walked through is a program with a listing, and the entries tell all of it. -/
theorem exists_ofCode (h : Lists code outline) :
    ∃ entries, ofCode code = .ok ⟨entries.toArray⟩ ∧ Tell 0 code (outline 0) entries := by
  obtain ⟨entries, tell, walks⟩ := h 0 0
  have walked := walks [] 0 #[]
  rw [List.append_nil, Nat.add_zero, walk_zero, Array.empty_append] at walked
  refine ⟨entries, ?_, tell⟩
  rw [ofCode, walked]
  rfl

end Lists

end Listing

end ParserMachine
