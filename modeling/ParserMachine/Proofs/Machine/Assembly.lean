import ParserMachine.Proofs.Machine.Instructions

/-!
# The blocks of a program

The blocks of a program are told by its bytes alone: `Program.HasBlock` follows the sizes that the
instructions give, from the program itself into what its instructions wrap. `Assembled` is what connects
them with parsers: code is a sequence of loaded instructions, and the blocks within a loaded instruction are
loaded themselves (`Assembled.loads_firstBlocks`). So each block of a compiled program is the code of some
parser (`Program.HasBlock.loads`).
-/

set_option autoImplicit false

namespace ParserMachine

open Machine

variable {S : Signature}

/-! ### Told by bytes -/

/-- The code that is left of a program after some of its instructions. -/
inductive Remains (code : List UInt8) : List UInt8 → Prop where
  | all : Remains code code
  | next {rest : List UInt8} {size : Nat} (h : Remains code rest)
      (hsize : Bytecode.instructionSize rest = .ok size) : Remains code (rest.drop size)

/-- The blocks that the first instruction of a program wraps, each with how far its constants are
moved. -/
def firstBlocks (code : List UInt8) : Except Fault (List (List UInt8 × Nat)) := do
  let op ← (Bytecode.opcodeAt code : Except Fault Opcode)
  match op with
  | .try | .hidden | .lookAhead | .notFollowedBy => return [(← wrapped code 5 1, 0)]
  | .label | .observing => return [(← wrapped code 7 3, 0)]
  | .or =>
    let leftSize ← (Bytecode.readWord code 1 4 : Except Fault Nat)
    let rightSize ← (Bytecode.readWord code 5 4 : Except Fault Nat)
    let shift ← (Bytecode.readWord code 9 2 : Except Fault Nat)
    let left ← (Bytecode.block code 11 leftSize : Except Fault (List UInt8))
    let right ← (Bytecode.block code (11 + leftSize) rightSize : Except Fault (List UInt8))
    return [(left, 0), (right, shift)]
  | _ => return []

section FirstBlocks

open ParserMachine.Parser (Wraps WrapsConstant Chooses)

variable {pool : List (Cell (Object S))} {op : Opcode} {c : Cell (Object S)} {body code : List UInt8}
  {offset : Nat}

/-- An instruction without block sizes wraps no blocks. -/
theorem firstBlocks_of_no_block (h : (liftM (Bytecode.opcodeAt code) : Except Fault Opcode) = .ok op)
    (hop : op.operands.all (!·.isBlockSize) = true) : firstBlocks code = .ok [] := by
  rw [firstBlocks, h]
  cases op with
  | «try» | hidden | lookAhead | notFollowedBy | label | observing | or => cases hop
  | _ => rfl

/-- An instruction that wraps a block by its size alone has that one block, with its constants where
they were. -/
theorem firstBlocks_of_wraps (h : Wraps op body code) (rest : List UInt8)
    (hop : op.operands = [.length]) : firstBlocks (code ++ rest) = .ok [(body, 0)] := by
  rw [firstBlocks, h.opcode rest]
  cases op with
  | «try» | hidden | lookAhead | notFollowedBy =>
    simp only [bind, Except.bind, h.block rest]
    rfl
  | _ => cases hop

/-- An instruction that wraps a block beside a constant has that one block, with its constants where
they were. -/
theorem firstBlocks_of_wrapsConstant (h : WrapsConstant pool op c body code offset)
    (rest : List UInt8) (hop : op = .label ∨ op = .observing) :
    firstBlocks (code ++ rest) = .ok [(body, 0)] := by
  rw [firstBlocks, h.opcode rest]
  rcases hop with rfl | rfl <;> simp only [bind, Except.bind, h.block rest] <;> rfl

/-- A choice has two blocks, and the constants of the right one are moved. -/
theorem firstBlocks_of_chooses {left right : List UInt8} {shift : Nat}
    (h : Chooses left right shift code) (rest : List UInt8) :
    firstBlocks (code ++ rest) = .ok [(left, 0), (right, shift)] := by
  obtain ⟨leftSize, rightSize, rightShift, leftBlock, rightBlock⟩ := h.blocks rest
  simp only [firstBlocks, h.opcode rest, leftSize, rightSize, rightShift, leftBlock, rightBlock, bind,
    Except.bind]
  rfl

end FirstBlocks

/-- The code, entered at an offset of its constants, is a block of the program: the program itself, or
wrapped by an instruction of such a block. -/
inductive Program.HasBlock (program : Program S) : List UInt8 → Nat → Prop where
  | whole : HasBlock program program.code.bytes 0
  | inner {outer rest code : List UInt8} {offset shift : Nat} {blocks : List (List UInt8 × Nat)}
      (h : HasBlock program outer offset) (hrest : Remains outer rest)
      (hblocks : firstBlocks rest = .ok blocks) (hmem : (code, shift) ∈ blocks) :
      HasBlock program code (offset + shift)

/-! ### Told by parsers -/

/-- The code is a sequence of loaded instructions. -/
inductive Assembled (rules : Grammar S) (pool : List (Cell (Object S))) (offset : Nat) :
    List UInt8 → Prop where
  | nil : Assembled rules pool offset []
  | instruction {k : Kind S.Base} {p : Parser S k} {code rest : List UInt8} (hone : p.IsInstruction)
      (hl : p.Loads pool rules code offset) (h : Assembled rules pool offset rest) :
      Assembled rules pool offset (code ++ rest)
  | invoke {op : Opcode} {routine : Dispatcher} {function : Object S} {code rest : List UInt8}
      (hop : op = .invoke ∨ op = .invokeM)
      (hl : Parser.LoadsInvoke pool op routine function code offset)
      (h : Assembled rules pool offset rest) : Assembled rules pool offset (code ++ rest)

namespace Assembled

variable {rules : Grammar S} {pool : List (Cell (Object S))} {offset : Nat}
  {code code' rest : List UInt8} {k : Kind S.Base}

/-- Two sequences of instructions that follow each other are one. -/
theorem append (h : Assembled rules pool offset code) (h' : Assembled rules pool offset code') :
    Assembled rules pool offset (code ++ code') := by
  induction h with
  | nil => exact h'
  | instruction hone hl _ ih =>
    rw [List.append_assoc]
    exact .instruction hone hl ih
  | invoke hop hl _ ih =>
    rw [List.append_assoc]
    exact .invoke hop hl ih

/-- A loaded instruction is a sequence of its own. -/
theorem ofInstruction {p : Parser S k} (hone : p.IsInstruction)
    (hl : p.Loads pool rules code offset) : Assembled rules pool offset code := by
  simpa using instruction hone hl nil

/-- An applied function is a sequence of its own. -/
theorem ofInvoke {op : Opcode} {routine : Dispatcher} {function : Object S}
    (hop : op = .invoke ∨ op = .invokeM)
    (hl : Parser.LoadsInvoke pool op routine function code offset) :
    Assembled rules pool offset code := by
  simpa using invoke hop hl nil

/-- The code of a parser is a sequence of loaded instructions. -/
theorem ofLoads {p : Parser S k} (hl : p.Loads pool rules code offset) :
    Assembled rules pool offset code := by
  induction p generalizing code with
  | pure | error | token | tokens | satisfy | oneOf | noneOf | take | take1 | takeWhile | takeWhile1
  | eof | newline | or | «try» | label | hidden | lookAhead | notFollowedBy | observing =>
    refine ofInstruction ?_ hl
    trivial
  | map p f ih =>
    obtain ⟨first, last, rfl, hfirst, hlast⟩ := hl
    exact (ih hfirst).append (ofInvoke (.inl rfl) hlast)
  | bind p f ih =>
    obtain ⟨first, last, rfl, hfirst, hlast⟩ := hl
    exact (ih hfirst).append (ofInvoke (.inr rfl) hlast)
  | selectMany p f project ih =>
    obtain ⟨first, middle, last, rfl, hfirst, hmiddle, hlast⟩ := hl
    exact (ih hfirst).append ((ofInvoke (.inr rfl) hmiddle).append (ofInvoke (.inl rfl) hlast))
  | rule r =>
    obtain ⟨first, last, rfl, hfirst, hlast⟩ := hl
    have unit : (Parser.pure () : Parser S .unit).Loads pool rules first offset := hfirst
    have one : (Parser.pure () : Parser S .unit).IsInstruction := trivial
    exact (ofInstruction one unit).append (ofInvoke (.inr rfl) hlast)

/-- After some of its instructions, too, the code is a sequence of loaded instructions. -/
theorem remains (h : Assembled rules pool offset code) (hrest : Remains code rest) :
    Assembled rules pool offset rest := by
  -- Each step takes away one more instruction, the first of those that were left.
  induction hrest with
  | all => exact h
  | next _ hsize ih =>
    cases ih with
    | nil => cases hsize
    | instruction hone hl h =>
      rw [Parser.instructionSize_eq hone hl] at hsize
      cases hsize
      rwa [List.drop_left]
    | invoke hop hl h =>
      rw [hl.size _ (by rcases hop with rfl | rfl <;> rfl)] at hsize
      cases hsize
      rwa [List.drop_left]

/-- The blocks within a loaded instruction are loaded. -/
theorem loads_firstBlocks {blocks : List (List UInt8 × Nat)} {inner : List UInt8} {shift : Nat}
    (h : Assembled rules pool offset code) (hblocks : firstBlocks code = .ok blocks)
    (hmem : (inner, shift) ∈ blocks) :
    ∃ (k : Kind S.Base) (q : Parser S k), q.Loads pool rules inner (offset + shift) := by
  cases h with
  | nil => cases hblocks
  | @invoke op routine function code rest hop hl h =>
    rw [firstBlocks_of_no_block (hl.opcode rest) (by rcases hop with rfl | rfl <;> decide)] at hblocks
    cases hblocks
    cases hmem
  | @instruction k p code rest hone hl h =>
    cases p with
    -- These have no blocks.
    | pure | error | token | tokens | satisfy | oneOf | noneOf | takeWhile | takeWhile1 | newline =>
      rw [firstBlocks_of_no_block (Parser.LoadsConstant.opcode hl rest) (by decide)] at hblocks
      cases hblocks
      cases hmem
    | take n =>
      obtain ⟨count, -, rfl⟩ := hl
      rw [List.cons_append, firstBlocks_of_no_block (Parser.fetch_opcode .takeN _) (by decide)]
        at hblocks
      cases hblocks
      cases hmem
    | take1 | eof =>
      obtain rfl := hl
      rw [List.cons_append, firstBlocks_of_no_block (Parser.fetch_opcode _ _) (by decide)] at hblocks
      cases hblocks
      cases hmem
    | «try» p | hidden p | lookAhead p | notFollowedBy p =>
      obtain ⟨body, hcode, hbody⟩ := hl
      rw [firstBlocks_of_wraps hcode rest rfl] at hblocks
      cases hblocks
      cases List.mem_singleton.1 hmem
      exact ⟨_, p, hbody⟩
    | label name p | observing p =>
      obtain ⟨body, hcode, hbody⟩ := hl
      rw [firstBlocks_of_wrapsConstant hcode rest (by decide)] at hblocks
      cases hblocks
      cases List.mem_singleton.1 hmem
      exact ⟨_, p, hbody⟩
    | or p q =>
      obtain ⟨left, right, moved, hcode, hleft, hright⟩ := hl
      rw [firstBlocks_of_chooses hcode rest] at hblocks
      cases hblocks
      rcases List.mem_pair.1 hmem with first | second
      · cases first
        exact ⟨_, p, hleft⟩
      · cases second
        exact ⟨_, q, hright⟩
    | map | bind | selectMany | rule => exact hone.elim

end Assembled

/-- Every block of a compiled program is loaded for some parser. -/
theorem Program.HasBlock.loads {rules : Grammar S} {program : Program S}
    {cells : List (Cell (Object S))} {code bytes : List UInt8} {offset : Nat} {k : Kind S.Base}
    {p : Parser S k} (hp : program.Has bytes cells) (hl : p.Loads cells rules bytes 0)
    (h : program.HasBlock code offset) :
    ∃ (k : Kind S.Base) (q : Parser S k), q.Loads cells rules code offset := by
  induction h with
  | whole =>
    rw [hp.code.bytes_eq]
    exact ⟨k, p, hl⟩
  | inner _ hrest hblocks hmem ih =>
    obtain ⟨k, q, hq⟩ := ih
    exact ((Assembled.ofLoads hq).remains hrest).loads_firstBlocks hblocks hmem

end ParserMachine
