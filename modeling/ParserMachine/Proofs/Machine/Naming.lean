import ParserMachine.Proofs.Machine.Discipline

/-!
# The constants that code names

Constants are named by their indices, and an index in the code counts from the place where the constants
of its block start, which the choices around the block have moved. `Visits` goes through code as the
machine may: instruction by instruction, into each block with the constants moved as told, and on behind
it. It lists the opcodes, each with the indices of the constants that the instruction names, counted from
the bottom of the pool.

`Parser.instructions` is the other side: the instructions that a parser stands for, each with the
constants that the combinator has added for it. `tells_of_loads` says that the code of a loaded parser
is gone through to its end, and that each index in the list leads to the constant in the same place.
The machine comes to no other instructions (`Visits.comesTo_block`).
-/

set_option autoImplicit false

namespace ParserMachine

variable {S : Signature} {rules : Grammar S} {pool : Stack (Object S)}
  {cells : List (Cell (Object S))} {code code' body rest : List UInt8} {offset : Nat} {op : Opcode}
  {k : Kind S.Base}

/-! ### The indices in code -/

/-- Whether the operand is the index of a constant. -/
def Operand.isConstant : Operand → Bool
  | constant | dispatcher | function | label => true
  | count | length | leftLength | rightLength | rightOffset => false

/-- The indices of the constants that the first instruction of a program names, in a pool entered at the
given offset. -/
def Bytecode.namedConstants (code : List UInt8) (op : Opcode) (offset : Nat) :
    Except Malformed (List Nat) :=
  ((placed 1 op.operands).filter (·.1.isConstant)).mapM fun (_, place) => constantAt code place offset

/-- What is named by the instructions that are left of some blocks, each entered at its own offset of the
constants, and by the blocks within them. -/
inductive Visits : List (List UInt8 × Nat) → List (Opcode × List Nat) → Prop where
  | done : Visits [] []
  | leave {offset : Nat} {work : List (List UInt8 × Nat)} {named : List (Opcode × List Nat)}
      (h : Visits work named) : Visits (([], offset) :: work) named
  | enter {code : List UInt8} {offset size : Nat} {op : Opcode} {indices : List Nat}
      {blocks work : List (List UInt8 × Nat)} {named : List (Opcode × List Nat)}
      (hop : Bytecode.opcodeAt code = .ok op)
      (hindices : Bytecode.namedConstants code op offset = .ok indices)
      (hblocks : firstBlocks code = .ok blocks) (hsize : Bytecode.instructionSize code = .ok size)
      (h : Visits (blocks.map (fun block => (block.1, offset + block.2)) ++
        (code.drop size, offset) :: work) named) :
      Visits ((code, offset) :: work) ((op, indices) :: named)

/-- The code, entered at the offset, is gone through on the way, and what it names is in the list. -/
def ComesTo (named : List (Opcode × List Nat)) (code : List UInt8) (offset : Nat) : Prop :=
  ∃ work named', Visits ((code, offset) :: work) named' ∧ named' ⊆ named

section ComesTo

variable {work : List (List UInt8 × Nat)} {named : List (Opcode × List Nat)}

/-- All the work is come to. -/
theorem Visits.comesTo (h : Visits work named) (hmem : (code, offset) ∈ work) :
    ComesTo named code offset := by
  -- By induction on the way through the work: what is not first in it stays until its turn.
  induction h with
  | done => cases hmem
  | @leave _ work named h ih =>
    rcases List.mem_cons.1 hmem with first | later
    · cases first
      exact ⟨work, named, .leave h, List.Subset.refl _⟩
    · exact ih later
  | @enter _ _ _ _ _ _ work named hop hindices hblocks hsize h ih =>
    rcases List.mem_cons.1 hmem with first | later
    · cases first
      exact ⟨work, _, .enter hop hindices hblocks hsize h, List.Subset.refl _⟩
    · obtain ⟨work', named', h', hsub⟩ := ih (List.mem_append_right _ (List.mem_cons_of_mem _ later))
      exact ⟨work', named', h', List.subset_cons_of_subset _ hsub⟩

namespace ComesTo

/-- Code that is come to while less is named is come to while more is. -/
theorem mono {named' : List (Opcode × List Nat)} (h : ComesTo named' code offset)
    (hsub : named' ⊆ named) : ComesTo named code offset := by
  obtain ⟨work, l, h, hl⟩ := h
  exact ⟨work, l, h, List.Subset.trans hl hsub⟩

/-- What the first instruction names is in the list. -/
theorem exists_named (h : ComesTo named code offset) (hop : Bytecode.opcodeAt code = .ok op) :
    ∃ indices, Bytecode.namedConstants code op offset = .ok indices ∧ (op, indices) ∈ named := by
  obtain ⟨work, named', h, hsub⟩ := h
  cases h with
  | leave => cases hop
  | enter hop' hindices hblocks hsize h =>
    rw [hop] at hop'
    cases hop'
    exact ⟨_, hindices, hsub List.mem_cons_self⟩

/-- The code behind the first instruction is come to. -/
theorem next {size : Nat} (h : ComesTo named code offset)
    (hsize : Bytecode.instructionSize code = .ok size) : ComesTo named (code.drop size) offset := by
  obtain ⟨work, named', h, hsub⟩ := h
  cases h with
  | leave => cases hsize
  | enter hop hindices hblocks hsize' h =>
    rw [hsize] at hsize'
    cases hsize'
    have later := h.comesTo (List.mem_append_right _ List.mem_cons_self)
    exact later.mono (List.Subset.trans (List.subset_cons_self _ _) hsub)

/-- The blocks that the first instruction wraps are come to. -/
theorem inner {blocks : List (List UInt8 × Nat)} {shift : Nat} (h : ComesTo named code offset)
    (hblocks : firstBlocks code = .ok blocks) (hmem : (body, shift) ∈ blocks) :
    ComesTo named body (offset + shift) := by
  obtain ⟨work, named', h, hsub⟩ := h
  cases h with
  | leave => cases hblocks
  | enter hop hindices hblocks' hsize h =>
    rw [hblocks] at hblocks'
    cases hblocks'
    have within := h.comesTo (List.mem_append_left _ (List.mem_map_of_mem hmem))
    exact within.mono (List.Subset.trans (List.subset_cons_self _ _) hsub)

/-- Code that is come to is gone through instruction by instruction, so what is left of it is come to as
well. -/
theorem remains (h : ComesTo named code offset) (hrest : Remains code rest) :
    ComesTo named rest offset := by
  induction hrest with
  | all => exact h
  | next _ hsize ih => exact ih.next hsize

end ComesTo

/-- All blocks of a program are come to. -/
theorem Visits.comesTo_block {program : Program S} (h : Visits [(program.code.bytes, 0)] named)
    (hblock : program.HasBlock code offset) : ComesTo named code offset := by
  induction hblock with
  | whole => exact h.comesTo List.mem_cons_self
  | inner _ hrest hblocks hmem ih => exact (ih.remains hrest).inner hblocks hmem

end ComesTo

/-! ### The constants of a parser -/

/-- The instructions of a parser, each with the constants that were added for it. -/
def Parser.instructions (rules : Grammar S) :
    {k : Kind S.Base} → Parser S k → List (Opcode × List (Cell (Object S)))
  | _, .pure v => [(.pure, [.object (.datum (.ofVal v))])]
  | _, .error c => [(.error, [.object (.complaint c)])]
  | _, .token t => [(.token, [.ofValue t])]
  | _, .tokens ts => [(.tokens, [.object (.datum (.run ts))])]
  | _, .satisfy p => [(.satisfy, [.object (.predicate p)])]
  | _, .oneOf ts => [(.oneOf, [.object (.datum (.run ts))])]
  | _, .noneOf ts => [(.noneOf, [.object (.datum (.run ts))])]
  | _, .take _ => [(.takeN, [])]
  | _, .take1 => [(.take1, [])]
  | _, .takeWhile p => [(.takeWhile, [.object (.predicate p)])]
  | _, .takeWhile1 p => [(.takeWhile1, [.object (.predicate p)])]
  | _, .eof => [(.eof, [])]
  | _, .newline => [(.newline, [.object (.label "newline")])]
  | _, .map p f => p.instructions rules ++ [(.invoke, [.ofValue Dispatcher.map, .object (.mapping f)])]
  | _, .bind p f => p.instructions rules ++ [(.invokeM, [.ofValue Dispatcher.bind, .object (.binder f)])]
  | _, .selectMany p f project =>
    p.instructions rules ++ [(.invokeM, [.ofValue Dispatcher.select, .object (.binder f)]),
      (.invoke, [.ofValue Dispatcher.project, .object (.projection project)])]
  | _, .or p q => (.or, []) :: (p.instructions rules ++ q.instructions rules)
  | _, .try p => (.try, []) :: p.instructions rules
  | _, .label name p => (.label, [.object (.label name)]) :: p.instructions rules
  | _, .hidden p => (.hidden, []) :: p.instructions rules
  | _, .lookAhead p => (.lookAhead, []) :: p.instructions rules
  | _, .notFollowedBy p => (.notFollowedBy, []) :: p.instructions rules
  | _, .observing p => (.observing, [.ofValue Observer.observe]) :: p.instructions rules
  | _, .rule r =>
    [(.pure, [.object (.datum .unit)]),
      (.invokeM, [.ofValue Dispatcher.bind, .object (.binder fun _ : S.Val .unit => rules r)])]

/-- The indices lead to the constants, in the same order, and to places inside the pool. -/
def Resolves (pool : Stack (Object S)) (named : Opcode × List Nat)
    (added : Opcode × List (Cell (Object S))) : Prop :=
  named.1 = added.1 ∧
    List.Forall₂ (fun index c => index < pool.count ∧ pool.HasAt index c) named.2 added.2

/-- The code, entered at the offset, is gone through to its end, and what it names are the given
constants. -/
def Tells (pool : Stack (Object S)) (offset : Nat) (code : List UInt8)
    (added : List (Opcode × List (Cell (Object S)))) : Prop :=
  ∃ named, List.Forall₂ (Resolves pool) named added ∧
    ∀ rest work after, Visits ((rest, offset) :: work) after →
      Visits ((code ++ rest, offset) :: work) (named ++ after)

/-- What was lifted from reading code was read. -/
theorem Bytecode.eq_of_liftM {α : Type} {x : Except Malformed α} {a : α}
    (h : (liftM x : Except Fault α) = .ok a) : x = .ok a := by
  cases x with
  | ok b =>
    cases h
    rfl
  | error cause => cases h

/-- An instruction that names nothing resolves to no constants. -/
theorem Resolves.none (pool : Stack (Object S)) (op : Opcode) : Resolves pool (op, []) (op, []) :=
  ⟨rfl, .nil⟩

/-- What is in the list leads to the constants of one of the instructions. -/
theorem exists_resolves {named : List (Opcode × List Nat)}
    {added : List (Opcode × List (Cell (Object S)))} (h : List.Forall₂ (Resolves pool) named added)
    {indices : List Nat} (hmem : (op, indices) ∈ named) :
    ∃ constants, (op, constants) ∈ added ∧ Resolves pool (op, indices) (op, constants) := by
  induction h with
  | nil => cases hmem
  | @cons first instruction _ _ h _ ih =>
    rcases List.mem_cons.1 hmem with rfl | later
    · obtain ⟨op', constants⟩ := instruction
      obtain ⟨rfl, -⟩ := id h
      exact ⟨constants, List.mem_cons_self, h⟩
    · obtain ⟨constants, hconstants, resolves⟩ := ih later
      exact ⟨constants, List.mem_cons_of_mem _ hconstants, resolves⟩

/-- An index that leads to a cell lies inside the pool, and the slot there stands for the cell. -/
theorem resolves_of_getElem? (hp : pool.Represents cells) {index : Nat} {c : Cell (Object S)}
    (hc : cells[index]? = some c) : index < pool.count ∧ pool.HasAt index c := by
  refine ⟨?_, cells, hp, hc⟩
  rw [hp.count_eq]
  exact (List.getElem?_eq_some_iff.1 hc).1

namespace Tells

/-- What two pieces of code name, they name together, one after the other. -/
theorem append {added added' : List (Opcode × List (Cell (Object S)))}
    (h : Tells pool offset code added) (h' : Tells pool offset code' added') :
    Tells pool offset (code ++ code') (added ++ added') := by
  obtain ⟨named, hnamed, visits⟩ := h
  obtain ⟨named', hnamed', visits'⟩ := h'
  refine ⟨named ++ named', List.rel_append hnamed hnamed', ?_⟩
  intro rest work after ends
  rw [List.append_assoc, List.append_assoc]
  exact visits _ _ _ (visits' _ _ _ ends)

/-- Blocks are gone through one after the other. -/
theorem blocks {blocks : List (List UInt8 × Nat)} {added : List (List (Opcode × List (Cell (Object S))))}
    (h : List.Forall₂ (fun block added => Tells pool (offset + block.2) block.1 added) blocks added) :
    ∃ named, List.Forall₂ (Resolves pool) named added.flatten ∧
      ∀ work after, Visits work after →
        Visits (blocks.map (fun block => (block.1, offset + block.2)) ++ work) (named ++ after) := by
  induction h with
  | nil => exact ⟨[], .nil, fun _ _ h => h⟩
  | @cons block _ blocks _ h _ ih =>
    obtain ⟨named, hnamed, visits⟩ := h
    obtain ⟨named', hnamed', visits'⟩ := ih
    refine ⟨named ++ named', List.rel_append hnamed hnamed', ?_⟩
    intro work after ends
    -- The block is left where nothing remains of it, and then the others are entered.
    have first := visits [] _ _ (.leave (visits' work after ends))
    rwa [List.append_nil, ← List.append_assoc] at first

/-- An instruction, with the blocks that it wraps. -/
theorem instruction {indices : List Nat} {constants : List (Cell (Object S))}
    {inner : List (List UInt8 × Nat)} {added : List (List (Opcode × List (Cell (Object S))))}
    (hop : ∀ rest, (liftM (Bytecode.opcodeAt (code ++ rest)) : Except Fault Opcode) = .ok op)
    (hindices : ∀ rest, Bytecode.namedConstants (code ++ rest) op offset = .ok indices)
    (hresolves : Resolves pool (op, indices) (op, constants))
    (hblocks : ∀ rest, firstBlocks (code ++ rest) = .ok inner)
    (hsize : ∀ rest, Bytecode.instructionSize (code ++ rest) = .ok code.length)
    (h : List.Forall₂ (fun block added => Tells pool (offset + block.2) block.1 added) inner added) :
    Tells pool offset code ((op, constants) :: added.flatten) := by
  obtain ⟨named, hnamed, visits⟩ := blocks h
  refine ⟨(op, indices) :: named, .cons hresolves hnamed, ?_⟩
  intro rest work after ends
  refine .enter (Bytecode.eq_of_liftM (hop rest)) (hindices rest) (hblocks rest) (hsize rest) ?_
  rw [List.drop_left]
  exact visits _ _ ends

end Tells

/-! ### Instructions, by their form -/

section Forms

variable {c : Cell (Object S)} (hp : pool.Represents cells)

/-- An opcode without constant operands names nothing. -/
theorem Bytecode.namedConstants_nil (h : (placed 1 op.operands).filter (·.1.isConstant) = []) :
    namedConstants code op offset = .ok [] := by
  rw [namedConstants, h]
  rfl

/-- An opcode with one constant operand names the index that is read there. -/
theorem Bytecode.namedConstants_singleton {operand : Operand} {place index : Nat}
    (h : (placed 1 op.operands).filter (·.1.isConstant) = [(operand, place)])
    (hindex : constantAt code place offset = .ok index) :
    namedConstants code op offset = .ok [index] := by
  simp only [namedConstants, h, List.mapM_cons, List.mapM_nil, hindex]
  rfl

/-- An instruction that names no constant and wraps no block. -/
theorem tells_plain (hop : ∀ rest, (liftM (Bytecode.opcodeAt (code ++ rest)) : Except Fault Opcode) =
      .ok op)
    (hnone : (Bytecode.placed 1 op.operands).filter (·.1.isConstant) = [])
    (hblock : op.operands.all (!·.isBlockSize) = true)
    (hsize : ∀ rest, Bytecode.instructionSize (code ++ rest) = .ok code.length) :
    Tells pool offset code [(op, [])] :=
  .instruction hop (fun _ => Bytecode.namedConstants_nil hnone) (.none pool op)
    (fun rest => firstBlocks_of_no_block (hop rest) hblock) hsize .nil

include hp

/-- An instruction with one constant names that constant. -/
theorem Parser.LoadsConstant.tells (h : Parser.LoadsConstant cells op c code offset)
    (hop : op.operands = [.constant]) : Tells pool offset code [(op, [c])] := by
  have hconstants : (Bytecode.placed 1 op.operands).filter (·.1.isConstant) = [(.constant, 1)] := by
    rw [hop]
    rfl
  have hblock : op.operands.all (!·.isBlockSize) = true := by
    rw [hop]
    rfl
  obtain ⟨i, hc, hi⟩ := h.exists_index
  exact .instruction h.opcode (fun rest => Bytecode.namedConstants_singleton hconstants (hi rest))
    ⟨rfl, .cons (resolves_of_getElem? hp hc) .nil⟩
    (fun rest => firstBlocks_of_no_block (h.opcode rest) hblock) (fun rest => h.size rest hop) .nil

/-- An applied function is named together with its routine, the routine first. -/
theorem Parser.LoadsInvoke.tells {routine : Dispatcher} {function : Object S}
    (h : Parser.LoadsInvoke cells op routine function code offset)
    (hop : op.operands = [.dispatcher, .function]) :
    Tells pool offset code [(op, [.ofValue routine, .object function])] := by
  have hconstants : (Bytecode.placed 1 op.operands).filter (·.1.isConstant) =
      [(.dispatcher, 1), (.function, 3)] := by
    rw [hop]
    rfl
  have hblock : op.operands.all (!·.isBlockSize) = true := by
    rw [hop]
    rfl
  obtain ⟨i, j, hroutine, hfunction, hij⟩ := h.exists_indices
  have hindices (rest : List UInt8) :
      Bytecode.namedConstants (code ++ rest) op offset = .ok [i, j] := by
    obtain ⟨hi, hj⟩ := hij rest
    simp only [Bytecode.namedConstants, hconstants, List.mapM_cons, List.mapM_nil, hi, hj]
    rfl
  exact .instruction h.opcode hindices
    ⟨rfl, .cons (resolves_of_getElem? hp hroutine) (.cons (resolves_of_getElem? hp hfunction) .nil)⟩
    (fun rest => firstBlocks_of_no_block (h.opcode rest) hblock) (fun rest => h.size rest hop) .nil

omit hp in
/-- An instruction that wraps a block names nothing itself, and then comes what the block names. -/
theorem Parser.Wraps.tells {added : List (Opcode × List (Cell (Object S)))}
    (h : Parser.Wraps op body code) (hop : op.operands = [.length])
    (hbody : Tells pool offset body added) : Tells pool offset code ((op, []) :: added) := by
  have hnone : (Bytecode.placed 1 op.operands).filter (·.1.isConstant) = [] := by
    rw [hop]
    rfl
  have whole : Tells pool offset code ((op, []) :: [added].flatten) :=
    .instruction h.opcode (fun _ => Bytecode.namedConstants_nil hnone) (.none pool op)
      (fun rest => firstBlocks_of_wraps h rest hop) (fun rest => h.size rest hop) (.cons hbody .nil)
  simpa using whole

/-- An instruction that wraps a block beside a constant names that constant, and then comes what the
block names. -/
theorem Parser.WrapsConstant.tells {added : List (Opcode × List (Cell (Object S)))}
    (h : Parser.WrapsConstant cells op c body code offset) (hop : op = .label ∨ op = .observing)
    (hbody : Tells pool offset body added) : Tells pool offset code ((op, [c]) :: added) := by
  obtain ⟨i, hc, hi⟩ := h.exists_index
  have hindices (rest : List UInt8) : Bytecode.namedConstants (code ++ rest) op offset = .ok [i] := by
    rcases hop with rfl | rfl <;> exact Bytecode.namedConstants_singleton rfl (hi rest)
  have hsize (rest : List UInt8) : Bytecode.instructionSize (code ++ rest) = .ok code.length := by
    rcases hop with rfl | rfl <;> exact h.size rest rfl rfl rfl
  have whole : Tells pool offset code ((op, [c]) :: [added].flatten) :=
    .instruction h.opcode hindices ⟨rfl, .cons (resolves_of_getElem? hp hc) .nil⟩
      (fun rest => firstBlocks_of_wrapsConstant h rest hop) hsize (.cons hbody .nil)
  simpa using whole

end Forms

/-- A choice names nothing itself. What its left side names comes before what its right side does, which
counts from an offset that has been moved. -/
theorem Parser.Chooses.tells {left right : List UInt8} {shift : Nat}
    {added added' : List (Opcode × List (Cell (Object S)))}
    (h : Parser.Chooses left right shift code) (hleft : Tells pool offset left added)
    (hright : Tells pool (offset + shift) right added') :
    Tells pool offset code ((.or, []) :: (added ++ added')) := by
  have whole : Tells pool offset code ((.or, []) :: [added, added'].flatten) :=
    .instruction h.opcode (fun _ => Bytecode.namedConstants_nil rfl) (.none pool .or)
      (firstBlocks_of_chooses h) h.size (.cons hleft (.cons hright .nil))
  simpa using whole

/-- What the code of a loaded parser names are the constants of its instructions. -/
theorem tells_of_loads (hp : pool.Represents cells) {p : Parser S k}
    (hl : p.Loads cells rules code offset) : Tells pool offset code (p.instructions rules) := by
  -- By induction on the parser, as its code was put together. Only the second side of a choice is entered
  -- at another offset.
  induction p generalizing code offset with
  | pure | error | token | tokens | satisfy | oneOf | noneOf | takeWhile | takeWhile1 | newline =>
    exact Parser.LoadsConstant.tells hp hl rfl
  | take n =>
    have size := (Parser.take n : Parser S .run).instructionSize_eq trivial hl
    obtain ⟨count, -, rfl⟩ := hl
    exact tells_plain (fun rest => Parser.fetch_opcode .takeN _) rfl rfl size
  | take1 =>
    have size := (Parser.take1 : Parser S .token).instructionSize_eq trivial hl
    obtain rfl := hl
    exact tells_plain (fun rest => Parser.fetch_opcode .take1 _) rfl rfl size
  | eof =>
    have size := (Parser.eof : Parser S .unit).instructionSize_eq trivial hl
    obtain rfl := hl
    exact tells_plain (fun rest => Parser.fetch_opcode .eof _) rfl rfl size
  | map p f ih | bind p f ih =>
    obtain ⟨first, last, rfl, hfirst, hlast⟩ := hl
    exact (ih hfirst).append (hlast.tells hp rfl)
  | selectMany p f project ih =>
    obtain ⟨first, middle, last, rfl, hfirst, hmiddle, hlast⟩ := hl
    exact (ih hfirst).append ((hmiddle.tells hp rfl).append (hlast.tells hp rfl))
  | or p q ihp ihq =>
    obtain ⟨left, right, shift, hcode, hleft, hright⟩ := hl
    exact hcode.tells (ihp hleft) (ihq hright)
  | «try» p ih | hidden p ih | lookAhead p ih | notFollowedBy p ih =>
    obtain ⟨body, hcode, hbody⟩ := hl
    exact hcode.tells rfl (ih hbody)
  | label name p ih =>
    obtain ⟨body, hcode, hbody⟩ := hl
    exact hcode.tells hp (.inl rfl) (ih hbody)
  | observing p ih =>
    obtain ⟨body, hcode, hbody⟩ := hl
    exact hcode.tells hp (.inr rfl) (ih hbody)
  | rule r =>
    obtain ⟨first, last, rfl, hfirst, hlast⟩ := hl
    exact (hfirst.tells hp rfl).append (hlast.tells hp rfl)

/-- A compiled program is gone through to its end, and each index that it names is that of the constant
added for it. -/
theorem Program.exists_visits {p : Parser S k} {program : Program S}
    (h : p.compile rules = .ok program) : ∃ named, Visits [(program.code.bytes, 0)] named ∧
      List.Forall₂ (Resolves program.pool) named (p.instructions rules) := by
  obtain ⟨bytes, cells, hprogram, hcode⟩ := (p.yields_compile).post_of_eq_ok h
  obtain ⟨named, hnamed, visits⟩ := tells_of_loads hprogram.pool hcode
  have whole := visits [] [] [] (.leave .done)
  rw [List.append_nil, List.append_nil] at whole
  refine ⟨named, ?_, hnamed⟩
  rwa [hprogram.code.bytes_eq]

end ParserMachine
