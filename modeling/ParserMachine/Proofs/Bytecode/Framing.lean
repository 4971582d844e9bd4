import ParserMachine.Proofs.Bytecode.Listing

/-!
# Which bytes have a listing

Instructions wrap blocks, and a program is well framed if every block is a program that ends where its frame
ends (`WellFramed`). Well-framed programs are listed. The converse fails: the walk compares its place with
the end of a block only between two instructions, and decodes from the whole of the program. So the last
instruction that starts in a block may end behind it, and its bytes are then listed twice.

`Covered` is what the walk does ask. It never asks that a block ends in the program, yet a block that does
not is found out (`Covered.span_le`): an instruction in it would have to be decoded from bytes that are not
there. `Fills` is how a listing tells well-framed programs from others. Its entries lie side by side only if
no instruction ends behind its block (`wellFramed_iff`).
-/

set_option autoImplicit false

namespace ParserMachine

namespace Bytecode

variable {code : List UInt8} {op : Opcode} {operands places : List (Operand × Nat)}

/-! ### What was decoded is there -/

/-- Code with a readable opcode starts with the byte of that opcode. -/
theorem eq_byte_of_opcodeAt (h : opcodeAt code = .ok op) : code = op.byte :: code.drop 1 := by
  cases code with
  | nil => cases h
  | cons b code =>
    simp only [opcodeAt] at h
    split at h
    · next op' hbyte =>
      cases h
      rw [Opcode.byte_of_ofByte? hbyte]
      rfl
    · cases h

/-- Where a number is read, the code has its bytes, and the number is within the bound of so many. -/
theorem eq_encode_of_readWord {place width n : Nat} (h : readWord code place width = .ok n) :
    code.drop place = LittleEndian.encode width n ++ code.drop (place + width) ∧
      n < LittleEndian.bound width := by
  simp only [readWord] at h
  split at h
  · next hlength =>
    cases h
    have word := LittleEndian.encode_decode ((code.drop place).take width)
    have bound := LittleEndian.decode_lt ((code.drop place).take width)
    rw [hlength] at word bound
    rw [word, ← List.drop_drop, List.take_append_drop]
    exact ⟨rfl, bound⟩
  · cases h

/-- Where all operands are read, each is read at its place. -/
theorem readAt_of_mapM
    (h : (places.mapM fun (o, place) => return (o, ← readWord code place o.width) :
      Except Malformed (List (Operand × Nat))) = .ok operands) :
    List.Forall₂ (ReadAt code) places operands := by
  induction places generalizing operands with
  | nil =>
    cases h
    exact .nil
  | cons place places ih =>
    obtain ⟨o, place⟩ := place
    rw [List.mapM_cons] at h
    obtain ⟨first, hfirst, h⟩ := exists_of_bind_eq_ok h
    obtain ⟨others, hothers, h⟩ := exists_of_bind_eq_ok h
    obtain ⟨value, hvalue, hfirst⟩ := exists_of_bind_eq_ok hfirst
    cases hfirst
    cases h
    exact .cons ⟨rfl, hvalue⟩ (ih hothers)

/-- Operands that are read at their places are written there. -/
theorem eq_operandBytes_of_readAt {kinds : List Operand} {place : Nat}
    (h : List.Forall₂ (ReadAt code) (placed place kinds) operands) :
    operands.map Prod.fst = kinds ∧
      (∀ operand ∈ operands, operand.2 < LittleEndian.bound operand.1.width) ∧
        code.drop place = operandBytes operands ++
          code.drop (place + (operandBytes operands).length) := by
  induction kinds generalizing place operands with
  | nil =>
    cases h
    simp
  | cons o kinds ih =>
    rw [placed] at h
    cases h with
    | @cons _ operand _ operands first others =>
      obtain ⟨o', value⟩ := operand
      obtain ⟨rfl, read⟩ := first
      obtain ⟨written, small⟩ := eq_encode_of_readWord read
      obtain ⟨sameKinds, fits, others⟩ := ih others
      refine ⟨?_, ?_, ?_⟩
      · rw [List.map_cons, sameKinds]
      · exact List.forall_mem_cons.2 ⟨small, fits⟩
      · rw [written, others, operandBytes_cons, List.append_assoc, List.length_append,
          LittleEndian.length_encode, Nat.add_assoc]

/-- What was decoded is an instruction, and the program goes on behind its header. -/
theorem exists_of_readOperands (hop : opcodeAt code = .ok op)
    (h : readOperands code op = .ok operands) :
    Operates op operands ∧ code = op.byte :: operandBytes operands ++ code.drop op.headerSize := by
  have byte := eq_byte_of_opcodeAt hop
  obtain ⟨kinds, fits, written⟩ := eq_operandBytes_of_readAt (readAt_of_mapM h)
  have operates : Operates op operands := ⟨kinds, fits⟩
  have header : 1 + (operandBytes operands).length = op.headerSize := by
    rw [← operates.length_header, List.length_cons, Nat.add_comm]
  rw [header] at written
  refine ⟨operates, ?_⟩
  rw [List.cons_append, ← written]
  exact byte

end Bytecode

namespace Listing

open Bytecode

/-! ### Programs -/

/-- The bytes are whole instructions, one after the other. The blocks of an instruction follow its header
and are as long as its operands tell, and each is such a program, which ends where its frame ends. -/
inductive WellFramed : List UInt8 → Prop where
  | nil : WellFramed []
  | instruction {op : Opcode} {operands : List (Operand × Nat)} {blocks : List (List UInt8)}
      {rest : List UInt8} (hoperands : Operates op operands)
      (hsizes : (operands.filter (·.1.isBlockSize)).map Prod.snd = blocks.map List.length)
      (hblocks : ∀ block ∈ blocks, WellFramed block) (hrest : WellFramed rest) :
      WellFramed (op.byte :: operandBytes operands ++ (blocks.flatten ++ rest))

/-- Whole instructions of the program go through its first `span` bytes, and through the blocks of each of
them. They lie in the program, but one that starts within these bytes, or within a block, may end behind
them. -/
inductive Covered : List UInt8 → Nat → Prop where
  | done (code : List UInt8) : Covered code 0
  | instruction {op : Opcode} {operands : List (Operand × Nat)} {blocks : List (List UInt8)}
      {rest : List UInt8} {span : Nat} (hoperands : Operates op operands)
      (hsizes : (operands.filter (·.1.isBlockSize)).map Prod.snd = blocks.map List.length)
      (hblocks : ∀ before block after, blocks = before ++ block :: after →
        Covered (block ++ (after.flatten ++ rest)) block.length)
      (hspan : 0 < span)
      (hrest : Covered rest (span - (op.headerSize + blocks.flatten.length))) :
      Covered (op.byte :: operandBytes operands ++ (blocks.flatten ++ rest)) span

variable {code rest : List UInt8} {op : Opcode} {operands : List (Operand × Nat)}
  {blocks : List (List UInt8)} {offset span depth : Nat} {listed listed' : Array Entry}

/-- What is gone through lies in the program. -/
theorem Covered.span_le (h : Covered code span) : span ≤ code.length := by
  -- Of the first instruction it is known that it lies in the program, and the rest is by induction.
  induction h with
  | done code => exact Nat.zero_le _
  | instruction hoperands hsizes hblocks hspan hrest ihblocks ihrest =>
    rw [List.length_append, hoperands.length_header, List.length_append]
    omega

/-! ### What is well framed is listed -/

/-- Well-framed bytes are walked through to their end, at any offset and depth, and tell some outline. -/
theorem WellFramed.exists_lists (h : WellFramed code) : ∃ outline, Lists code outline := by
  induction h with
  | nil =>
    refine ⟨fun _ => [], ?_⟩
    intro offset depth
    refine ⟨[], .nil, ?_⟩
    intro rest span listed
    simp
  | @instruction op operands blocks rest hoperands hsizes hblocks hrest ihblocks ihrest =>
    -- Each block is walked through on its own, and then what follows them.
    have inner : ∃ outlines, List.Forall₂ Lists blocks outlines := by
      clear hsizes hblocks
      induction blocks with
      | nil => exact ⟨[], .nil⟩
      | cons block blocks ih =>
        obtain ⟨outline, first⟩ := ihblocks block List.mem_cons_self
        obtain ⟨outlines, others⟩ := ih fun block hmem => ihblocks block (List.mem_cons_of_mem _ hmem)
        exact ⟨outline :: outlines, .cons first others⟩
    obtain ⟨outlines, inner⟩ := inner
    obtain ⟨outline, outer⟩ := ihrest
    rw [← List.append_assoc]
    exact ⟨_, (Lists.instruction blocks hoperands hsizes inner).append outer⟩

/-- A well-framed program has a listing, whose entries lie side by side. -/
theorem WellFramed.exists_ofCode (h : WellFramed code) :
    ∃ l, ofCode code = .ok l ∧ Tile 0 l.entries.toList code.length := by
  obtain ⟨outline, lists⟩ := h.exists_lists
  obtain ⟨entries, listed, tell⟩ := lists.exists_ofCode
  have tile := tell.tile
  rw [Nat.zero_add] at tile
  exact ⟨⟨entries.toArray⟩, listed, tile⟩

/-! ### What is covered is listed -/

/-- Blocks are walked through one after the other, if each can be on its own wherever it is met. -/
theorem exists_walkBlocks
    (h : ∀ before block after, blocks = before ++ block :: after →
      ∀ offset depth listed, ∃ listed',
        walk (block ++ (after.flatten ++ rest)) offset block.length depth listed = .ok listed')
    (offset depth : Nat) (listed : Array Entry) :
    ∃ listed', walkBlocks (blocks.flatten ++ rest) offset depth (blocks.map List.length) listed =
      .ok listed' := by
  induction blocks generalizing offset listed with
  | nil => exact ⟨listed, walkBlocks_nil _ _ _ _⟩
  | cons block blocks ih =>
    obtain ⟨listed₁, first⟩ := h [] block blocks rfl offset depth listed
    obtain ⟨listed₂, others⟩ := ih (fun before block' after hsplit =>
      h (block :: before) block' after (by rw [hsplit]; rfl)) (offset + block.length) listed₁
    refine ⟨listed₂, ?_⟩
    rw [List.map_cons, walkBlocks_cons, List.flatten_cons, List.append_assoc, first]
    show walkBlocks _ _ _ _ _ = _
    rw [List.drop_left, others]

/-- The walk through what is covered comes to its end. -/
theorem Covered.exists_walk (h : Covered code span) (offset depth : Nat) (listed : Array Entry) :
    ∃ listed', walk code offset span depth listed = .ok listed' := by
  induction h generalizing offset depth listed with
  | done code => exact ⟨listed, walk_zero _ _ _ _⟩
  | @instruction op operands blocks rest span hoperands hsizes hblocks hspan hrest ihblocks ihrest =>
    have decodes := hoperands.decodes (blocks.flatten ++ rest)
    have sizes := decodes.sizes
    rw [hsizes] at sizes
    have header := hoperands.length_header
    have size : op.headerSize + (blocks.map List.length).foldl (· + ·) 0 =
        op.headerSize + blocks.flatten.length := by
      rw [List.length_flatten, List.sum_eq_foldl]
    have behind : (op.byte :: operandBytes operands ++ (blocks.flatten ++ rest)).drop
        (op.headerSize + blocks.flatten.length) = rest := by
      rw [← List.append_assoc, ← header, ← List.length_append, List.drop_left]
    -- The blocks are walked through one deeper, and the walk goes on behind them.
    obtain ⟨listed₁, inner⟩ := exists_walkBlocks ihblocks (offset + op.headerSize) (depth + 1)
      (listed.push ⟨offset, depth, op, operands⟩)
    obtain ⟨listed₂, outer⟩ := ihrest (offset + (op.headerSize + blocks.flatten.length)) depth listed₁
    refine ⟨listed₂, ?_⟩
    rw [walk_instruction decodes.opcode sizes decodes.reads hspan, ← header, List.drop_left, header,
      inner]
    show walk _ _ _ _ _ = _
    rw [size, behind, outer]

/-! ### Entries that fill a piece of code -/

/-- Entries that lie side by side from a start to a stop can be cut into two such runs. -/
theorem Tile.exists_middle {start stop : Nat} {entries entries' : List Entry}
    (h : Tile start (entries ++ entries') stop) :
    ∃ middle, Tile start entries middle ∧ Tile middle entries' stop := by
  induction entries generalizing start with
  | nil => exact ⟨start, rfl, h⟩
  | cons e entries ih =>
    obtain ⟨middle, first, second⟩ := ih h.2
    exact ⟨middle, ⟨h.1, first⟩, second⟩

/-- The entries are those of a piece of code that starts at the offset. If they lie side by side, from
where it starts or from behind that, then they end where it does or behind that. If they end where it does,
then they start where it does, and the piece is framed as told. -/
def Fills (offset length : Nat) (entries : List Entry) (framed : Prop) : Prop :=
  ∀ start stop, offset ≤ start → Tile start entries stop →
    offset + length ≤ stop ∧ (stop = offset + length → start = offset ∧ framed)

namespace Fills

variable {length length' : Nat} {entries entries' : List Entry} {framed framed' : Prop}

/-- No entries fill a piece of no length. -/
theorem nil (offset : Nat) : Fills offset 0 [] True := by
  intro start stop hstart tile
  cases tile
  exact ⟨hstart, fun same => ⟨same, trivial⟩⟩

/-- The entry of an instruction without blocks fills the bytes of its header. -/
theorem singleton (e : Entry) : Fills e.offset e.opcode.headerSize [e] True := by
  intro start stop hstart tile
  obtain ⟨rfl, rfl⟩ := tile
  exact ⟨Nat.le_refl _, fun _ => ⟨rfl, trivial⟩⟩

/-- Where the first entries end behind their piece, the others do too. -/
theorem append (h : Fills offset length entries framed)
    (h' : Fills (offset + length) length' entries' framed') :
    Fills offset (length + length') (entries ++ entries') (framed ∧ framed') := by
  intro start stop hstart tile
  obtain ⟨middle, first, second⟩ := tile.exists_middle
  obtain ⟨reached, exact⟩ := h start middle hstart first
  obtain ⟨reached', exact'⟩ := h' middle stop reached second
  rw [← Nat.add_assoc]
  refine ⟨reached', ?_⟩
  intro same
  obtain ⟨middle_eq, hframed'⟩ := exact' same
  obtain ⟨start_eq, hframed⟩ := exact middle_eq
  exact ⟨start_eq, hframed, hframed'⟩

/-- Entries that end behind a piece do not fill it. -/
theorem shorten (h : Fills offset length entries framed) (hle : length' ≤ length)
    (himp : length' = length → framed → framed') : Fills offset length' entries framed' := by
  intro start stop hstart tile
  obtain ⟨reached, exact⟩ := h start stop hstart tile
  refine ⟨by omega, ?_⟩
  intro same
  obtain ⟨start_eq, hframed⟩ := exact (by omega)
  exact ⟨start_eq, himp (by omega) hframed⟩

/-- An instruction with its blocks, and what follows it. -/
theorem instruction (hoperands : Operates op operands)
    (hsizes : (operands.filter (·.1.isBlockSize)).map Prod.snd = blocks.map List.length)
    (hblocks : Fills (offset + op.headerSize) blocks.flatten.length entries
      (∀ block ∈ blocks, WellFramed block))
    (hrest : Fills (offset + (op.headerSize + blocks.flatten.length))
      (span - (op.headerSize + blocks.flatten.length)) entries'
      (WellFramed (rest.take (span - (op.headerSize + blocks.flatten.length))))) :
    Fills offset span (⟨offset, depth, op, operands⟩ :: (entries ++ entries'))
      (WellFramed ((op.byte :: operandBytes operands ++ (blocks.flatten ++ rest)).take span)) := by
  have header : Fills offset op.headerSize [⟨offset, depth, op, operands⟩] True :=
    singleton ⟨offset, depth, op, operands⟩
  refine ((header.append hblocks).append hrest).shorten (by omega) ?_
  rintro fits ⟨⟨-, inner⟩, outer⟩
  have front : (op.byte :: operandBytes operands ++ blocks.flatten).length =
      op.headerSize + blocks.flatten.length := by
    rw [List.length_append, hoperands.length_header]
  rw [← List.append_assoc, List.take_append, front, List.take_of_length_le (by omega),
    List.append_assoc]
  exact .instruction hoperands hsizes inner outer

end Fills

/-! ### What is listed is covered -/

/-- Where the walk through the first bytes of the code comes to its end, they are covered, and the entries
that it has listed fill them only if they are well framed. -/
def Accounts (code : List UInt8) : Prop :=
  ∀ {offset span depth : Nat} {listed listed' : Array Entry},
    walk code offset span depth listed = .ok listed' →
      ∃ entries, listed' = listed ++ entries.toArray ∧ Covered code span ∧
        Fills offset span entries (WellFramed (code.take span))

/-- How the walk went through the first instruction. -/
theorem exists_of_walk (hspan : 0 < span) (h : walk code offset span depth listed = .ok listed') :
    ∃ op operands sizes listed₁, Operates op operands ∧
      code = op.byte :: operandBytes operands ++ code.drop op.headerSize ∧
      (operands.filter (·.1.isBlockSize)).map Prod.snd = sizes ∧
      walkBlocks (code.drop op.headerSize) (offset + op.headerSize) (depth + 1) sizes
        (listed.push ⟨offset, depth, op, operands⟩) = .ok listed₁ ∧
      walk (code.drop (op.headerSize + sizes.sum)) (offset + (op.headerSize + sizes.sum))
        (span - (op.headerSize + sizes.sum)) depth listed₁ = .ok listed' := by
  rw [walk, if_neg (Nat.ne_of_gt hspan)] at h
  split at h
  · cases h
  · next op hop =>
    obtain ⟨sizes, hsizes, h⟩ := exists_of_bind_eq_ok h
    obtain ⟨operands, hreads, h⟩ := exists_of_bind_eq_ok h
    obtain ⟨listed₁, inner, outer⟩ := exists_of_bind_eq_ok h
    obtain ⟨operates, written⟩ := exists_of_readOperands hop hreads
    have decodes := operates.decodes (code.drop op.headerSize)
    rw [← written] at decodes
    rw [← List.sum_eq_foldl] at outer
    have same := hsizes.symm.trans decodes.sizes
    exact ⟨op, operands, sizes, listed₁, operates, written, (Except.ok.inj same).symm, inner, outer⟩

/-- The blocks that the walk went through lie in the program, each behind the one before it. -/
theorem exists_of_walkBlocks {sizes : List Nat}
    (hwalk : ∀ code' : List UInt8, code'.length ≤ code.length → Accounts code')
    (h : walkBlocks code offset depth sizes listed = .ok listed') :
    ∃ blocks rest entries, code = blocks.flatten ++ rest ∧ sizes = blocks.map List.length ∧
      listed' = listed ++ entries.toArray ∧
      (∀ before block after, blocks = before ++ block :: after →
        Covered (block ++ (after.flatten ++ rest)) block.length) ∧
      Fills offset blocks.flatten.length entries (∀ block ∈ blocks, WellFramed block) := by
  induction sizes generalizing code offset listed with
  | nil =>
    rw [walkBlocks_nil] at h
    cases h
    refine ⟨[], code, [], rfl, rfl, by simp, ?_, ?_⟩
    · intro before block after hsplit
      simp at hsplit
    · exact (Fills.nil offset).shorten (Nat.le_refl 0) fun _ _ block hmem => by cases hmem
  | cons size sizes ih =>
    rw [walkBlocks_cons] at h
    obtain ⟨listed₁, first, others⟩ := exists_of_bind_eq_ok h
    obtain ⟨entries, rfl, covered, fills⟩ := hwalk code (Nat.le_refl _) first
    obtain ⟨blocks, rest, entries', hrest, rfl, rfl, covered', fills'⟩ := ih (fun code' hcode' =>
      hwalk code' (Nat.le_trans hcode' (by rw [List.length_drop]; exact Nat.sub_le _ _))) others
    -- The first block is covered, so it is as long as its size tells.
    have size_eq : (code.take size).length = size := List.length_take_of_le covered.span_le
    have split : code = code.take size ++ (blocks.flatten ++ rest) := by
      rw [← hrest, List.take_append_drop]
    refine ⟨code.take size :: blocks, rest, entries ++ entries', ?_, ?_, by simp, ?_, ?_⟩
    · rw [List.flatten_cons, List.append_assoc, ← split]
    · rw [List.map_cons, size_eq]
    · intro before block after hsplit
      cases before with
      | nil =>
        cases hsplit
        rw [← split, size_eq]
        exact covered
      | cons _ before =>
        cases hsplit
        exact covered' before block after rfl
    · rw [List.flatten_cons, List.length_append, size_eq]
      refine (fills.append fills').shorten (Nat.le_refl _) ?_
      intro _ framed
      exact List.forall_mem_cons.2 framed

/-- Every walk through the first bytes of any code accounts for them. By induction on the length of the
code, as the blocks of an instruction and what follows it are both shorter. -/
theorem accounts (code : List UInt8) : Accounts code := by
  -- What lies behind a header is shorter than the program, and so is what lies behind the blocks.
  induction hlength : code.length using Nat.strongRecOn generalizing code with
  | _ n ih =>
    intro offset span depth listed listed' h
    rcases Nat.eq_zero_or_pos span with rfl | hspan
    · rw [walk_zero] at h
      cases h
      refine ⟨[], by simp, .done code, ?_⟩
      exact (Fills.nil offset).shorten (Nat.le_refl 0) fun _ _ => .nil
    · obtain ⟨op, operands, sizes, listed₁, hoperands, written, hsizes, inner, outer⟩ :=
        exists_of_walk hspan h
      have nonempty : 0 < code.length := by
        rw [written]
        exact Nat.succ_pos _
      have shorter (m : Nat) (hm : 0 < m) : (code.drop m).length < n := by
        rw [List.length_drop, hlength] at *
        exact Nat.sub_lt nonempty hm
      have positive := op.headerSize_pos
      obtain ⟨blocks, rest, entries, hrest, rfl, rfl, hblocks, fills⟩ := exists_of_walkBlocks
        (fun code' hcode' => ih _ (Nat.lt_of_le_of_lt hcode' (shorter _ positive)) code' rfl) inner
      have behind : code.drop (op.headerSize + (blocks.map List.length).sum) = rest := by
        rw [← List.drop_drop, hrest, ← List.length_flatten, List.drop_left]
      have further : rest.length < n := by
        rw [← behind]
        exact shorter _ (by omega)
      rw [behind, ← List.length_flatten] at outer
      obtain ⟨entries', rfl, covered, fills'⟩ := ih rest.length further rest rfl outer
      rw [written, hrest]
      refine ⟨⟨offset, depth, op, operands⟩ :: (entries ++ entries'), by simp, ?_, ?_⟩
      · exact .instruction hoperands hsizes hblocks hspan covered
      · exact .instruction hoperands hsizes fills fills'

/-! ### Which programs have a listing -/

/-- A listing is returned just for bytes that instructions go through from end to end, well framed or
not. -/
theorem isOk_ofCode_iff : (ofCode code).isOk = true ↔ Covered code code.length := by
  constructor
  · intro h
    obtain ⟨l, hl⟩ := exists_of_isOk h
    obtain ⟨listed, walked, -⟩ := exists_of_bind_eq_ok hl
    obtain ⟨entries, -, covered, -⟩ := accounts code walked
    exact covered
  · intro h
    obtain ⟨listed, walked⟩ := h.exists_walk 0 0 #[]
    rw [ofCode, walked]
    rfl

/-- The entries of a listing lie side by side only if the program is well framed. -/
theorem wellFramed_iff : WellFramed code ↔
    ∃ l, ofCode code = .ok l ∧ Tile 0 l.entries.toList code.length := by
  constructor
  · exact WellFramed.exists_ofCode
  · rintro ⟨l, hl, tile⟩
    obtain ⟨listed, walked, hl⟩ := exists_of_bind_eq_ok hl
    cases hl
    obtain ⟨entries, rfl, -, fills⟩ := accounts code walked
    have framed := (fills 0 code.length (Nat.le_refl 0) (by simpa using tile)).2 (by simp)
    rw [List.take_length] at framed
    exact framed.2

/-- A program has a listing if and only if whole instructions go through it and through its blocks, the last
of which may end behind their block. It is well framed if and only if it has a listing whose entries lie
side by side. All other bytes are refused as no bytecode. -/
theorem ofCode_framing (code : List UInt8) :
    ((ofCode code).isOk = true ↔ Covered code code.length) ∧
    (WellFramed code ↔ ∃ l, ofCode code = .ok l ∧ Tile 0 l.entries.toList code.length) ∧
    Yields (fun cause => ∃ text, (Fault.malformed cause).message = some ("invalid bytecode: " ++ text))
      (ofCode code) fun _ => True := by
  refine ⟨isOk_ofCode_iff, wellFramed_iff, ?_⟩
  cases ofCode code with
  | ok l => trivial
  | error cause => exact ⟨cause.message, rfl⟩

/-- A block of one byte, in which an instruction of three starts. -/
def overrun : List UInt8 := [0x0e, 1, 0, 0, 0, 0x01, 0x07, 0x07]

/-- The program is listed although its block does not end where its frame ends. -/
theorem isOk_ofCode_overrun : (ofCode overrun).isOk = true ∧ ¬WellFramed overrun := by
  have listed : ofCode overrun = .ok ⟨#[⟨0, 0, .try, [(.length, 1)]⟩,
      ⟨5, 1, .pure, [(.constant, 0x0707)]⟩, ⟨6, 0, .take1, []⟩, ⟨7, 0, .take1, []⟩]⟩ := by
    cbv
  refine ⟨by rw [listed]; rfl, ?_⟩
  rw [wellFramed_iff]
  rintro ⟨l, hl, tile⟩
  rw [listed] at hl
  cases hl
  -- The third entry starts where the block ends, which is within the second one.
  obtain ⟨-, -, misplaced, -⟩ := tile
  cases misplaced

end Listing

end ParserMachine
