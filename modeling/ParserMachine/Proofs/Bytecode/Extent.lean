import ParserMachine.Proofs.Bytecode.Framing

/-!
# How far a listing reaches

Any bytes may be asked for their listing. The sizes in them are then anything, and the walk may be told of
blocks that end far behind the program, or be led through the same bytes twice. It still ends: each
instruction that it decodes has a header, so less of the program is left behind the header than before it.
And it stays inside: a walk ends at or behind the place that it was sent to, and never behind the program,
so where a block was gone through to its end, that end lies in the program too.

`Passage` is what is told of the entries of one walk, `exists_passage` that every walk that comes to its end
is one. At the outermost level the place where the walk is sent to is the end of the program, and there is
nothing behind that: the instructions there follow each other to exactly that place.
-/

set_option autoImplicit false

namespace ParserMachine

open Bytecode

/-- An instruction takes its header, and the blocks whose sizes are among its operands. -/
theorem Bytecode.Decodes.instructionSize_eq {code : List UInt8} {op : Opcode}
    {operands : List (Operand × Nat)} (h : Decodes code op operands) :
    instructionSize code =
      .ok (op.headerSize + ((operands.filter (·.1.isBlockSize)).map Prod.snd).sum) := by
  rw [instructionSize, h.opcode]
  show (do return op.headerSize + (← blockSizes code op).foldl (· + ·) 0) = _
  rw [h.sizes, List.sum_eq_foldl]
  rfl

namespace Listing

/-- The entry is an instruction of the program: its opcode and its operands are written at its offset, and
the whole of it, with the blocks that it wraps, lies inside. -/
structure Entry.LiesIn (code : List UInt8) (e : Entry) : Prop where
  operates : Operates e.opcode e.operands
  bytes : e.bytes <+: code.drop e.offset
  inside : ∃ size, instructionSize (code.drop e.offset) = .ok size ∧ e.offset + size ≤ code.length

/-- The first of the entries is at the start, each of the others where the instruction of the one before it
ends, wrapped blocks included, and the last instruction ends at the stop. -/
def Successive (code : List UInt8) : Nat → List Entry → Nat → Prop
  | start, [], stop => start = stop
  | start, e :: entries, stop =>
    e.offset = start ∧
      ∃ size, instructionSize (code.drop start) = .ok size ∧ Successive code (start + size) entries stop

/-- What a walk at the depth, sent from the offset through so many bytes, has listed, and where it ended. -/
structure Passage (code : List UInt8) (offset span depth : Nat) (entries : List Entry) (stop : Nat) :
    Prop where
  lies : ∀ e ∈ entries, e.LiesIn code
  deep : ∀ e ∈ entries, depth ≤ e.depth
  successive : Successive code offset (entries.filter (·.depth = depth)) stop
  reaches : offset + span ≤ stop
  inside : stop ≤ code.length

variable {code : List UInt8} {op : Opcode} {operands : List (Operand × Nat)}
  {offset span depth size stop : Nat} {listed listed' : Array Entry} {inner outer : List Entry}

/-- A walk through nothing lists nothing and ends where it started. -/
theorem Passage.nil (h : offset ≤ code.length) : Passage code offset 0 depth [] offset where
  lies := List.forall_mem_nil _
  deep := List.forall_mem_nil _
  successive := rfl
  reaches := Nat.le_refl _
  inside := h

/-- An instruction, what its blocks list, and the walk that goes on behind it. Of what the blocks list
nothing is at the depth of the instruction. -/
theorem Passage.instruction {e : Entry} (he : e.LiesIn code)
    (hsize : instructionSize (code.drop e.offset) = .ok size)
    (hlies : ∀ e' ∈ inner, e'.LiesIn code) (hdeep : ∀ e' ∈ inner, e.depth + 1 ≤ e'.depth)
    (houter : Passage code (e.offset + size) (span - size) e.depth outer stop) :
    Passage code e.offset span e.depth (e :: (inner ++ outer)) stop where
  lies := List.forall_mem_cons.2 ⟨he, List.forall_mem_append.2 ⟨hlies, houter.lies⟩⟩
  deep := by
    refine List.forall_mem_cons.2 ⟨Nat.le_refl _, List.forall_mem_append.2 ⟨?_, houter.deep⟩⟩
    intro e' he'
    exact Nat.le_of_succ_le (hdeep e' he')
  successive := by
    -- What the blocks list lies deeper, so next at this depth is what comes behind them.
    have deeper : inner.filter (·.depth = e.depth) = [] := by
      refine List.filter_eq_nil_iff.2 ?_
      intro e' he'
      have := hdeep e' he'
      simp only [decide_eq_true_eq]
      omega
    rw [List.filter_cons_of_pos (by simp), List.filter_append, deeper, List.nil_append]
    exact ⟨rfl, size, hsize, houter.successive⟩
  reaches := by
    have := houter.reaches
    omega
  inside := houter.inside

/-- Every walk from the offset that comes to its end is a passage. -/
def Passes (code : List UInt8) (offset : Nat) : Prop :=
  ∀ {span depth : Nat} {listed listed' : Array Entry},
    walk (code.drop offset) offset span depth listed = .ok listed' →
      ∃ entries stop, listed' = listed ++ entries.toArray ∧ Passage code offset span depth entries stop

/-- The blocks that the walk went through lie in the program. -/
theorem exists_of_walkBlocks_drop {sizes : List Nat}
    (hwalk : ∀ place, offset ≤ place → place ≤ code.length → Passes code place)
    (hoffset : offset ≤ code.length)
    (h : walkBlocks (code.drop offset) offset depth sizes listed = .ok listed') :
    ∃ entries : List Entry, listed' = listed ++ entries.toArray ∧ (∀ e ∈ entries, e.LiesIn code) ∧
      (∀ e ∈ entries, depth ≤ e.depth) ∧ offset + sizes.sum ≤ code.length := by
  induction sizes generalizing offset listed with
  | nil =>
    rw [walkBlocks_nil] at h
    cases h
    exact ⟨[], by simp, List.forall_mem_nil _, List.forall_mem_nil _, hoffset⟩
  | cons size sizes ih =>
    rw [walkBlocks_cons] at h
    obtain ⟨listed₁, first, others⟩ := exists_of_bind_eq_ok h
    obtain ⟨entries, stop, rfl, passage⟩ := hwalk offset (Nat.le_refl _) hoffset first
    -- The walk through the first block reached its end, so the others start inside the program.
    have inside : offset + size ≤ code.length := Nat.le_trans passage.reaches passage.inside
    rw [List.drop_drop] at others
    obtain ⟨entries', rfl, lies, deep, within⟩ := ih
      (fun place hplace => hwalk place (Nat.le_trans (Nat.le_add_right _ _) hplace)) inside others
    refine ⟨entries ++ entries', by simp, List.forall_mem_append.2 ⟨passage.lies, lies⟩,
      List.forall_mem_append.2 ⟨passage.deep, deep⟩, ?_⟩
    rw [List.sum_cons, ← Nat.add_assoc]
    exact within

/-- Every walk within the program is a passage. The induction is on what is left of the code: each
instruction that is listed takes some of it away. -/
theorem exists_passage (hoffset : offset ≤ code.length) : Passes code offset := by
  -- On what is left of the program behind the offset. The blocks and what follows them are behind a header.
  induction hleft : code.length - offset using Nat.strongRecOn generalizing offset with
  | _ n ih =>
    intro span depth listed listed' h
    rcases Nat.eq_zero_or_pos span with rfl | hspan
    · rw [walk_zero] at h
      cases h
      exact ⟨[], offset, by simp, .nil hoffset⟩
    · obtain ⟨op, operands, sizes, listed₁, hoperands, written, hsizes, blocks, behind⟩ :=
        exists_of_walk hspan h
      have positive := op.headerSize_pos
      have decodes := hoperands.decodes ((code.drop offset).drop op.headerSize)
      rw [← written] at decodes
      have header : offset + op.headerSize ≤ code.length := by
        have fits := congrArg List.length written
        rw [List.length_append, hoperands.length_header, List.length_drop] at fits
        omega
      have further : ∀ place, offset + op.headerSize ≤ place → place ≤ code.length →
          Passes code place := by
        intro place hplace hinside
        exact ih _ (by omega) hinside rfl
      have size := decodes.instructionSize_eq
      rw [hsizes] at size
      rw [List.drop_drop] at blocks behind
      obtain ⟨inner, rfl, lies, deep, within⟩ := exists_of_walkBlocks_drop further header blocks
      rw [Nat.add_assoc] at within
      have lies_in : Entry.LiesIn code ⟨offset, depth, op, operands⟩ :=
        ⟨hoperands, ⟨_, written.symm⟩, _, size, within⟩
      obtain ⟨outer, stop, rfl, passage⟩ := further _ (by omega) within behind
      exact ⟨⟨offset, depth, op, operands⟩ :: (inner ++ outer), stop, by simp,
        .instruction lies_in size lies deep passage⟩

/-- Any bytes have a listing or are refused as no bytecode. What is listed lies in the program: every
instruction with its operands and its blocks. Those at the outermost level start at the beginning and
follow each other to the end of the program. -/
theorem ofCode_extent (code : List UInt8) :
    Yields (fun cause => ∃ text, (Fault.malformed cause).message = some ("invalid bytecode: " ++ text))
      (ofCode code) fun l =>
        (∀ e ∈ l.entries.toList, e.LiesIn code) ∧
          Successive code 0 (l.entries.toList.filter (·.depth = 0)) code.length := by
  cases hcode : ofCode code with
  | error cause => exact ⟨cause.message, rfl⟩
  | ok l =>
    obtain ⟨listed, walked, hl⟩ := exists_of_bind_eq_ok hcode
    cases hl
    obtain ⟨entries, stop, rfl, passage⟩ := exists_passage (Nat.zero_le code.length) walked
    have reaches := passage.reaches
    rw [Nat.zero_add] at reaches
    have exact_stop : stop = code.length := Nat.le_antisymm passage.inside reaches
    have successive := passage.successive
    rw [exact_stop] at successive
    show (∀ e ∈ (#[] ++ entries.toArray).toList, e.LiesIn code) ∧
      Successive code 0 ((#[] ++ entries.toArray).toList.filter (·.depth = 0)) code.length
    rw [Array.empty_append]
    exact ⟨passage.lies, successive⟩

end Listing

end ParserMachine
