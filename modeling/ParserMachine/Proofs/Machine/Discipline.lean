import ParserMachine.Proofs.Parse

/-!
# The discipline of blocks

Every block of a compiled program (`Program.HasBlock`), run anywhere in any input and on top of anything,
leaves what it found on the stack as it was, and on top of that one value of the kind of its parser or one
error frame (`Disciplined`). `disciplined_of_loads` says so of a block that is loaded for a parser, and
`compiled_disciplined` of all of a program, and that a parse is only ever halted where something runs out.
-/

set_option autoImplicit false

namespace ParserMachine

open Machine

variable {S : Signature}

/-- What a block of the given kind leaves of the machine that it found: one value or one error frame on
top of the same cells, at the same depth, and a reader further on in the same input. Where it is stopped
instead, something ran out. -/
def Disciplined (k : Kind S.Base) (maxDepth fuel : Nat) (st : State S)
    (cells : List (Cell (Object S))) (x : Except Stop (Reply × State S)) : Prop :=
  Yields (Stop.IsExhaustion maxDepth (Parser.RunsDry maxDepth fuel st.depth)) x fun r =>
    r.2.depth = st.depth ∧ r.2.reader.Follows st.reader ∧
      match r.1 with
      | .ok => ∃ c v, Reads st.reader.input k c v ∧ r.2.stack.Holds (c :: cells)
      | .err => ∃ f top, Frame.Shows st.reader.input f top ∧ r.2.stack.Holds (top ++ cells)

/-- A block that is loaded for a parser keeps the discipline. -/
theorem disciplined_of_loads {rules : Grammar S} {pool : Stack (Object S)}
    {poolCells cells : List (Cell (Object S))} {code : List UInt8} {offset : Nat} {k : Kind S.Base}
    {p : Parser S k} (hp : pool.Represents poolCells) (hl : p.Loads poolCells rules code offset)
    (maxDepth fuel : Nat) {st : State S} (hs : st.stack.Holds cells) (hw : st.reader.Inside) :
    Disciplined k maxDepth fuel st cells (runBlock rules maxDepth fuel code pool offset st) := by
  -- The machine does what the evaluator does, and the evaluator is only stopped by what runs out.
  obtain ⟨w, s, depth⟩ := st
  have simulated := runBlock_loaded rules maxDepth fuel depth p hp hl hs hw
  have stops : Yields (Stop.IsExhaustion maxDepth (Parser.RunsDry maxDepth fuel depth))
      (p.nested rules maxDepth fuel depth w) fun _ => True :=
    Parser.yields_nested maxDepth fuel depth p w
  refine ((simulated.yields stops).weaken fun stop exhausted => exhausted.imp And.left).mono ?_
  rintro ⟨reply, st⟩ ⟨e, he, ended⟩
  have follows := follows_nested rules maxDepth fuel depth p hw he
  cases ended with
  | value hc hs => exact ⟨rfl, follows, _, _, hc, hs⟩
  | failure hf hs => exact ⟨rfl, follows, _, _, hf, hs⟩

namespace Program

variable {rules : Grammar S} {k : Kind S.Base} {p : Parser S k} {program : Program S}

/-- The code, entered at an offset of the constants, is disciplined wherever the machine is in its input
and whatever its stack holds. -/
def BlockDisciplined (rules : Grammar S) (program : Program S) (code : List UInt8) (offset : Nat)
    (k : Kind S.Base) : Prop :=
  ∀ (maxDepth fuel : Nat) (st : State S) (cells : List (Cell (Object S))), st.stack.Holds cells →
    st.reader.Inside →
      Disciplined k maxDepth fuel st cells
        (runBlock rules maxDepth fuel code program.pool offset st)

/-- A program that was compiled is disciplined, at the kind of its parser, and so is each of its blocks
at a kind of its own. Runs that start on an empty stack, and parses, stop only where something runs out;
where no limits are set, none is told. -/
theorem compiled_disciplined (h : p.compile rules = .ok program) :
    program.BlockDisciplined rules program.code.bytes 0 k ∧
    (∀ code offset, program.HasBlock code offset → ∃ k', program.BlockDisciplined rules code offset k') ∧
    (∀ input name stack maxDepth, stack.Holds [] →
      Yields
        (Stop.IsExhaustion maxDepth (maxDepth = 0 ∧ p.NestsEndlessly rules (.ofInput input name)))
        (program.run rules k (.ofInput input name) stack maxDepth) fun _ => True) ∧
    (∀ input scratch name config,
      Yields (Halt.IsExhaustion config (p.NestsEndlessly rules (.ofInput input name)))
        (program.parseWith rules k input scratch name config) fun _ => True) ∧
    ∀ input scratch name e,
      program.parseWith rules k input scratch name .unbounded ≠ .error (.limit e) := by
  obtain ⟨bytes, cells, hprogram, hcode⟩ := (p.yields_compile).post_of_eq_ok h
  refine ⟨?_, ?_, ?_, ?_, ?_⟩
  · intro maxDepth fuel st cells hs hw
    rw [hprogram.code.bytes_eq]
    exact disciplined_of_loads hprogram.pool hcode maxDepth fuel hs hw
  · intro code offset hblock
    obtain ⟨k', q, hq⟩ := hblock.loads hprogram hcode
    exact ⟨k', fun maxDepth fuel st cells hs hw =>
      disciplined_of_loads hprogram.pool hq maxDepth fuel hs hw⟩
  · intro input name stack maxDepth hs
    exact (run_agrees h hs maxDepth input name).mono fun _ _ => trivial
  · intro input scratch name config
    exact (parseWith_agrees h input scratch name config).mono fun _ _ => trivial
  · intro input scratch name e hlimit
    have exhausted := (parseWith_agrees h input scratch name .unbounded).allowed_of_eq_error hlimit
    -- Both limits are off, and a limit that is told is one that was set.
    cases e with
    | inputTooLarge size most =>
      obtain ⟨rfl, positive, -⟩ := exhausted
      exact absurd positive (Nat.lt_irrefl 0)
    | recursionTooDeep depth most =>
      obtain ⟨rfl, positive, -⟩ := exhausted
      exact absurd positive (Nat.lt_irrefl 0)

/-- The second letter is a block of the choice, with its constant moved by one. -/
theorem compiled_disciplined_of_letter : ∃ program, letter.compile noRules = .ok program ∧
    program.HasBlock [0x03, 0, 0] 1 ∧ ∃ k, program.BlockDisciplined noRules [0x03, 0, 0] 1 k := by
  have bytes : (letter.compile noRules).toOption.map (·.code.bytes) =
      some [0x0f, 3, 0, 0, 0, 3, 0, 0, 0, 1, 0, 0x03, 0, 0, 0x03, 0, 0] := by decide +kernel
  obtain ⟨program, h⟩ := exists_compile_letter
  rw [h] at bytes
  have code : program.code.bytes = _ := Option.some.inj bytes
  have blocks : firstBlocks program.code.bytes = .ok [([0x03, 0, 0], 0), ([0x03, 0, 0], 1)] := by
    rw [code]
    rfl
  have block : program.HasBlock [0x03, 0, 0] (0 + 1) := .inner .whole .all blocks (by decide)
  exact ⟨program, h, block, (compiled_disciplined h).2.1 _ _ block⟩

end Program

end ParserMachine
