import ParserMachine.Proofs.Machine.Onward

/-!
# The points of a run

A run goes through code instruction by instruction, and into the blocks that instructions run, those of
parsers that functions make included. `Machine.Passes` are the points that it comes to, whether or not it
ends. A point is code that is about to be run, with its constants and the machine before it
(`Machine.Block`). Which blocks an instruction runs is not listed once more: it runs a block if what it
does depends on how the block ends (`Machine.Block.Asks`).

What a runner keeps up for all sound machines holds at all points of a run that a sound machine has begun
(`Machine.Passes.sound`).
-/

set_option autoImplicit false

namespace ParserMachine.Machine

variable {S : Signature} {input : Input S.Token} {rules : Grammar S} {run run' : BlockRunner S}

/-! ### Blocks and what they ask for -/

/-- Code that is about to be run: the instructions, the constants, the place that their indices count from,
and the machine before them. -/
structure Block (S : Signature) where
  code : List UInt8
  pool : Stack (Object S)
  offset : Nat
  state : State S

namespace Block

/-- The block as a runner runs it. -/
def runBy (run : BlockRunner S) (b : Block S) : Except Stop (Reply × State S) :=
  run b.code b.pool b.offset b.state

/-- The first instruction of the block, with a runner for the blocks that it runs. -/
def step (run : BlockRunner S) (rules : Grammar S) (b : Block S) : Except Stop (Reply × State S) :=
  Machine.step run rules b.code b.pool b.offset b.state

/-- The block behind its first instruction, which has that many bytes. -/
def rest (b : Block S) (size : Nat) (st : State S) : Block S :=
  { b with code := b.code.drop size, state := st }

/-- The block as it is entered, within one block more than before. -/
def entered (b : Block S) : Block S :=
  { b with state := { b.state with depth := b.state.depth + 1 } }

/-- The first instruction of the block runs the other one: it would do something else if only that one ended
in another way. -/
def Asks (run : BlockRunner S) (rules : Grammar S) (b inner : Block S) : Prop :=
  ∃ run' : BlockRunner S, (∀ other, other ≠ inner → other.runBy run' = other.runBy run) ∧
    b.step run' rules ≠ b.step run rules

/-- The constants of the block are plain, and the machine before it is sound. -/
structure Sound (input : Input S.Token) (b : Block S) : Prop where
  pool : b.pool.IsPlain
  state : b.state.Sound input

end Block

/-- The points that the run of a block comes to, with at most `maxDepth` blocks within each other, each
with how deep blocks may still nest there. -/
inductive Passes (rules : Grammar S) (maxDepth : Nat) : Nat → Block S → Nat → Block S → Prop where
  /-- A block that may be entered begins with its first instruction. -/
  | enter {fuel : Nat} {b : Block S} (h : ¬TooDeep maxDepth b.state.depth) :
      Passes rules maxDepth (fuel + 1) b fuel b.entered
  /-- Behind an instruction that succeeded is the next one. -/
  | next {fuel left size : Nat} {b point : Block S} {st : State S}
      (h : Passes rules maxDepth fuel b left point)
      (hstep : point.step (runBlock rules maxDepth left) rules = .ok (.ok, st))
      (hsize : Bytecode.instructionSize point.code = .ok size) :
      Passes rules maxDepth fuel b left (point.rest size st)
  /-- A block that an instruction runs is run on the way. -/
  | within {fuel left left' : Nat} {b point inner point' : Block S}
      (h : Passes rules maxDepth fuel b left point)
      (hasks : point.Asks (runBlock rules maxDepth left) rules inner)
      (h' : Passes rules maxDepth left inner left' point') : Passes rules maxDepth fuel b left' point'

/-- From a point on, code that succeeds is passed up to its end. -/
theorem Passes.exists_end {maxDepth fuel left base : Nat} {b point : Block S} {st : State S}
    (h : Passes rules maxDepth fuel b left point)
    (hrun : runSteps (runBlock rules maxDepth left) rules point.pool point.offset base point.code
      point.state = .ok (.ok, st)) :
    ∃ last : Block S, Passes rules maxDepth fuel b left last ∧ last.code = [] ∧ last.state = st := by
  obtain ⟨code, pool, offset, st₀⟩ := point
  dsimp only at hrun
  -- By induction on the code that is left behind the point.
  fun_induction runSteps (runBlock rules maxDepth left) rules pool offset base code st₀ with
  | case1 code st₀ hempty =>
    cases hrun
    exact ⟨_, h, List.isEmpty_iff.1 hempty, rfl⟩
  | case2 => cases hrun
  | case3 =>
    obtain ⟨t, -, hended⟩ := exists_of_bind_eq_ok hrun
    cases hended
  | case4 => cases hrun
  | case5 code st₀ _ st₁ hstep size hsize _ ih => exact ih (h.next hstep hsize) hrun

/-- A block that succeeds has passed all its code, and the machine behind it is that of its last point. -/
theorem exists_passes_end {maxDepth fuel : Nat} {b : Block S} {st : State S}
    (h : b.runBy (runBlock rules maxDepth fuel) = .ok (.ok, st)) :
    ∃ left last, Passes rules maxDepth fuel b left last ∧ last.code = [] ∧
      last.state = { st with depth := last.state.depth } := by
  cases fuel with
  | zero => cases h
  | succ fuel =>
    obtain ⟨code, pool, offset, ⟨reader, stack, depth⟩⟩ := b
    rw [Block.runBy] at h
    by_cases hdeep : TooDeep maxDepth depth
    · rw [runBlock_of_tooDeep hdeep] at h
      cases h
    · rw [runBlock_of_not_tooDeep hdeep] at h
      obtain ⟨⟨reply, st'⟩, hrun, hended⟩ := exists_of_bind_eq_ok h
      cases hended
      have entered : Passes rules maxDepth (fuel + 1) ⟨code, pool, offset, ⟨reader, stack, depth⟩⟩ fuel
          ⟨code, pool, offset, ⟨reader, stack, depth + 1⟩⟩ := .enter hdeep
      obtain ⟨last, passes, hcode, hstate⟩ := entered.exists_end hrun
      exact ⟨fuel, last, passes, hcode, by rw [hstate]⟩

namespace Block

/-- An instruction that stops wherever the block is made to stop runs that block. -/
theorem asks_of_stops {b inner : Block S}
    (h : ∀ (run' : BlockRunner S) (stop : Stop), inner.runBy run' = .error stop →
      (∀ other, other ≠ inner → other.runBy run' = other.runBy run) → b.step run' rules = .error stop) :
    b.Asks run rules inner := by
  classical
  -- The block is made to stop in a way that the instruction does not stop in now.
  obtain ⟨stop, hstop⟩ : ∃ stop, Except.error stop ≠ b.step run rules := by
    by_cases same : Except.error .endless = b.step run rules
    · exact ⟨.tooDeep 0, fun same' => by cases same.trans same'.symm⟩
    · exact ⟨.endless, same⟩
  let stopped : BlockRunner S := fun code pool offset st =>
    if Block.mk code pool offset st = inner then .error stop else run code pool offset st
  have at_inner : inner.runBy stopped = .error stop := if_pos rfl
  have elsewhere (other : Block S) (hother : other ≠ inner) : other.runBy stopped = other.runBy run :=
    if_neg hother
  refine ⟨stopped, elsewhere, ?_⟩
  rw [h stopped stop at_inner elsewhere]
  exact hstop

/-- A fault that did not happen does not stop what follows. -/
theorem lift_ok_bind {α β : Type} (a : α) (f : α → Except Stop β) :
    (liftM (Except.ok a : Except Fault α) >>= f) = f a :=
  rfl

/-- An instruction around one block runs it. -/
theorem asks_wrapped {b : Block S} {op : Opcode} {body : List UInt8}
    (hop : (liftM (Bytecode.opcodeAt b.code) : Except Fault Opcode) = .ok op)
    (hwraps : op ∈ [.try, .hidden, .lookAhead, .notFollowedBy]) (hbody : wrapped b.code 5 1 = .ok body) :
    b.Asks run rules { b with code := body } := by
  refine asks_of_stops fun run' stop hstop _ => ?_
  have stopped : run' body b.pool b.offset b.state = .error stop := hstop
  simp only [List.mem_cons, List.not_mem_nil, or_false] at hwraps
  rw [step, Machine.step, hop]
  rcases hwraps with rfl | rfl | rfl | rfl
  all_goals
    simp only [lift_ok_bind, hbody, tryBlock, labelled, lookAhead, notFollowedBy, stopped]
    rfl

end Block

/-! ### Sound machines at all points -/

/-- An instruction does the same with two runners, if those do the same with all sound blocks. -/
theorem step_congr (hrun : RunsOnward input run)
    (heq : ∀ b : Block S, b.Sound input → b.runBy run' = b.runBy run) {b : Block S} (h : b.Sound input) :
    b.step run' rules = b.step run rules := by
  obtain ⟨code, pool, offset, st⟩ := b
  have block (body : List UInt8) (offset : Nat) {st : State S} (hst : st.Sound input) :
      run' body pool offset st = run body pool offset st := heq ⟨body, pool, offset, st⟩ ⟨h.pool, hst⟩
  have here (body : List UInt8) (offset : Nat) : run' body pool offset st = run body pool offset st :=
    block body offset h.state
  show Machine.step run' rules code pool offset st = Machine.step run rules code pool offset st
  rw [Machine.step, Machine.step]
  refine bind_congr fun op => ?_
  -- Most instructions around blocks run one, at once. Which one a function makes, and from where the right one
  -- of two is run, depends on what was run before.
  cases op with
  | invokeM =>
    refine (onward_invoke h.state h.pool rules code offset).bind_congr ?_
    rintro ⟨reader, stack, depth⟩ ⟨onward, made⟩
    refine onward.sound.stack.takeObject?.lift.bind_congr ?_
    intro taken htaken
    cases taken with
    | none => rfl
    | some called =>
      obtain ⟨program, t⟩ := called
      obtain ⟨sound, top⟩ := htaken program t rfl
      exact heq ⟨program.code.bytes, program.pool, 0, ⟨reader, t, depth⟩⟩
        ⟨made program top, onward.sound.input_eq, onward.sound.cursor, sound⟩
  | or =>
    refine bind_congr fun _ => bind_congr fun _ => bind_congr fun shift => ?_
    refine bind_congr fun left => bind_congr fun right => ?_
    rw [choice, choice, here]
    refine (hrun left pool offset st h.pool h.state).bind_congr ?_
    rintro ⟨reply, st'⟩ onward
    dsimp only
    rw [block right _ onward.sound]
  | «try» => exact bind_congr fun body => by rw [tryBlock, tryBlock, here]
  | lookAhead => exact bind_congr fun body => by rw [lookAhead, lookAhead, here]
  | notFollowedBy => exact bind_congr fun body => by rw [notFollowedBy, notFollowedBy, here]
  | hidden => exact bind_congr fun body => by rw [labelled, labelled, here]
  | label => exact bind_congr fun body => bind_congr fun id => by rw [labelled, labelled, here]
  | observing =>
    exact bind_congr fun body => bind_congr fun _ => bind_congr fun _ => by rw [observing, observing, here]
  | _ => rfl

/-- The blocks that an instruction of a sound block runs are sound. -/
theorem Block.Asks.sound {b inner : Block S} (hasks : b.Asks run rules inner) (hrun : RunsOnward input run)
    (h : b.Sound input) : inner.Sound input := by
  obtain ⟨run', heq, hne⟩ := hasks
  by_contra unsound
  refine hne (step_congr hrun (fun other hother => heq other ?_) h)
  rintro rfl
  exact unsound hother

/-- All points of the run of a sound block are sound. -/
theorem Passes.sound {maxDepth fuel left : Nat} {b point : Block S}
    (hpasses : Passes rules maxDepth fuel b left point) (h : b.Sound input) : point.Sound input := by
  -- By induction on the way to the point: into a block, over an instruction, and through an inner block.
  induction hpasses with
  | enter => exact ⟨h.pool, h.state.input_eq, h.state.cursor, h.state.stack⟩
  | @next fuel left size b point st _ hstep hsize ih =>
    have sound := ih h
    have onward := (onward_step (onward_runBlock input rules maxDepth left) sound.pool sound.state rules
      point.code point.offset).post_of_eq_ok hstep
    exact ⟨sound.pool, onward.sound⟩
  | @within fuel left left' b point inner point' _ hasks _ ih ih' =>
    exact ih' (hasks.sound (onward_runBlock input rules maxDepth left) (ih h))

end ParserMachine.Machine
