import ParserMachine.Parse
import ParserMachine.Proofs.Machine.Instructions

/-!
# Running loaded code

`runSteps_loaded` says what the machine does with the code of a parser, by induction on the parser: it
ends as `Parser.within` says, then goes on with the code that follows, or drops what the instructions
before have left on the stack under the frame of the failure. `runBlock_loaded` is the same of blocks
within each other, by induction on how many there may be, and `Parser.nested` tells their endings.
-/

set_option autoImplicit false

namespace ParserMachine

variable {S : Signature}

/-! ### Sequences of endings -/

namespace Ending

variable {a b c : Kind S.Base} {m : Type → Type} [Monad m] [LawfulMonad m]

omit [LawfulMonad m] in
/-- To go on with nothing leaves an ending as it is. -/
theorem andThen_return (e : Ending S a) : e.andThen (m := m) (fun v w => return ⟨.ok v, w⟩) = pure e := by
  obtain ⟨f | v, w⟩ := e <;> rfl

/-- Endings are continued in sequence, however the continuations are grouped. -/
theorem andThen_assoc (e : Ending S a) (f : S.Val a → Reader S.Token → m (Ending S b))
    (g : S.Val b → Reader S.Token → m (Ending S c)) :
    (e.andThen f >>= fun e => e.andThen g) = e.andThen fun v w => f v w >>= fun e => e.andThen g := by
  obtain ⟨f | v, w⟩ := e
  · simp [andThen]
  · rfl

end Ending

namespace Machine

variable {rules : Grammar S} {run : BlockRunner S} {block : Parser.Attempt S}
  {pool : Stack (Object S)} {poolCells below : List (Cell (Object S))} {depth offset base : Nat}
  {k b : Kind S.Base}

section Steps

variable {s : Stack (Object S)} {w : Reader S.Token} {extra : List (Cell (Object S))}
  {code rest : List UInt8} {x : Except Stop (Ending S k)}
  {next : S.Val k → Reader S.Token → Except Stop (Ending S b)}

/-! ### One instruction of a block -/

/-- An instruction that answered was there: the code has a first byte. -/
theorem isEmpty_eq_false_of_step {r : Reply × State S} {st : State S}
    (h : step run rules code pool offset st = .ok r) : code.isEmpty = false := by
  cases code with
  | nil =>
    rw [step] at h
    cases h
  | cons byte bytes => rfl

/-- After an instruction that succeeded, the block goes on with the code behind it. -/
theorem runSteps_of_ok {st st' : State S} {size : Nat}
    (h : step run rules code pool offset st = .ok (.ok, st'))
    (hsize : Bytecode.instructionSize code = .ok size) :
    runSteps run rules pool offset base code st =
      runSteps run rules pool offset base (code.drop size) st' := by
  rw [runSteps, isEmpty_eq_false_of_step h]
  simp only [Bool.false_eq_true, if_false, h]
  split
  · next cause hcause =>
    rw [hsize] at hcause
    cases hcause
  · next size' hsize' =>
    rw [hsize] at hsize'
    cases hsize'
    rfl

/-- After an instruction that failed, the block keeps the frame of the failure, without what lies under
it. -/
theorem runSteps_of_err {st : State S} {w : Reader S.Token}
    (h : step run rules code pool offset st = .ok (.err, ⟨w, s, depth⟩)) :
    runSteps run rules pool offset base code st =
      (do return (.err, ⟨w, ← dropPartial base s, depth⟩)) := by
  rw [runSteps, isEmpty_eq_false_of_step h]
  simp only [Bool.false_eq_true, if_false, h]

/-- A block is stopped by what stops its first instruction. -/
theorem runSteps_of_error {st : State S} {stop : Stop} {size : Nat}
    (h : step run rules code pool offset st = .error stop)
    (hsize : Bytecode.instructionSize code = .ok size) :
    runSteps run rules pool offset base code st = .error stop := by
  cases code with
  | nil => cases hsize
  | cons byte bytes =>
    rw [runSteps]
    simp only [List.isEmpty_cons, Bool.false_eq_true, if_false, h]

/-- One instruction, then the others: they find its value on the stack, or what the block has left is
dropped under its frame. -/
theorem runSteps_instruction
    (hsize : Bytecode.instructionSize (code ++ rest) = .ok code.length)
    (hstep : Simulates (Ended w.input (extra ++ below) depth)
      (step run rules (code ++ rest) pool offset ⟨w, s, depth⟩) x)
    (hnext : ∀ v w' s' c, x = .ok ⟨.ok v, w'⟩ → Reads w.input k c v →
      s'.Holds (c :: (extra ++ below)) →
      Simulates (Ended w.input below depth)
        (runSteps run rules pool offset below.length rest ⟨w', s', depth⟩) (next v w')) :
    Simulates (Ended w.input below depth)
      (runSteps run rules pool offset below.length (code ++ rest) ⟨w, s, depth⟩)
      (do (← x).andThen next) := by
  cases hdo : step run rules (code ++ rest) pool offset ⟨w, s, depth⟩ with
  | error stop =>
    rw [hdo] at hstep
    rw [runSteps_of_error hdo hsize]
    -- Room ran out, or both were stopped by the same.
    rcases hstep with overflow | rfl
    · exact .inl overflow
    · exact .stopped stop
  | ok r =>
    rw [hdo] at hstep
    obtain ⟨e, rfl, ended⟩ := hstep
    cases ended with
    | value hc hs =>
      rw [runSteps_of_ok hdo hsize, List.drop_left]
      exact hnext _ _ _ _ rfl hc hs
    -- The frame is on top of what earlier instructions of the block have left.
    | failure hf hs =>
      obtain ⟨t, hdrop, ht⟩ := Frame.dropPartial_shows hf hs
      rw [runSteps_of_err hdo]
      exact .answers hdrop (.ok (.failure hf ht))

/-- What a made parser ends in keeps to the input. -/
theorem Follows.made (hblock : Follows block) {p : Parser S k} {e : Ending S k} (hw : w.Inside)
    (h : (do let _ ← build rules p; block p w) = .ok e) : e.reader.Follows w := by
  cases hbuild : build rules p with
  | error stop =>
    rw [hbuild] at h
    cases h
  | ok program =>
    rw [hbuild] at h
    exact hblock p hw h

section Loaded

variable (hrun : Implements run rules depth block) (hblock : Follows block)
  (hwithin : Follows fun p => p.within rules block) (hp : pool.Represents poolCells)
include hrun hblock hwithin hp

/-- A parser that is one instruction, then the code that follows. -/
theorem runSteps_one {p : Parser S k} (hone : p.IsInstruction)
    (hl : p.Loads poolCells rules code offset) (hs : s.Holds (extra ++ below)) (hw : w.Inside)
    (hnext : ∀ v w' s' c, w'.Follows w → Reads w.input k c v → s'.Holds (c :: (extra ++ below)) →
      Simulates (Ended w.input below depth)
        (runSteps run rules pool offset below.length rest ⟨w', s', depth⟩) (next v w')) :
    Simulates (Ended w.input below depth)
      (runSteps run rules pool offset below.length (code ++ rest) ⟨w, s, depth⟩)
      (do (← p.within rules block w).andThen next) :=
  runSteps_instruction (p.instructionSize_eq hone hl rest)
    (simulates_step hp hs hw rest hrun hblock hone hl)
    fun v w' s' c he hc hs => hnext v w' s' c (hwithin p hw he) hc hs

/-- The code of a parser, then the code that follows: it finds the value on the stack, or what the block
has left is dropped under the frame. -/
theorem runSteps_loaded (p : Parser S k) (hl : p.Loads poolCells rules code offset)
    (hs : s.Holds (extra ++ below)) (hw : w.Inside)
    (hnext : ∀ v w' s' c, w'.Follows w → Reads w.input k c v → s'.Holds (c :: (extra ++ below)) →
      Simulates (Ended w.input below depth)
        (runSteps run rules pool offset below.length rest ⟨w', s', depth⟩) (next v w')) :
    Simulates (Ended w.input below depth)
      (runSteps run rules pool offset below.length (code ++ rest) ⟨w, s, depth⟩)
      (do (← p.within rules block w).andThen next) := by
  -- What is left to do stands in `next` and `rest`, so that in a sequence the induction hypothesis of
  -- the first part takes the second part as what follows. `extra` are the cells that the block has
  -- left so far.
  induction p generalizing code rest s w extra with
  | pure | error | token | tokens | satisfy | oneOf | noneOf | take | take1 | takeWhile | takeWhile1
  | eof | newline | or | «try» | label | hidden | lookAhead | notFollowedBy | observing =>
    refine runSteps_one hrun hblock hwithin hp ?_ hl hs hw hnext
    trivial
  | map p f ih =>
    obtain ⟨first, last, rfl, hfirst, hlast⟩ := hl
    rw [List.append_assoc, Parser.within, bind_assoc]
    simp only [Ending.andThen_assoc]
    refine ih hfirst hs hw ?_
    intro v w' s' c follows hc hs'
    rw [← follows.input_eq] at hc hnext ⊢
    refine runSteps_instruction (hlast.size rest rfl) (simulates_map hp rest hlast hc hs') ?_
    rintro v' w'' s'' c' ⟨⟩ hc' hs''
    exact hnext _ _ _ _ follows hc' hs''
  | bind p f ih =>
    obtain ⟨first, last, rfl, hfirst, hlast⟩ := hl
    rw [List.append_assoc, Parser.within, bind_assoc]
    simp only [Ending.andThen_assoc]
    refine ih hfirst hs hw ?_
    intro v w' s' c follows hc hs'
    rw [← follows.input_eq] at hc hnext ⊢
    refine runSteps_instruction (hlast.size rest rfl)
      (simulates_bind hp rest hrun follows.inside hlast hc hs') ?_
    intro v' w'' s'' c' he hc' hs''
    exact hnext _ _ _ _ (follows.trans (hblock.made follows.inside he)) hc' hs''
  | selectMany p f project ih =>
    obtain ⟨first, middle, last, rfl, hfirst, hmiddle, hlast⟩ := hl
    rw [List.append_assoc, List.append_assoc, Parser.within, bind_assoc]
    simp only [Ending.andThen_assoc]
    refine ih hfirst hs hw ?_
    intro v w' s' c follows hc hs'
    rw [← follows.input_eq] at hc hnext ⊢
    simp only [bind_assoc, Ending.andThen_assoc]
    rw [← bind_assoc]
    -- The first value stays under what the second parser leaves.
    refine runSteps_instruction (hmiddle.size (last ++ rest) rfl)
      (show Simulates (Ended w'.input ((c :: extra) ++ below) depth) _ _ from
        simulates_select hp (last ++ rest) hrun follows.inside hmiddle hc hs') ?_
    intro v₂ w₂ s₂ c₂ he hc₂ hs₂
    have further := hblock.made follows.inside he
    rw [← further.input_eq] at hc hc₂ hnext ⊢
    refine runSteps_instruction (hlast.size rest rfl)
      (simulates_project hp rest hlast hc hc₂ hs₂) ?_
    rintro v₃ w₃ s₃ c₃ ⟨⟩ hc₃ hs₃
    exact hnext _ _ _ _ (follows.trans further) hc₃ hs₃
  | rule r =>
    obtain ⟨first, last, rfl, hfirst, hlast⟩ := hl
    -- A rule is compiled as the `bind` of a unit to the function that makes its program.
    have unit : (Parser.pure () : Parser S .unit).Loads poolCells rules first offset := hfirst
    have one : (Parser.pure () : Parser S .unit).IsInstruction := trivial
    have made : Simulates (Ended w.input below depth)
        (runSteps run rules pool offset below.length (first ++ (last ++ rest)) ⟨w, s, depth⟩)
        (do (← (Parser.pure () : Parser S .unit).within rules block w).andThen fun _ w => do
          (← (Parser.rule r).within rules block w).andThen next) := by
      refine runSteps_one hrun hblock hwithin hp one unit hs hw ?_
      intro v w' s' c follows hc hs'
      rw [← follows.input_eq] at hc hnext ⊢
      refine runSteps_instruction (hlast.size rest rfl)
        (simulates_bind hp rest hrun follows.inside hlast hc hs') ?_
      intro v₂ w₂ s₂ c₂ he hc₂ hs₂
      exact hnext _ _ _ _ (follows.trans (hblock.made follows.inside he)) hc₂ hs₂
    rw [List.append_assoc]
    exact made

/-- The code of a whole block. -/
theorem runSteps_block (p : Parser S k) (hl : p.Loads poolCells rules code offset)
    (hs : s.Holds below) (hw : w.Inside) :
    Simulates (Ended w.input below depth)
      (runSteps run rules pool offset below.length code ⟨w, s, depth⟩) (p.within rules block w) := by
  have all : Simulates (Ended w.input below depth)
      (runSteps run rules pool offset below.length (code ++ []) ⟨w, s, depth⟩)
      (do (← p.within rules block w).andThen fun v w => return ⟨.ok v, w⟩) := by
    refine runSteps_loaded hrun hblock hwithin hp p hl (show s.Holds ([] ++ below) from hs) hw ?_
    intro v w' s' c follows hc hs'
    rw [runSteps]
    exact .ok (.value hc hs')
  simpa only [Ending.andThen_return, bind_pure, List.append_nil] using all

end Loaded

end Steps

/-! ### Blocks within each other -/

/-- Blocks within each other read on in the input that they were given. -/
theorem follows_nested (rules : Grammar S) (maxDepth fuel depth : Nat) :
    Follows (Parser.nested rules maxDepth fuel depth) :=
  fun _ _ _ hw h => (Parser.nested_ends h).follows hw

/-- So does the code of one block that runs others. -/
theorem follows_within (rules : Grammar S) (maxDepth fuel depth : Nat) :
    Follows fun p => p.within rules (Parser.nested rules maxDepth fuel depth) := by
  intro k p w e hw h
  exact (Parser.within_ends h).follows hw

/-- Blocks end as told by `Parser.nested`, with as many within each other. -/
theorem runBlock_loaded (rules : Grammar S) (maxDepth fuel depth : Nat) :
    Implements (runBlock rules maxDepth fuel) rules depth
      (Parser.nested rules maxDepth fuel depth) := by
  induction fuel generalizing depth with
  | zero => exact fun p _ _ _ _ _ _ _ _ _ _ _ => .stopped .endless
  | succ fuel ih =>
    intro k p code pool s offset w poolCells cells hp hl hs hw
    simp only [runBlock, Parser.nested]
    split
    · exact .stopped _
    · rw [hs.count_eq]
      have steps := runSteps_block (ih (depth + 1)) (follows_nested rules maxDepth fuel (depth + 1))
        (follows_within rules maxDepth fuel (depth + 1)) hp p hl hs hw
      refine steps.map ?_
      rintro _ _ (⟨hc, hs⟩ | ⟨hf, hs⟩)
      · exact .value hc hs
      · exact .failure hf hs

/-- The value of a parser's block is observed at the parser's own kind, and never found to be of another. -/
theorem observing_runBlock (rules : Grammar S) (maxDepth fuel depth : Nat) (p : Parser S k)
    {s : Stack (Object S)} {w : Reader S.Token} {code : List UInt8} (hp : pool.Represents poolCells)
    (hl : p.Loads poolCells rules code offset) (hs : s.Holds below) (hw : w.Inside) :
    observing (runBlock rules maxDepth fuel code pool offset) ⟨w, s, depth⟩ =
      observingAs k (runBlock rules maxDepth fuel code pool offset) ⟨w, s, depth⟩ :=
  observing_eq_observingAs (runBlock_loaded rules maxDepth fuel depth p hp hl hs hw)
    fun _ h => follows_nested rules maxDepth fuel depth p hw h

/-! ### The outcome -/

/-- A run that ended on an empty stack finishes with the outcome of its ending. -/
theorem finish_ended {w : Reader S.Token} {reply : Reply} {st : State S} {e : Ending S k}
    (h : Ended w.input [] depth (reply, st) e) (hfollows : e.reader.Follows w) :
    finish k reply st = .ok e.outcome := by
  have same := hfollows.input_eq
  cases h with
  | value hc hs =>
    rw [← same] at hc
    obtain ⟨t, htake, ht⟩ := takeValue_eq hc hs
    simp only [finish, htake, bind, Except.bind, pure, Except.pure, ht.isEmpty_eq]
    rfl
  | failure hf hs =>
    rw [← same] at hf
    obtain ⟨t, hpop, ht⟩ := Frame.popError_shows hf hs
    simp only [finish, hpop, bind, Except.bind, pure, Except.pure, ht.isEmpty_eq]
    rfl

end Machine

end ParserMachine
