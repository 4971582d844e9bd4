import ParserMachine.Proofs.Machine.Assembly
import ParserMachine.Proofs.Machine.Beside
import ParserMachine.Proofs.Machine.Simulation

/-!
# Runs in lockstep

Two runs of loaded code do the same, instruction by instruction, if their machines stand side by side
(`Beside`) and each finds the constants of the code in its own pool. `tracks_step` says so of one
instruction, `tracks_runSteps` of the instructions of a block, and `lockstep_runBlock` of blocks within
each other, where the limits of the second run allow at least as much nesting as those of the first
(`Outlasts`).

Three laws are cases of it: code may be moved to other places of a larger pool, a limit on nesting only
cuts runs off, and memory that does not run out makes no difference.
-/

set_option autoImplicit false

namespace ParserMachine

open Stack (Likeness)
open Machine

variable {S : Signature} {K : Likeness (Object S)} {cut : Stop → Prop} {rules : Grammar S}
  {k : Kind S.Base}

namespace Machine

variable {run run' : BlockRunner S} {pool pool' : Stack (Object S)}
  {cells cells' : List (Cell (Object S))} {offset offset' depth : Nat} {code : List UInt8}
  {st st' : State S}

/-- Both machines go on with a constant that an instruction names. -/
theorem tracks_constant {α β : Type} {R : α → β → Prop} {op : Opcode} {c : Cell (Object S)}
    (hp : pool.Represents cells) (hp' : pool'.Represents cells')
    (hr : Parser.Relocates cells cells' offset offset')
    (hl : Parser.LoadsConstant cells op c code offset) (rest : List UInt8)
    {f : Nat → Except Stop α} {g : Nat → Except Stop β}
    (h : ∀ i j, pool.HasAt i c → pool'.HasAt j c → Tracks cut R (f i) (g j)) :
    Tracks cut R
      ((liftM (liftM (Bytecode.constantAt (code ++ rest) 1 offset) : Except Fault Nat) :
        Except Stop Nat) >>= f)
      ((liftM (liftM (Bytecode.constantAt (code ++ rest) 1 offset') : Except Fault Nat) :
        Except Stop Nat) >>= g) := by
  obtain ⟨i, hi, hc⟩ := hl.constant rest
  obtain ⟨j, hj, hc'⟩ := (hl.relocate hr).constant rest
  exact tracks_answers hi hj (h i j ⟨cells, hp, hc⟩ ⟨cells', hp', hc'⟩)

section Step

variable (hcut : ∀ f, K.excused f → cut (.fault f)) (hrun : Lockstep K cut rules depth run run')
  (hp : pool.Represents cells) (hp' : pool'.Represents cells')
  (hr : Parser.Relocates cells cells' offset offset') (rest : List UInt8)
  (h : Beside K.Rel depth st st')
include hcut hrun hp hp' hr h

/-- A loaded instruction does to both machines the same. -/
theorem tracks_step {p : Parser S k} (hone : p.IsInstruction)
    (hl : p.Loads cells rules code offset) :
    Tracks cut (Paired (Beside K.Rel depth)) (step run rules (code ++ rest) pool offset st)
      (step run' rules (code ++ rest) pool' offset' st') := by
  rw [step, step]
  cases p with
  -- An id in the code, counted from either offset, leads to the same constant.
  | pure v =>
    have opcode := Parser.LoadsConstant.opcode hl rest
    refine tracks_answers opcode opcode <| tracks_constant hp hp' hr hl rest fun i j hi hj => ?_
    obtain ⟨w, h⟩ := h
    exact (tracks_lift hcut (h.pushFrom hi hj)).bind fun _ _ h => .ok ⟨_, w, h⟩
  | error c =>
    have opcode := Parser.LoadsConstant.opcode hl rest
    refine tracks_answers opcode opcode <| tracks_constant hp hp' hr hl rest fun i j hi hj => ?_
    exact tracks_lift hcut (tracks_refuse h fun _ _ h => Frame.tracks_complaint h hi hj)
  | token t =>
    have opcode := Parser.LoadsConstant.opcode hl rest
    exact tracks_answers opcode opcode <| tracks_constant hp hp' hr hl rest fun i j hi hj =>
      tracks_lift hcut (tracks_token h hi hj)
  | tokens ts =>
    have opcode := Parser.LoadsConstant.opcode hl rest
    exact tracks_answers opcode opcode <| tracks_constant hp hp' hr hl rest fun i j hi hj =>
      tracks_lift hcut (tracks_tokens h hi hj)
  | satisfy p =>
    have opcode := Parser.LoadsConstant.opcode hl rest
    exact tracks_answers opcode opcode <| tracks_constant hp hp' hr hl rest fun i j hi hj =>
      tracks_lift hcut (tracks_satisfy h hi hj)
  | oneOf ts =>
    have opcode := Parser.LoadsConstant.opcode hl rest
    exact tracks_answers opcode opcode <| tracks_constant hp hp' hr hl rest fun i j hi hj =>
      tracks_lift hcut (tracks_oneOf h hi hj)
  | noneOf ts =>
    have opcode := Parser.LoadsConstant.opcode hl rest
    exact tracks_answers opcode opcode <| tracks_constant hp hp' hr hl rest fun i j hi hj =>
      tracks_lift hcut (tracks_noneOf h hi hj)
  | takeWhile p | takeWhile1 p =>
    have opcode := Parser.LoadsConstant.opcode hl rest
    exact tracks_answers opcode opcode <| tracks_constant hp hp' hr hl rest fun i j hi hj =>
      tracks_lift hcut (tracks_takeWhile h hi hj _)
  | newline =>
    have opcode := Parser.LoadsConstant.opcode hl rest
    exact tracks_answers opcode opcode <| tracks_constant hp hp' hr hl rest fun i j hi hj =>
      tracks_lift hcut (tracks_newline h hi hj)
  | take n =>
    obtain ⟨count, rfl, rfl⟩ := hl
    have opcode := Parser.fetch_opcode .takeN (Code.wordBytes count ++ rest)
    have word := Parser.fetch_word [Opcode.takeN.byte] 1 rfl count rest
    exact tracks_answers opcode opcode <| tracks_answers word word <|
      tracks_lift hcut (tracks_takeN h count.toNat)
  | take1 =>
    obtain rfl := hl
    have opcode := Parser.fetch_opcode .take1 rest
    exact tracks_answers opcode opcode (tracks_lift hcut (tracks_take1 h))
  | eof =>
    obtain rfl := hl
    have opcode := Parser.fetch_opcode .eof rest
    exact tracks_answers opcode opcode (tracks_lift hcut (tracks_eof h))
  | or p q =>
    obtain ⟨left, right, shift, hcode, hleft, hright⟩ := hl
    have opcode := hcode.opcode rest
    obtain ⟨leftSize, rightSize, rightShift, leftBlock, rightBlock⟩ := hcode.blocks rest
    refine tracks_answers opcode opcode <| tracks_answers leftSize leftSize <|
      tracks_answers rightSize rightSize <| tracks_answers rightShift rightShift <|
      tracks_answers leftBlock leftBlock <| tracks_answers rightBlock rightBlock ?_
    -- The constants of the right side are counted from a place that is moved in both pools.
    exact tracks_choice hcut h (hrun p hp hp' hleft hr h) fun st st' h =>
      hrun q hp hp' hright (hr.shifted shift) h
  -- Around one block, it is read from the same code in both runs, and constants from either pool.
  | «try» p =>
    obtain ⟨body, hcode, hbody⟩ := hl
    have opcode := hcode.opcode rest
    have block := hcode.block rest
    exact tracks_answers opcode opcode <| tracks_answers block block <|
      tracks_tryBlock h (hrun p hp hp' hbody hr h)
  | hidden p =>
    obtain ⟨body, hcode, hbody⟩ := hl
    have opcode := hcode.opcode rest
    have block := hcode.block rest
    exact tracks_answers opcode opcode <| tracks_answers block block <|
      tracks_labelled hcut h (hrun p hp hp' hbody hr h) .none
  | lookAhead p =>
    obtain ⟨body, hcode, hbody⟩ := hl
    have opcode := hcode.opcode rest
    have block := hcode.block rest
    exact tracks_answers opcode opcode <| tracks_answers block block <|
      tracks_lookAhead h (hrun p hp hp' hbody hr h)
  | notFollowedBy p =>
    obtain ⟨body, hcode, hbody⟩ := hl
    have opcode := hcode.opcode rest
    have block := hcode.block rest
    exact tracks_answers opcode opcode <| tracks_answers block block <|
      tracks_notFollowedBy hcut h (hrun p hp hp' hbody hr h)
  | label name p =>
    obtain ⟨body, hcode, hbody⟩ := hl
    have opcode := hcode.opcode rest
    have block := hcode.block rest
    obtain ⟨i, hi, hc⟩ := hcode.constant rest
    obtain ⟨j, hj, hc'⟩ := (hcode.relocate hr).constant rest
    exact tracks_answers opcode opcode <| tracks_answers block block <| tracks_answers hi hj <|
      tracks_labelled hcut h (hrun p hp hp' hbody hr h) <|
        .some ⟨_, ⟨cells, hp, hc⟩, ⟨cells', hp', hc'⟩⟩
  | observing p =>
    obtain ⟨body, hcode, hbody⟩ := hl
    have opcode := hcode.opcode rest
    have block := hcode.block rest
    obtain ⟨i, hi, hc⟩ := hcode.constant rest
    obtain ⟨j, hj, hc'⟩ := (hcode.relocate hr).constant rest
    exact tracks_answers opcode opcode <| tracks_answers block block <| tracks_answers hi hj <|
      tracks_answers (constantValue_eq hp hc) (constantValue_eq hp' hc') <|
        tracks_observing hcut (hrun p hp hp' hbody hr h)
  | map | bind | selectMany | rule => exact hone.elim

/-- A function that is applied does to both machines the same. -/
theorem tracks_step_invoke {op : Opcode} {routine : Dispatcher} {function : Object S}
    (hop : op = .invoke ∨ op = .invokeM)
    (hl : Parser.LoadsInvoke cells op routine function code offset) :
    Tracks cut (Paired (Beside K.Rel depth)) (step run rules (code ++ rest) pool offset st)
      (step run' rules (code ++ rest) pool' offset' st') := by
  have opcode := hl.opcode rest
  have applied : Tracks cut (Beside (Applied K rules) depth)
      (invoke rules (code ++ rest) pool offset st) (invoke rules (code ++ rest) pool' offset' st') :=
    tracks_invoke hcut hp hp' hl (hl.relocate hr) rest h
  rw [step, step]
  rcases hop with rfl | rfl
  · refine tracks_answers opcode opcode (applied.bind ?_)
    rintro _ _ ⟨w, h⟩
    exact .ok ⟨_, w, h.rel⟩
  · exact tracks_answers opcode opcode (applied.bind fun st st' h => tracks_runMade hcut hrun h)

end Step

/-! ### Instructions one after the other -/

/-- What failed blocks left under their frames is dropped from both stacks. -/
theorem tracks_dropPartial {s t : Stack (Object S)} (h : K.Rel s t) (base : Nat) :
    Tracks K.excused K.Rel (dropPartial base s) (dropPartial base t) := by
  rw [dropPartial, dropPartial, Frame.length_congr h, h.count_eq]
  exact .bindSame fun frame _ => .ite (fun _ => .failed _) fun _ => h.dropUnder _ _

/-- One instruction, then the others. -/
theorem tracks_runSteps_cons {base : Nat} {rest : List UInt8}
    (hcut : ∀ f, K.excused f → cut (.fault f))
    (hsize : Bytecode.instructionSize (code ++ rest) = .ok code.length)
    (hstep : Tracks cut (Paired (Beside K.Rel depth)) (step run rules (code ++ rest) pool offset st)
      (step run' rules (code ++ rest) pool' offset' st'))
    (hrest : ∀ st st', Beside K.Rel depth st st' →
      Tracks cut (Paired (Beside K.Rel depth)) (runSteps run rules pool offset base rest st)
        (runSteps run' rules pool' offset' base rest st')) :
    Tracks cut (Paired (Beside K.Rel depth)) (runSteps run rules pool offset base (code ++ rest) st)
      (runSteps run' rules pool' offset' base (code ++ rest) st') := by
  -- A stop of the instruction stops the block, a failure ends it, and else the others are next.
  cases hdo : step run rules (code ++ rest) pool offset st with
  | error stop =>
    rw [runSteps_of_error hdo hsize]
    rcases hstep.of_eq_error hdo with excused | hdo'
    · exact .excuse excused
    · rw [runSteps_of_error hdo' hsize]
      exact .failed stop
  | ok r =>
    obtain ⟨r', hdo', ⟨reply, ⟨w, h⟩⟩⟩ := hstep.of_eq_ok hdo
    cases reply with
    | ok =>
      rw [runSteps_of_ok hdo hsize, runSteps_of_ok hdo' hsize, List.drop_left]
      exact hrest _ _ ⟨w, h⟩
    | err =>
      rw [runSteps_of_err hdo, runSteps_of_err hdo']
      exact (tracks_lift hcut (tracks_dropPartial h base)).bind fun _ _ h => .ok ⟨_, w, h⟩

/-- The instructions of a block do to both machines the same. -/
theorem tracks_runSteps (hcut : ∀ f, K.excused f → cut (.fault f))
    (hrun : Lockstep K cut rules depth run run') (hp : pool.Represents cells)
    (hp' : pool'.Represents cells') (hr : Parser.Relocates cells cells' offset offset')
    (hcode : Assembled rules cells offset code) (base : Nat) (h : Beside K.Rel depth st st') :
    Tracks cut (Paired (Beside K.Rel depth)) (runSteps run rules pool offset base code st)
      (runSteps run' rules pool' offset' base code st') := by
  -- By induction on the instructions: each leaves the machines beside each other for the next.
  induction hcode generalizing st st' with
  | nil =>
    obtain ⟨w, h⟩ := h
    rw [runSteps, runSteps]
    exact .ok ⟨_, w, h⟩
  | @instruction k p code rest hone hl _ ih =>
    exact tracks_runSteps_cons hcut (p.instructionSize_eq hone hl rest)
      (tracks_step hcut hrun hp hp' hr rest h hone hl) fun st st' h => ih h
  | @invoke op routine function code rest hop hl _ ih =>
    refine tracks_runSteps_cons hcut (hl.size rest ?_)
      (tracks_step_invoke hcut hrun hp hp' hr rest h hop hl) fun st st' h => ih h
    rcases hop with rfl | rfl <;> rfl

/-! ### Blocks within each other -/

/-- Whether there would be more blocks within each other than allowed. -/
def TooDeep (maxDepth depth : Nat) : Prop := 0 < maxDepth ∧ maxDepth < depth + 1

/-- A block that is one too many is not entered. The depth that is told is the one that it would have
had. -/
theorem runBlock_of_tooDeep {maxDepth fuel : Nat} (hdeep : TooDeep maxDepth depth) (w : Reader S.Token)
    (s : Stack (Object S)) :
    runBlock rules maxDepth (fuel + 1) code pool offset ⟨w, s, depth⟩ =
      .error (.tooDeep (depth + 1)) := by
  simp only [runBlock]
  rw [if_pos (by simpa [TooDeep] using hdeep)]

/-- A block that is allowed runs its instructions one level deeper, and ends at the level where it was
entered. -/
theorem runBlock_of_not_tooDeep {maxDepth fuel : Nat} (hdeep : ¬TooDeep maxDepth depth)
    (w : Reader S.Token) (s : Stack (Object S)) :
    runBlock rules maxDepth (fuel + 1) code pool offset ⟨w, s, depth⟩ = (do
      let (reply, s) ← runSteps (runBlock rules maxDepth fuel) rules pool offset s.count code
        ⟨w, s, depth + 1⟩
      return (reply, ⟨s.reader, s.stack, s.depth - 1⟩)) := by
  simp only [runBlock]
  rw [if_neg (by simpa [TooDeep] using hdeep)]

/-- From the given depth on, blocks may nest at least as deep under the second limits as under the first,
or the stops of the first are excused: that the fuel is used up, and that there is one block more within
the others than its limit allows. -/
structure Outlasts (cut : Stop → Prop) (maxDepth maxDepth' fuel fuel' depth : Nat) : Prop where
  fuel_le : fuel' = fuel ∨ cut .endless ∧ fuel ≤ fuel'
  limit_le : maxDepth' = maxDepth ∨
    cut (.tooDeep (maxDepth + 1)) ∧ depth ≤ maxDepth ∧ 0 < maxDepth ∧
      (maxDepth' = 0 ∨ maxDepth ≤ maxDepth') ∨
    maxDepth = 0 ∧ depth + fuel ≤ maxDepth'

namespace Outlasts

variable {maxDepth maxDepth' fuel fuel' : Nat}

/-- Limits outlast themselves, whatever is excused. -/
theorem refl (cut : Stop → Prop) (maxDepth fuel depth : Nat) :
    Outlasts cut maxDepth maxDepth fuel fuel depth :=
  ⟨.inl rfl, .inl rfl⟩

/-- Where the first limit allows one block more, the second does. -/
theorem not_tooDeep (h : Outlasts cut maxDepth maxDepth' (fuel + 1) fuel' depth)
    (hdeep : ¬TooDeep maxDepth depth) : ¬TooDeep maxDepth' depth := by
  unfold TooDeep at *
  rcases h.limit_le with same | ⟨-, -, limited, further⟩ | ⟨unlimited, enough⟩ <;> omega

/-- One level deeper, with one block less to be spent, limits still outlast each other. -/
theorem next (h : Outlasts cut maxDepth maxDepth' (fuel + 1) (fuel' + 1) depth)
    (hdeep : ¬TooDeep maxDepth depth) : Outlasts cut maxDepth maxDepth' fuel fuel' (depth + 1) where
  fuel_le := h.fuel_le.imp (by omega) fun ⟨hcut, hle⟩ => ⟨hcut, by omega⟩
  limit_le := by
    unfold TooDeep at hdeep
    refine h.limit_le.imp_right ?_
    rintro (⟨hcut, -, limited, further⟩ | ⟨unlimited, enough⟩)
    · exact .inl ⟨hcut, by omega, limited, further⟩
    · exact .inr ⟨unlimited, by omega⟩

/-- The first run is stopped by its limit, and so is the second, or the stop is excused. -/
theorem tooDeep (h : Outlasts cut maxDepth maxDepth' fuel fuel' depth)
    (hdeep : TooDeep maxDepth depth) : maxDepth' = maxDepth ∨ cut (.tooDeep (depth + 1)) := by
  unfold TooDeep at hdeep
  rcases h.limit_le with same | ⟨hcut, within, limited, further⟩ | ⟨unlimited, enough⟩
  · exact .inl same
  · obtain rfl : depth = maxDepth := by omega
    exact .inr hcut
  · omega

end Outlasts

/-- Blocks within each other do to both machines the same. -/
theorem lockstep_runBlock (rules : Grammar S) (hcut : ∀ f, K.excused f → cut (.fault f))
    {maxDepth maxDepth' fuel fuel' depth : Nat}
    (houtlasts : Outlasts cut maxDepth maxDepth' fuel fuel' depth) :
    Lockstep K cut rules depth (runBlock rules maxDepth fuel) (runBlock rules maxDepth' fuel') := by
  -- By induction on the fuel of the first run. The second never has less of it.
  induction fuel generalizing fuel' depth with
  | zero =>
    intro k p code pool pool' offset offset' cells cells' st st' hp hp' hl hr h
    rcases houtlasts.fuel_le with rfl | ⟨endless, -⟩
    · exact .failed _
    · exact .excuse endless
  | succ fuel ih =>
    intro k p code pool pool' offset offset' cells cells' st st' hp hp' hl hr h
    obtain ⟨fuel', rfl⟩ : ∃ f, fuel' = f + 1 := by
      have := houtlasts.fuel_le
      exact ⟨fuel' - 1, by omega⟩
    obtain ⟨w, h⟩ := h
    by_cases hdeep : TooDeep maxDepth depth
    · rw [runBlock_of_tooDeep hdeep]
      rcases houtlasts.tooDeep hdeep with rfl | excused
      · rw [runBlock_of_tooDeep hdeep]
        exact .failed _
      · exact .excuse excused
    · rw [runBlock_of_not_tooDeep hdeep, runBlock_of_not_tooDeep (houtlasts.not_tooDeep hdeep),
        h.count_eq]
      refine (tracks_runSteps hcut (ih (houtlasts.next hdeep)) hp hp' hr (Assembled.ofLoads hl) _
        ⟨w, h⟩).bind ?_
      rintro _ _ ⟨reply, ⟨w', h⟩⟩
      exact .ok ⟨reply, w', h⟩

/-- Both machines finish with the same outcome. -/
theorem tracks_finish {r r' : Reply × State S} (h : Paired (Beside K.Rel depth) r r') :
    Tracks K.excused Eq (finish k r.1 r.2) (finish k r'.1 r'.2) := by
  obtain ⟨reply, ⟨w, h⟩⟩ := h
  simp only [finish]
  cases reply with
  | ok =>
    refine (tracks_takeValue h w.input k).bind ?_
    rintro _ _ ⟨v, h⟩
    simp only [pure_bind, h.isEmpty_eq]
    exact .ite (fun _ => .ok rfl) fun _ => .failed _
  | err =>
    refine (Frame.tracks_popError h w).bind ?_
    rintro _ _ ⟨e, h⟩
    simp only [pure_bind, h.isEmpty_eq]
    exact .ite (fun _ => .ok rfl) fun _ => .failed _

/-! ### Machines on one stack -/

/-- Two machines on one stack fail in the same way, whatever the fault. -/
theorem nothing_excused (f : Fault) (excused : (Likeness.same : Likeness (Object S)).excused f) :
    cut (.fault f) :=
  absurd excused (Likeness.not_excused_same f)

/-- Machines on one stack are one machine. -/
theorem eq_of_same {r r' : Reply × State S} (h : Paired (Beside Likeness.same.Rel depth) r r') :
    r = r' := by
  obtain ⟨reply, ⟨w, ⟨cells, -, -, rfl⟩⟩⟩ := h
  rfl

/-- Blocks run on one stack, with their constants found in either pool, end alike, or the first one is
stopped in a way that is excused. -/
theorem runBlock_eq_or_cut {maxDepth maxDepth' fuel fuel' : Nat} {p : Parser S k}
    {stCells : List (Cell (Object S))} (hp : pool.Represents cells) (hp' : pool'.Represents cells')
    (hl : p.Loads cells rules code offset) (hr : Parser.Relocates cells cells' offset offset')
    (houtlasts : Outlasts cut maxDepth maxDepth' fuel fuel' st.depth) (hst : st.stack.Holds stCells) :
    runBlock rules maxDepth' fuel' code pool' offset' st = runBlock rules maxDepth fuel code pool offset st ∨
      ∃ stop, runBlock rules maxDepth fuel code pool offset st = .error stop ∧ cut stop := by
  obtain ⟨w, s, depth⟩ := st
  have machines : Beside Likeness.same.Rel depth ⟨w, s, depth⟩ ⟨w, s, depth⟩ :=
    ⟨w, Likeness.same_rel hst⟩
  have blocks := lockstep_runBlock rules nothing_excused houtlasts p hp hp' hl hr machines
  exact (blocks.mono fun _ _ same => eq_of_same same).eq_or_excused

end Machine

namespace Program

/-- How many blocks within each other a run may go through before it is given up as endless. -/
def fuelFor (maxDepth : Nat) : Nat := if maxDepth = 0 then unlimitedDepth else maxDepth + 1

/-- Runs of a compiled program on stacks that are alike have the same outcome, where the second may nest
blocks at least as deep. -/
theorem tracks_run {p : Parser S k} {program : Program S} (h : p.compile rules = .ok program)
    (hcut : ∀ f, K.excused f → cut (.fault f)) {s t : Stack (Object S)} (hst : K.Rel s t)
    {maxDepth maxDepth' : Nat}
    (houtlasts : Outlasts cut maxDepth maxDepth' (fuelFor maxDepth) (fuelFor maxDepth') 0)
    (reader : Reader S.Token) :
    Tracks cut Eq (program.run rules k reader s maxDepth) (program.run rules k reader t maxDepth') := by
  obtain ⟨bytes, cells, hprogram, hcode⟩ := (p.yields_compile).post_of_eq_ok h
  rw [run, run, hprogram.code.bytes_eq]
  have blocks := lockstep_runBlock rules hcut houtlasts p hprogram.pool hprogram.pool hcode
    (fun _ _ h => h) ⟨reader, hst⟩
  exact blocks.bind fun r r' h => tracks_lift hcut (tracks_finish h)

end Program

end ParserMachine
