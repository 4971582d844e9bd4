import ParserMachine.Proofs.Machine.Lockstep
import ParserMachine.Proofs.Machine.Soundness

/-!
# Machines that go on

Instructions that wrap blocks save a cursor, and put it back, or keep where the block has come to. A block
of a sound machine leaves it sound and no further back than where it began (`Machine.RunsOnward`), and so
does every instruction around it, whatever code the instruction is part of. By induction on the code and on
how deep blocks are nested, `Machine.runBlock` itself is such a runner.

All this asks of the constants of a program is that they are plain, and those of parsers are
(`Parser.isPlain_compile`).
-/

set_option autoImplicit false

namespace ParserMachine

open Machine

variable {S : Signature} {input : Input S.Token}

/-! ### Constants of programs -/

namespace Program

variable {p q : Program S}

/-- The empty program has no constants, so they are all plain. -/
theorem isPlain_empty : (empty : Program S).pool.IsPlain :=
  ⟨[], Stack.represents_new, fun _ hc => nomatch hc⟩

/-- A value that is neither a span nor a cursor may be added to the constants. -/
theorem isPlain_addValue {α : Type} [Inline α] (h : p.pool.IsPlain) {a : α}
    (ha : (.ofValue a : Cell (Object S)).IsPlain) :
    Ensures (p.addValue a) (·.2.pool.IsPlain) :=
  .andThen fun _ _ => (h.push ha).bind fun _ ht => ht

/-- Any object may be added to the constants. -/
theorem isPlain_addObject (h : p.pool.IsPlain) (o : Object S) :
    Ensures (p.addObject o) (·.2.pool.IsPlain) :=
  .andThen fun _ _ => (h.pushObject (Cell.isPlain_object o)).bind fun _ ht => ht

/-- An instruction whose inline constant is neither a span nor a cursor has plain constants. -/
theorem isPlain_ofValue {α : Type} [Inline α] (op : Opcode) {a : α}
    (ha : (.ofValue a : Cell (Object S)).IsPlain) :
    Ensures (ofValue op a : Except Fault (Program S)) (·.pool.IsPlain) :=
  (isPlain_addValue isPlain_empty ha).bind fun _ h => h

/-- An instruction with an object constant has plain constants. -/
theorem isPlain_ofObject (op : Opcode) (o : Object S) :
    Ensures (ofObject op o) (·.pool.IsPlain) :=
  (isPlain_addObject isPlain_empty o).bind fun _ h => h

/-- An applied function adds its routine and itself, which are both plain. -/
theorem isPlain_invoke (h : p.pool.IsPlain) (op : Opcode) (routine : Dispatcher) (function : Object S) :
    Ensures (p.invoke op routine function) (·.pool.IsPlain) := by
  have plain : (.ofValue routine : Cell (Object S)).IsPlain :=
    Cell.isPlain_ofValue routine (by decide) (by decide)
  refine (isPlain_addValue h plain).bind ?_
  intro r hr
  exact (isPlain_addObject hr function).bind fun _ ht => ht

/-- Wrapping a program in an instruction leaves its constants as they are. -/
theorem isPlain_wrap (h : p.pool.IsPlain) (op : Opcode) : Ensures (p.wrap op) (·.pool.IsPlain) :=
  .andThen fun _ _ => h

/-- Wrapping a program beside one of its constants leaves the constants as they are. -/
theorem isPlain_wrapWith (h : p.pool.IsPlain) (op : Opcode) (id : UInt16) :
    Ensures (p.wrapWith op id) (·.pool.IsPlain) :=
  .andThen fun _ _ => h

/-- The constants of a choice are those of its two sides, and plain if they are. -/
theorem isPlain_or (h : p.pool.IsPlain) (h' : q.pool.IsPlain) : Ensures (p.or q) (·.pool.IsPlain) :=
  .andThen fun _ _ => (h.append h').bind fun _ ht => Ensures.andThen fun _ _ => ht

end Program

/-- The constants of a compiled parser are plain. -/
theorem Parser.isPlain_compile (rules : Grammar S) {k : Kind S.Base} (p : Parser S k) :
    Ensures (p.compile rules) (·.pool.IsPlain) := by
  induction p with
  | pure | error | tokens | satisfy | oneOf | noneOf | takeWhile | takeWhile1 | newline =>
    exact Program.isPlain_ofObject _ _
  | token t => exact Program.isPlain_ofValue _ (Cell.isPlain_token t)
  | take n => exact .andThen fun _ _ => Program.isPlain_empty
  | take1 | eof => exact Program.isPlain_empty
  | map p f ih => exact ih.bind fun _ h => Program.isPlain_invoke h _ _ _
  | bind p f ih => exact ih.bind fun _ h => Program.isPlain_invoke h _ _ _
  | selectMany p f project ih =>
    exact ih.bind fun _ h => (Program.isPlain_invoke h _ _ _).bind fun _ h => Program.isPlain_invoke h _ _ _
  | or p q ihp ihq => exact ihp.bind fun _ h => ihq.bind fun _ h' => Program.isPlain_or h h'
  | «try» p ih | hidden p ih | lookAhead p ih | notFollowedBy p ih =>
    exact ih.bind fun _ h => Program.isPlain_wrap h _
  | label name p ih =>
    exact ih.bind fun _ h => (Program.isPlain_addObject h _).bind fun _ h => Program.isPlain_wrapWith h _ _
  | observing p ih =>
    have plain : (.ofValue Observer.observe : Cell (Object S)).IsPlain :=
      Cell.isPlain_ofValue _ (by decide) (by decide)
    exact ih.bind fun _ h => (Program.isPlain_addValue h plain).bind fun _ h => Program.isPlain_wrapWith h _ _
  | rule r => exact (Program.isPlain_ofObject _ _).bind fun _ h => Program.isPlain_invoke h _ _ _

/-- What was pushed last is a program only if its constants are plain. -/
def Stack.MadePlain (s : Stack (Object S)) : Prop :=
  ∀ made : Program S, s.peekObject? = some made → made.pool.IsPlain

namespace Machine

variable {st : State S} {pool : Stack (Object S)} {id : Nat}

/-- Going onward twice is going onward. -/
theorem State.Onward.trans {a b : State S} {reply : Reply} {r : Reply × State S}
    (h : a.Onward input (reply, b)) (h' : b.Onward input r) : a.Onward input r :=
  ⟨h'.sound, Nat.le_trans h.offset_le h'.offset_le⟩

/-- A machine that goes back to where it was, with what was pushed since. -/
theorem State.Sound.restore (h : st.Sound input) {st' : State S} (h' : st'.Sound input) (reply : Reply) :
    st.Onward input (reply, ⟨st'.reader.restore st.reader.cursor, st'.stack, st'.depth⟩) :=
  ⟨⟨h'.input_eq, h.cursor, h'.stack⟩, Nat.le_refl _⟩

/-- A machine that stays where it has come to, with another sound stack. -/
theorem State.Onward.stay {reply : Reply} {st' : State S} (h : st.Onward input (reply, st'))
    {stack : Stack (Object S)} (hstack : stack.Sound input) (reply' : Reply) (depth : Nat) :
    st.Onward input (reply', ⟨st'.reader, stack, depth⟩) :=
  ⟨⟨h.sound.input_eq, h.sound.cursor, hstack⟩, h.offset_le⟩

/-! ### Functions -/

section Functions

variable {s : Stack (Object S)} (h : s.Sound input)
include h

/-- What is left when a function is taken off a sound stack is sound. -/
theorem sound_takeFunction : Ensures (takeFunction s) (·.2.Sound input) := by
  rw [takeFunction]
  split
  · exact h.pop.bind fun _ ht => ht
  · trivial

/-- What is left when a result is taken off a sound stack is sound. -/
theorem sound_takeValue (w : Input S.Token) (k : Kind S.Base) :
    Ensures (takeValue w s k) (·.2.Sound input) :=
  .andThen fun _ _ => h.pop.bind fun _ ht => ht

/-- An object that is pushed keeps the stack sound. If it is a program, its constants have to be known
to be plain. -/
theorem sound_pushMade {o : Object S}
    (hplain : ∀ made : Program S, Boxed.unbox o = some made → made.pool.IsPlain) :
    Ensures (s.pushObject o) fun t => t.Sound input ∧ t.MadePlain := by
  refine ((h.pushBoxed o).and (h.peekObject?_pushObject (α := Program S) o)).mono ?_
  rintro t ⟨sound, top⟩
  exact ⟨sound, fun made hmade => hplain made (top ▸ hmade)⟩

/-- What a routine pushes is a result, or a parser that it has just compiled. -/
theorem sound_dispatch (rules : Grammar S) (w : Input S.Token) (routine : Dispatcher) :
    Ensures (dispatch rules w routine s) fun t => t.Sound input ∧ t.MadePlain := by
  have datum (d : Datum S) (made : Program S) (hmade : Boxed.unbox (Object.datum d) = some made) :
      made.pool.IsPlain := nomatch hmade
  have program {k : Kind S.Base} (p : Parser S k) : Ensures (build rules p) fun q =>
      ∀ made : Program S, Boxed.unbox (Object.program q.code q.pool) = some made → made.pool.IsPlain := by
    refine ((p.isPlain_compile rules).mapError fun _ _ => trivial).mono ?_
    rintro q hq made hmade
    cases hmade
    exact hq
  refine (sound_takeFunction h).lift.bind ?_
  rintro ⟨function, t⟩ ht
  dsimp only
  -- One case for each routine that fits its function, and one for all that do not.
  split
  · refine (sound_takeValue ht w _).lift.bind ?_
    rintro ⟨v, u⟩ hu
    exact (sound_pushMade hu (datum _)).lift
  · refine (sound_takeValue ht w _).lift.bind ?_
    rintro ⟨v, u⟩ hu
    exact (program _).bind fun q hq => (sound_pushMade hu hq).lift
  · refine Ensures.andThen fun v _ => ?_
    exact (program _).bind fun q hq => (sound_pushMade ht hq).lift
  · refine (sound_takeValue ht w _).lift.bind ?_
    rintro ⟨second, u⟩ hu
    refine (sound_takeValue hu w _).lift.bind ?_
    rintro ⟨first, u'⟩ hu'
    exact (sound_pushMade hu' (datum _)).lift
  · trivial

end Functions

/-- Applying a function moves no reader and leaves the stack sound. A program that it makes was
compiled, and so has plain constants. -/
theorem onward_invoke (h : st.Sound input) (hpool : pool.IsPlain) (rules : Grammar S) (code : List UInt8)
    (offset : Nat) : Ensures (invoke rules code pool offset st) fun t =>
      st.Onward input (.ok, t) ∧ t.stack.MadePlain := by
  obtain ⟨reader, stack, depth⟩ := st
  refine Ensures.andThen fun _ _ => Ensures.andThen fun routine _ => Ensures.andThen fun functionId _ => ?_
  refine (h.stack.pushConstant hpool functionId).lift.bind ?_
  intro t ht
  refine (sound_dispatch ht rules reader.input routine).bind ?_
  rintro u ⟨sound, made⟩
  exact ⟨h.stay sound _ _, made⟩

/-! ### Blocks -/

/-- The runner takes a sound machine on, whatever code it is given, as long as the constants are plain. -/
def RunsOnward (input : Input S.Token) (run : BlockRunner S) : Prop :=
  ∀ (code : List UInt8) (pool : Stack (Object S)) (offset : Nat) (st : State S),
    pool.IsPlain → st.Sound input → Ensures (run code pool offset st) (st.Onward input ·)

/-- Running the program on top goes onward if running blocks does: its constants are plain. -/
theorem onward_runMade {run : BlockRunner S} (hrun : RunsOnward input run) (h : st.Sound input)
    (hmade : st.stack.MadePlain) : Ensures (runMade run st) (st.Onward input ·) := by
  obtain ⟨reader, stack, depth⟩ := st
  refine (h.stack.takeObject?).lift.bind ?_
  intro taken htaken
  match taken with
  | none => trivial
  | some (program, t) =>
    obtain ⟨sound, top⟩ := htaken program t rfl
    have onward := hrun program.code.bytes program.pool 0 ⟨reader, t, depth⟩ (hmade program top)
      ⟨h.input_eq, h.cursor, sound⟩
    exact onward.mono fun r hr => ⟨hr.sound, hr.offset_le⟩

/-- What lies between two places of a run is a span of the input. -/
theorem State.Onward.stop_between {reply : Reply} {st' : State S} (h : st.Onward input (reply, st')) :
    (⟨st.reader.cursor.offset, st'.reader.cursor.offset - st.reader.cursor.offset⟩ : Span).stop =
      st'.reader.offset := by
  have before : st.reader.cursor.offset ≤ st'.reader.cursor.offset :=
    UInt64.le_iff_toNat_le.2 h.offset_le
  rw [Span.stop, UInt64.toNat_sub_of_le _ _ before]
  exact Nat.add_sub_of_le h.offset_le

section Blocks

variable {run : State S → Except Stop (Reply × State S)} (h : st.Sound input)
  (hrun : Ensures (run st) (st.Onward input ·))
include h hrun

/-- A tried block goes onward: where it goes back, it goes back to its own start. -/
theorem onward_tryBlock : Ensures (tryBlock run st) (st.Onward input ·) := by
  refine hrun.bind ?_
  rintro ⟨reply, st'⟩ onward
  dsimp only
  split
  · exact h.restore onward.sound reply
  · exact onward

/-- A block that is looked at goes onward: it goes back to its own start. -/
theorem onward_lookAhead : Ensures (lookAhead run st) (st.Onward input ·) := by
  refine hrun.bind ?_
  rintro ⟨reply, st'⟩ onward
  dsimp only
  split
  · exact h.restore onward.sound reply
  · exact onward

/-- A block that is not to follow goes onward: it goes back to its own start, and the span of what it
matched lies in the input. -/
theorem onward_notFollowedBy : Ensures (notFollowedBy run st) (st.Onward input ·) := by
  refine hrun.bind ?_
  rintro ⟨reply, st'⟩ onward
  cases reply with
  | err =>
    refine (Frame.sound_discard onward.sound.stack).lift.bind ?_
    intro t ht
    refine (Stack.Sound.pushUnit ht).lift.bind ?_
    intro u hu
    exact h.restore (onward.stay hu .ok st'.depth).sound _
  | ok =>
    -- What the block matched begins where it began and ends where it ended.
    have matched : (⟨st.reader.cursor.offset, st'.reader.cursor.offset - st.reader.cursor.offset⟩ :
        Span).stop ≤ input.size := by
      rw [onward.stop_between]
      exact onward.sound.cursor.offset_le
    refine onward.sound.stack.pop.lift.bind ?_
    intro t ht
    have restored : State.Sound input ⟨st'.reader.restore st.reader.cursor, t, st'.depth⟩ :=
      ⟨onward.sound.input_eq, h.cursor, ht⟩
    refine Ensures.lift (Yields.mono (onward_refuse restored ?_) fun r hr => ⟨hr.1.sound, hr.1.offset_le⟩)
    intro s hs
    split
    · exact Frame.sound_unexpectedSpan hs matched
    · exact Frame.sound_unexpected hs _

omit h in
/-- A labelled block goes onward: only the frame that it may have left is edited. -/
theorem onward_labelled (hpool : pool.IsPlain) (label : Option Nat) :
    Ensures (labelled run pool label st) (st.Onward input ·) := by
  refine hrun.bind ?_
  rintro ⟨reply, st'⟩ onward
  dsimp only
  split
  · refine (Frame.sound_stripExpected onward.sound.stack).lift.bind ?_
    intro t ht
    cases label with
    | some id => exact (Frame.sound_relabel ht hpool id).lift.bind fun u hu => onward.stay hu _ _
    | none => exact onward.stay ht _ _
  · exact onward

omit h in
/-- A choice goes onward if each of its sides does, from wherever it is entered. -/
theorem onward_choice {right : State S → Except Stop (Reply × State S)}
    (hright : ∀ st', st'.Sound input → Ensures (right st') (st'.Onward input ·)) :
    Ensures (choice run right st) (st.Onward input ·) := by
  refine hrun.bind ?_
  rintro ⟨reply, st'⟩ onward
  dsimp only
  split
  · exact ⟨onward.sound, onward.offset_le⟩
  split
  · exact ⟨onward.sound, onward.offset_le⟩
  · refine (hright st' onward.sound).bind ?_
    rintro ⟨reply', st''⟩ onward'
    have both := onward.trans onward'
    -- Of the frame of the left block nothing is needed but that its cells are sound.
    cases reply' with
    | ok => exact (Frame.sound_discardUnder both.sound.stack 1).lift.bind fun t ht => both.stay ht _ _
    | err => exact (Frame.sound_mergeTop both.sound.stack).lift.bind fun t ht => both.stay ht _ _

omit h in
/-- An observed block goes onward: its value or its frame makes room for an object. -/
theorem onward_observing : Ensures (observing run st) (st.Onward input ·) := by
  refine hrun.bind ?_
  rintro ⟨reply, st'⟩ onward
  cases reply with
  | ok =>
    refine Ensures.andThen fun found _ => ?_
    cases found with
    | none => trivial
    | some d =>
      refine onward.sound.stack.pop.lift.bind ?_
      intro t ht
      exact (Stack.Sound.pushBoxed ht _).lift.bind fun u hu => onward.stay hu _ _
  | err =>
    refine (Frame.sound_popError onward.sound.stack onward.sound.input_eq).lift.bind ?_
    rintro ⟨e, t⟩ ⟨-, ht⟩
    exact (Stack.Sound.pushBoxed ht _).lift.bind fun u hu => onward.stay hu _ _

end Blocks

/-! ### Programs -/

variable {run : BlockRunner S} {rules : Grammar S}

/-- One instruction, of whatever code. -/
theorem onward_step (hrun : RunsOnward input run) (hpool : pool.IsPlain) (h : st.Sound input)
    (rules : Grammar S) (code : List UInt8) (offset : Nat) :
    Ensures (step run rules code pool offset st) (st.Onward input ·) := by
  have block (body : List UInt8) (offset : Nat) (st : State S) (h : st.Sound input) :
      Ensures (run body pool offset st) (st.Onward input ·) := hrun body pool offset st hpool h
  refine Ensures.andThen fun op _ => ?_
  -- One case for each instruction. What its operands and constants are makes no difference.
  cases op with
  | pure =>
    obtain ⟨reader, stack, depth⟩ := st
    refine Ensures.andThen fun id _ => ?_
    exact (h.stack.pushConstant hpool id).lift.bind fun t ht => h.stay ht _ _
  | error =>
    refine Ensures.andThen fun id _ => ?_
    refine Ensures.lift (Yields.mono (onward_refuse h fun s hs => ?_) fun r hr => hr.1)
    exact Frame.sound_complaint hs hpool id
  | token => exact Ensures.andThen fun id _ => (onward_token h hpool id).lift
  | tokens => exact Ensures.andThen fun id _ => (onward_tokens h hpool id).lift
  | take1 => exact (onward_take1 h).lift
  | takeN => exact Ensures.andThen fun count _ => (onward_takeN h count).lift
  | takeWhile => exact Ensures.andThen fun id _ => (onward_takeWhile h id _).lift
  | takeWhile1 => exact Ensures.andThen fun id _ => (onward_takeWhile h id _).lift
  | satisfy =>
    refine Ensures.andThen fun id _ => Ensures.lift (Ensures.andThen fun p _ => ?_)
    exact onward_takeIf h _ fun s hs => hs
  | oneOf =>
    refine Ensures.andThen fun id _ => Ensures.lift (Ensures.andThen fun set _ => ?_)
    exact onward_takeIf h _ fun s hs => Frame.sound_expectedEach hs set
  | noneOf =>
    refine Ensures.andThen fun id _ => Ensures.lift (Ensures.andThen fun set _ => ?_)
    exact onward_takeIf h _ fun s hs => hs
  | eof => exact (onward_eof h).lift
  | newline => exact Ensures.andThen fun id _ => (onward_newline h hpool id).lift
  | invoke => exact (onward_invoke h hpool rules code offset).bind fun t ht => ht.1
  | invokeM =>
    refine (onward_invoke h hpool rules code offset).bind fun t ht => ?_
    exact (onward_runMade hrun ht.1.sound ht.2).mono fun r hr => ht.1.trans hr
  | «try» => exact Ensures.andThen fun body _ => onward_tryBlock h (block body offset st h)
  | or =>
    refine Ensures.andThen fun _ _ => Ensures.andThen fun _ _ => Ensures.andThen fun shift _ => ?_
    refine Ensures.andThen fun left _ => Ensures.andThen fun right _ => ?_
    exact onward_choice (block left offset st h) fun st' => block right (offset + shift) st'
  | label =>
    refine Ensures.andThen fun body _ => Ensures.andThen fun id _ => ?_
    exact onward_labelled (block body offset st h) hpool (some id)
  | hidden => exact Ensures.andThen fun body _ => onward_labelled (block body offset st h) hpool none
  | lookAhead => exact Ensures.andThen fun body _ => onward_lookAhead h (block body offset st h)
  | notFollowedBy => exact Ensures.andThen fun body _ => onward_notFollowedBy h (block body offset st h)
  | observing =>
    refine Ensures.andThen fun body _ => Ensures.andThen fun _ _ => Ensures.andThen fun _ _ => ?_
    exact onward_observing (block body offset st h)

/-- Dropping what failed blocks have left keeps the stack sound. -/
theorem sound_dropPartial {s : Stack (Object S)} (h : s.Sound input) (base : Nat) :
    Ensures (dropPartial base s) (·.Sound input) := by
  refine Ensures.andThen fun frame _ => ?_
  split
  · trivial
  · exact h.dropUnder _ _

/-- All instructions of a block, whatever they are. -/
theorem onward_runSteps (hrun : RunsOnward input run) (hpool : pool.IsPlain) {code : List UInt8}
    (h : st.Sound input) (rules : Grammar S) (offset base : Nat) :
    Ensures (runSteps run rules pool offset base code st) (st.Onward input ·) := by
  -- By induction on the code that is left: what one instruction leaves is sound for the next.
  fun_induction runSteps run rules pool offset base code st with
  | case1 code st hempty => exact ⟨h, Nat.le_refl _⟩
  | case2 => trivial
  | case3 code st _ reader stack depth hstep =>
    have onward := (onward_step hrun hpool h rules code offset).post_of_eq_ok hstep
    exact (sound_dropPartial onward.sound.stack base).lift.bind fun t ht => onward.stay ht _ _
  | case4 => trivial
  | case5 code st _ st' hstep size hsize _ ih =>
    have onward := (onward_step hrun hpool h rules code offset).post_of_eq_ok hstep
    exact (ih onward.sound).mono fun r hr => onward.trans hr

/-- A run of a block, however deep blocks are nested. -/
theorem onward_runBlock (input : Input S.Token) (rules : Grammar S) (maxDepth fuel : Nat) :
    RunsOnward input (runBlock rules maxDepth fuel) := by
  induction fuel with
  | zero =>
    intro code pool offset st hpool h
    trivial
  | succ fuel ih =>
    rintro code pool offset ⟨reader, stack, depth⟩ hpool h
    by_cases hdeep : TooDeep maxDepth depth
    · rw [runBlock_of_tooDeep hdeep]
      trivial
    · rw [runBlock_of_not_tooDeep hdeep]
      have entered : State.Sound input ⟨reader, stack, depth + 1⟩ := ⟨h.input_eq, h.cursor, h.stack⟩
      refine (onward_runSteps ih hpool entered rules offset stack.count).bind ?_
      rintro ⟨reply, st'⟩ onward
      exact ⟨⟨onward.sound.input_eq, onward.sound.cursor, onward.sound.stack⟩, onward.offset_le⟩

end Machine

end ParserMachine
