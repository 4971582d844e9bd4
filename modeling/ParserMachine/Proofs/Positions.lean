import ParserMachine.Proofs.Machine.Points
import ParserMachine.Proofs.Parse

/-!
# Positions that a parse tells

Nothing checks while a program runs that a cursor is at a place of the input, that a line begins where its
line and column say, or that a span does not reach beyond the last token; and a choice or an attempt puts
back cursors that were saved long before. `Program.compiled_placed` says that for a compiled parser all
this is so at every point of every run, the parsers that functions make included, and so of every position
that an outcome or an error tells.
-/

set_option autoImplicit false

namespace ParserMachine

open Machine

variable {S : Signature} {input : Input S.Token}

/-- Where a parse stopped, and where its error is if it has one, are places of the input. -/
structure Outcome.Placed {α : Type} (input : Input S.Token) (o : Outcome S.Custom S.Token α) : Prop where
  position : o.position.toCursor.Placed input
  error {e : S.Error} : o.error? = some e → e.position.toCursor.Placed input

namespace Machine

/-- What the machine shows of places fits the input: the cursor of its reader, the cursors and spans
anywhere on its stack, those of pending error frames among them, and the position of the error that the
frame on top would be told as. -/
structure State.Placed (input : Input S.Token) (st : State S) : Prop where
  input_eq : st.reader.input = input
  cursor : st.reader.cursor.Placed input
  pending {depth : Nat} {place : Cursor} : st.stack.peekAt? depth = some place → place.Placed input
  span {depth : Nat} {span : Span} : st.stack.peekAt? depth = some span →
    span.stop ≤ input.size ∧ ∃ run, span.of input = .ok run
  error {e : S.Error} {stack : Stack (Object S)} : Frame.popError st.reader st.stack = .ok (e, stack) →
    e.position.toCursor.Placed input

/-- The machine has come to one that is placed and not further back, so what was matched between the two is
counted by the difference of their offsets. -/
structure State.Proceeds (input : Input S.Token) (st : State S) (r : Reply × State S) : Prop where
  placed : r.2.Placed input
  offset_le : st.reader.offset ≤ r.2.reader.offset
  matched : (r.2.reader.cursor.offset - st.reader.cursor.offset).toNat =
    r.2.reader.offset - st.reader.offset

/-- What can be read of a sound machine is placed in the input. -/
theorem State.Sound.placed {st : State S} (h : st.Sound input) : st.Placed input where
  input_eq := h.input_eq
  cursor := h.cursor
  pending hpeek := by
    obtain ⟨c, hc, hvalue⟩ := h.stack.of_peekAt? hpeek
    exact hc.cursor hvalue
  span hpeek := by
    obtain ⟨c, hc, hvalue⟩ := h.stack.of_peekAt? hpeek
    have within := hc.span hvalue
    exact ⟨within, _, if_pos within⟩
  error hpop := ((Frame.sound_popError h.stack h.input_eq).post_of_eq_ok hpop).1

/-- A machine that went onward has consumed what its offsets say. -/
theorem State.Onward.proceeds {st : State S} {r : Reply × State S} (h : st.Onward input r) :
    st.Proceeds input r where
  placed := h.sound.placed
  offset_le := h.offset_le
  matched := UInt64.toNat_sub_of_le _ _ (UInt64.le_iff_toNat_le.2 h.offset_le)

/-- The positions of an outcome are those of the machine that it was made of. -/
theorem placed_finish {st : State S} (h : st.Sound input) (k : Kind S.Base) (reply : Reply) :
    Ensures (finish k reply st) (·.Placed input) := by
  have here : st.reader.position.toCursor.Placed input := h.cursor
  unfold finish
  cases reply with
  | ok =>
    refine Ensures.andThen fun r _ => ?_
    simp only [pure_bind]
    split
    · exact ⟨here, fun he => nomatch he⟩
    · trivial
  | err =>
    refine (Frame.sound_popError h.stack h.input_eq).bind fun r hr => ?_
    simp only [pure_bind]
    split
    · refine ⟨here, ?_⟩
      rintro _ ⟨⟩
      exact hr.1
    · trivial

end Machine

namespace Program

variable {rules : Grammar S} {k : Kind S.Base} {p : Parser S k} {program : Program S}

/-- The block that a parse runs, with the machine before it. -/
def start (program : Program S) (input : Input S.Token) (scratch : Option (Array UInt8)) (name : String)
    (config : Config) : Block S :=
  ⟨program.code.bytes, program.pool, 0, ⟨.ofInput input name, freshStack scratch config, 0⟩⟩

/-- A parse starts with a sound machine. -/
theorem sound_start (compiled : p.compile rules = .ok program) (input : Input S.Token)
    (scratch : Option (Array UInt8)) (name : String) (config : Config) :
    (program.start input scratch name config).Sound input where
  pool := (p.isPlain_compile rules).post_of_eq_ok compiled
  state := ⟨rfl, .start input, (holds_freshStack scratch config).each fun _ hc => nomatch hc⟩

/-- The program of a parser, run on any input under any limits. At every point of the run, and after every
instruction and every block, the places that the machine shows fit the input. No instruction and no block
goes back behind where it began. So the positions that the parse tells are places of the input, and no range
that it takes lies outside. -/
theorem compiled_placed (compiled : p.compile rules = .ok program) (input : Input S.Token)
    (scratch : Option (Array UInt8)) (name : String) (config : Config) :
    (∀ fuel left point,
      Passes rules config.maxRecursionDepth fuel (program.start input scratch name config) left point →
        point.state.Placed input ∧
        Ensures (point.step (runBlock rules config.maxRecursionDepth left) rules)
          (point.state.Proceeds input ·) ∧
        ∀ inner, point.Asks (runBlock rules config.maxRecursionDepth left) rules inner →
          inner.state.Placed input ∧
          Ensures (inner.runBy (runBlock rules config.maxRecursionDepth left))
            (inner.state.Proceeds input ·)) ∧
    (∀ fuel,
      Ensures ((program.start input scratch name config).runBy
          (runBlock rules config.maxRecursionDepth fuel))
        ((program.start input scratch name config).state.Proceeds input ·)) ∧
    Ensures (program.parseWith rules k input scratch name config) (·.Placed input) ∧
    program.parseWith rules k input scratch name config ≠ .error (.fault .rangeOutside) := by
  have start := sound_start compiled input scratch name config
  have runs (fuel : Nat) := onward_runBlock input rules config.maxRecursionDepth fuel
  refine ⟨?_, ?_, ?_, ?_⟩
  · intro fuel left point passes
    have sound := passes.sound start
    refine ⟨sound.state.placed, ?_, ?_⟩
    · exact (onward_step (runs left) sound.pool sound.state rules point.code point.offset).mono
        fun _ onward => onward.proceeds
    · intro inner hasks
      have within := hasks.sound (runs left) sound
      exact ⟨within.state.placed,
        (runs left _ _ _ _ within.pool within.state).mono fun _ onward => onward.proceeds⟩
  · intro fuel
    exact (runs fuel _ _ _ _ start.pool start.state).mono fun _ onward => onward.proceeds
  · rw [parseWith_eq]
    split
    · trivial
    · have told : Ensures (program.run rules k (.ofInput input name) (freshStack scratch config)
          config.maxRecursionDepth) (·.Placed input) := by
        refine (runs _ _ _ _ _ start.pool start.state).bind ?_
        rintro ⟨reply, st⟩ onward
        exact (placed_finish onward.sound k reply).lift
      exact told.mapError fun _ _ => trivial
  · intro outside
    -- A parse has no faults but those of a stack that overflows and of a parser that cannot be built.
    have exhausted := (parseWith_agrees compiled input scratch name config).allowed_of_eq_error outside
    rcases exhausted with overflow | refusal
    · exact overflow
    · exact refusal

end Program

/-! ### A line break that is looked at -/

/-- A line break, and back before it. -/
def peekedBreak : Parser .characters .token := .lookAhead .newline

/-- A line break. -/
def breakInput : Input Char := ⟨#['\n'], by decide⟩

/-- The line break is a block of its own, within that of the program, and behind it a line begins. -/
theorem Program.compiled_placed_of_peekedBreak : ∃ program, peekedBreak.compile noRules = .ok program ∧
    ∃ point st, Passes noRules 0 3 (program.start breakInput (some #[]) "text" .unbounded) 1 point ∧
      point.step (runBlock noRules 0 1) noRules = .ok (.ok, st) ∧ st.reader.cursor = ⟨1, 2, 1⟩ ∧
        st.Placed breakInput := by
  have ran : (peekedBreak.compile noRules).toOption.map (fun program => (program.code.bytes,
      (Machine.step (runBlock noRules 0 1) noRules [Opcode.newline.byte, 0, 0] program.pool 0
        ⟨.ofInput breakInput "text", freshStack (some #[]) .unbounded, 2⟩).toOption.map
          fun r => (r.1, r.2.reader.cursor))) =
      some ([Opcode.lookAhead.byte, 3, 0, 0, 0, Opcode.newline.byte, 0, 0], some (.ok, ⟨1, 2, 1⟩)) := by
    decide +kernel
  obtain ⟨program, compiled, ran⟩ := exists_of_map_toOption ran
  obtain ⟨bytes, came⟩ := Prod.ext_iff.1 ran
  obtain ⟨⟨reply, st⟩, hstep, ended⟩ := exists_of_map_toOption came
  obtain ⟨replied, behind⟩ := Prod.ext_iff.1 ended
  obtain rfl : reply = .ok := replied
  have code : program.code.bytes = _ := bytes
  have allowed (depth : Nat) : ¬TooDeep 0 depth := fun h => Nat.lt_irrefl 0 h.1
  have fetched : (liftM (Bytecode.opcodeAt program.code.bytes) : Except Fault Opcode) = .ok .lookAhead := by
    rw [code]
    rfl
  have wraps : wrapped program.code.bytes 5 1 = .ok [Opcode.newline.byte, 0, 0] := by
    rw [code]
    rfl
  have asks : (program.start breakInput (some #[]) "text" .unbounded).entered.Asks (runBlock noRules 0 2)
      noRules { (program.start breakInput (some #[]) "text" .unbounded).entered with
        code := [Opcode.newline.byte, 0, 0] } :=
    Block.asks_wrapped fetched (by decide) wraps
  have inside := Passes.within (.enter (allowed _)) asks (.enter (allowed _))
  obtain ⟨-, proceeds, -⟩ :=
    (compiled_placed compiled breakInput (some #[]) "text" .unbounded).1 3 1 _ inside
  exact ⟨program, compiled, _, st, inside, hstep, behind, (proceeds.post_of_eq_ok hstep).placed⟩

end ParserMachine
