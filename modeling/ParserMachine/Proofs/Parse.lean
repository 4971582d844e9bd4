import ParserMachine.Proofs.Machine.Lockstep
import ParserMachine.Proofs.Machine.Stops

/-!
# Parsing agrees with evaluation

A parse under any configuration has the outcome that the evaluator gives the expression, unless something
runs out (`parseWith_agrees`). `parseNamed_agrees` is that without limits on input and nesting: the
value or the error, whether input was consumed, and the position at the end are those of the evaluator,
whatever the parser, the input and the name of its source.

What can run out is told by `Halt.IsExhaustion`. Everything else that the machine checks on its way holds
of compiled programs. That blocks nest without end is told only where they do so in the evaluation
itself (`Parser.NestsEndlessly`), so no parse is given up that the evaluator ends in any nesting of blocks
that a machine could hold; `Parser.Ends.exists_nested` says that there is such a nesting.
-/

set_option autoImplicit false

namespace ParserMachine

open Machine
open Stack (Likeness)

/-- Evaluation nests more blocks within each other than there may be in a run without a limit. -/
def Parser.NestsEndlessly {S : Signature} {k : Kind S.Base} (rules : Grammar S) (p : Parser S k)
    (w : Reader S.Token) : Prop :=
  p.nested rules 0 unlimitedDepth 0 w = .error .endless

/-- The halt of a parse that needed more than there was. Only limits that are set count, and where
nesting is limited it is not the second argument, that blocks nest without end, that stops a parse. -/
def Halt.IsExhaustion (config : Config) (nesting : Prop) : Halt → Prop
  | limit (.inputTooLarge size most) =>
    most = config.maxInputSize ∧ 0 < most ∧ most < size
  | limit (.recursionTooDeep depth most) =>
    most = config.maxRecursionDepth ∧ 0 < most ∧ most < depth
  | endless => config.maxRecursionDepth = 0 ∧ nesting
  | fault f => f.IsUnbuildable

/-- The halt of a parse whose run was stopped. -/
def Halt.ofStop (maxDepth : Nat) : Stop → Halt
  | .tooDeep depth => .limit (.recursionTooDeep depth maxDepth)
  | .endless => .endless
  | .unbuilt f | .fault f => .fault f

/-- What is known of the nesting may be weakened. -/
theorem Halt.IsExhaustion.imp {config : Config} {nesting nesting' : Prop} {halt : Halt}
    (h : halt.IsExhaustion config nesting) (himp : nesting → nesting') :
    halt.IsExhaustion config nesting' := by
  cases halt with
  | limit e => cases e <;> exact h
  | endless => exact ⟨h.1, himp h.2⟩
  | fault f => exact h

namespace Program

variable {S : Signature} {rules : Grammar S} {k : Kind S.Base} {p : Parser S k} {program : Program S}

/-- A parse starts on an empty stack, in new memory or on a given scratch. -/
theorem holds_freshStack (scratch : Option (Array UInt8)) (config : Config) :
    (freshStack scratch config : Stack (Object S)).Holds [] := by
  cases scratch with
  | none => exact (Stack.represents_withCapacity _).withLimit _
  | some bytes => exact (Stack.represents_ofScratch bytes).withLimit _

/-- A run is given fuel for all the blocks that its limit allows. -/
theorem nestsEndlessly_of_runsDry {maxDepth fuel : Nat} {w : Reader S.Token}
    (hfuel : fuel = if maxDepth = 0 then unlimitedDepth else maxDepth + 1)
    (dry : Parser.RunsDry maxDepth fuel 0)
    (h : p.nested rules maxDepth fuel 0 w = .error .endless) :
    maxDepth = 0 ∧ p.NestsEndlessly rules w := by
  -- Under a limit the last block that is allowed still has fuel, so it is not the fuel that ran out.
  by_cases unlimited : maxDepth = 0
  · rw [if_pos unlimited] at hfuel
    subst unlimited hfuel
    exact ⟨rfl, h⟩
  · rw [if_neg unlimited] at hfuel
    have enough := dry (Nat.pos_of_ne_zero unlimited) (by omega)
    omega

/-- A run of a compiled program on an empty stack does what its parser does as the outermost block. -/
theorem simulates_run (h : p.compile rules = .ok program) {stack : Stack (Object S)}
    (hs : stack.Holds []) (maxDepth : Nat) (input : Input S.Token) (name : String) :
    Simulates (fun o e => o = e.outcome)
      (program.run rules k (.ofInput input name) stack maxDepth)
      (p.nested rules maxDepth (if maxDepth = 0 then unlimitedDepth else maxDepth + 1) 0
        (.ofInput input name)) := by
  obtain ⟨code, cells, hprogram, hcode⟩ := (p.yields_compile).post_of_eq_ok h
  have inside := Reader.inside_ofInput input name
  rw [run, hprogram.code.bytes_eq]
  refine (runBlock_loaded rules maxDepth _ 0 p hprogram.pool hcode hs inside).further ?_
  rintro ⟨reply, s⟩ e he ended
  have follows := follows_nested rules maxDepth _ 0 p inside he
  exact .ofFits (.of_eq (finish_ended ended follows) rfl)

/-- A run of a compiled program on an empty stack. -/
theorem run_agrees (h : p.compile rules = .ok program) {stack : Stack (Object S)}
    (hs : stack.Holds []) (maxDepth : Nat) (input : Input S.Token) (name : String) :
    Yields (Stop.IsExhaustion maxDepth (maxDepth = 0 ∧ p.NestsEndlessly rules (.ofInput input name)))
      (program.run rules k (.ofInput input name) stack maxDepth) fun o =>
        ∃ e, p.Ends rules (.ofInput input name) e ∧ o = e.outcome := by
  have simulates := simulates_run h hs maxDepth input name
  -- The fuel counts here only by what running dry means.
  generalize hfuel : (if maxDepth = 0 then unlimitedDepth else maxDepth + 1) = fuel at simulates
  have stops : Yields (Stop.IsExhaustion maxDepth (Parser.RunsDry maxDepth fuel 0))
      (p.nested rules maxDepth fuel 0 (.ofInput input name)) fun _ => True :=
    Parser.yields_nested maxDepth fuel 0 p _
  refine ((simulates.yields stops).weaken ?_).mono ?_
  · intro stop exhausted
    exact exhausted.imp fun ⟨dry, endless⟩ => nestsEndlessly_of_runsDry hfuel.symm dry endless
  · rintro o ⟨e, he, ho⟩
    exact ⟨e, Parser.nested_ends he, ho⟩

/-- A parse that is not too large is a run, whose stops are told as halts. -/
theorem parseWith_eq (program : Program S) (rules : Grammar S) (k : Kind S.Base) (input : Input S.Token)
    (scratch : Option (Array UInt8)) (name : String) (config : Config) :
    program.parseWith rules k input scratch name config =
      if 0 < config.maxInputSize && config.maxInputSize < input.size then
        .error (.limit (.inputTooLarge input.size config.maxInputSize))
      else
        (program.run rules k (.ofInput input name) (freshStack scratch config)
          config.maxRecursionDepth).mapError (Halt.ofStop config.maxRecursionDepth) := by
  simp only [parseWith]
  congr 1
  cases program.run rules k (.ofInput input name) (freshStack scratch config)
    config.maxRecursionDepth with
  | ok outcome => rfl
  | error stop => cases stop <;> rfl

/-- Without limits on input and nesting, a parse is the run alone. -/
theorem parseNamed_eq (program : Program S) (rules : Grammar S) (k : Kind S.Base) (input : Input S.Token)
    (name : String) :
    program.parseNamed rules k input name =
      (program.run rules k (.ofInput input name) (freshStack none .unbounded) 0).mapError
        (Halt.ofStop 0) := by
  rw [parseNamed, parseWith_eq]
  rfl

/-- The main theorem for any configuration: the outcome is that of the evaluator, unless something runs
out. -/
theorem parseWith_agrees (h : p.compile rules = .ok program) (input : Input S.Token)
    (scratch : Option (Array UInt8)) (name : String) (config : Config) :
    Yields (Halt.IsExhaustion config (p.NestsEndlessly rules (.ofInput input name)))
      (program.parseWith rules k input scratch name config) fun o =>
        ∃ e, p.Ends rules (.ofInput input name) e ∧ o = e.outcome := by
  rw [parseWith_eq]
  split
  · next large =>
    rw [Bool.and_eq_true, decide_eq_true_iff, decide_eq_true_iff] at large
    exact ⟨rfl, large⟩
  · refine (run_agrees h (holds_freshStack scratch config) config.maxRecursionDepth input name).mapError
      fun stop exhausted => ?_
    cases stop with
    | tooDeep depth => exact ⟨rfl, exhausted⟩
    | endless => exact exhausted
    | unbuilt f => exact exhausted
    | fault f => exact .inl exhausted

/-- A parser is compiled, unless it is too large, and what it is compiled to parses without limits on
input and nesting: the outcome is that of the evaluator. -/
theorem parseNamed_agrees (rules : Grammar S) (p : Parser S k) :
    Yields Fault.IsUnbuildable (p.compile rules) fun program =>
      ∀ (input : Input S.Token) (name : String),
        Yields (Halt.IsExhaustion .unbounded (p.NestsEndlessly rules (.ofInput input name)))
          (program.parseNamed rules k input name) fun o =>
            ∃ (least : Nat) (e : Ending S k),
              (∀ depth, least ≤ depth → p.evaluate rules depth (.ofInput input name) = some e) ∧
                o = e.outcome := by
  cases h : p.compile rules with
  | error f => exact (p.yields_compile).allowed_of_eq_error h
  | ok program =>
    intro input name
    refine (parseWith_agrees h input none name .unbounded).mono ?_
    rintro o ⟨e, ⟨least, he⟩, ho⟩
    exact ⟨least, e, fun depth hdepth => Parser.evaluate_le hdepth he, ho⟩

end Program

/-! ### A parser of letters -/

/-- Parsers of characters, with no errors, results and rules of the caller's own. -/
abbrev Signature.characters : Signature where
  Token := Char
  Custom := Empty
  Base := Empty
  Value := Empty.elim
  Rule := Empty
  ruleKind := Empty.elim

/-- The grammar without rules. -/
def noRules : Grammar .characters := fun r => r.elim

/-- One of two letters. -/
def letter : Parser .characters .token := .or (.token 'a') (.token 'b')

/-- The second of the letters. -/
def letterInput : Input Char := ⟨#['b'], by decide⟩

/-- The parser of one letter is compiled. -/
theorem exists_compile_letter : ∃ program, letter.compile noRules = .ok program :=
  exists_of_isOk (by decide +kernel)

/-- The choice ends within two blocks. -/
theorem not_nestsEndlessly_letter :
    ¬letter.NestsEndlessly noRules (.ofInput letterInput "text") := by
  have ended : (letter.nested noRules 0 unlimitedDepth 0 (.ofInput letterInput "text")).isOk = true :=
    by decide +kernel
  intro endless
  rw [Parser.NestsEndlessly] at endless
  rw [endless] at ended
  cases ended

namespace Program

/-- The stack of such a parse has room for what the choice leaves on it on its way. -/
theorem exists_parseNamed_letter {program : Program .characters} (h : letter.compile noRules = .ok program) :
    ∃ o, program.parseNamed noRules .token letterInput "text" = .ok o := by
  -- It can grow further than this one, of which it is computed that it has.
  let stack : Stack (Object .characters) :=
    freshStack (some #[7, 7, 7]) { Config.unbounded with maxStackSize := 128 }
  have computed : (letter.compile noRules).toOption.map (fun program =>
      (program.run noRules .token (.ofInput letterInput "text") stack 0).isOk) = some true := by
    decide +kernel
  rw [h] at computed
  obtain ⟨o, ho⟩ := exists_of_isOk (Option.some.inj computed)
  have alike : (Likeness.roomier : Likeness (Object .characters)).Rel stack (freshStack none .unbounded) :=
    Likeness.roomier_rel (holds_freshStack _ _) (holds_freshStack _ _) (by decide +kernel)
  have runs : Tracks Stop.IsOverflow Eq
      (program.run noRules .token (.ofInput letterInput "text") stack 0)
      (program.run noRules .token (.ofInput letterInput "text") (freshStack none .unbounded) 0) :=
    tracks_run h (fun _ overflow => overflow) alike (.refl _ _ _ _) _
  obtain ⟨o', ho', -⟩ := runs.of_eq_ok ho
  exact ⟨o', by rw [parseNamed_eq, ho']; rfl⟩

/-- The input has the second letter, so the first one is refused on the way. -/
theorem parseNamed_agrees_of_letter : ∃ program o, letter.compile noRules = .ok program ∧
    program.parseNamed noRules .token letterInput "text" = .ok o ∧ o.value? = some 'b' ∧
    Yields (Halt.IsExhaustion .unbounded False)
      (program.parseNamed noRules .token letterInput "text") fun o => o.value? = some 'b' := by
  obtain ⟨program, h⟩ := exists_compile_letter
  obtain ⟨o, ho⟩ := exists_parseNamed_letter h
  have agrees := (parseNamed_agrees noRules letter).post_of_eq_ok h letterInput "text"
  suffices hvalue : Yields (Halt.IsExhaustion .unbounded False)
      (program.parseNamed noRules .token letterInput "text") fun o => o.value? = some 'b' from
    ⟨program, o, h, ho, hvalue.post_of_eq_ok ho, hvalue⟩
  refine (agrees.weaken ?_).mono ?_
  · intro halt exhausted
    exact exhausted.imp not_nestsEndlessly_letter
  rintro o ⟨least, e, he, rfl⟩
  have evaluated : ((letter.evaluate noRules 0 (.ofInput letterInput "text")).bind
      (·.outcome.value?) : Option Char) = some 'b' := by decide +kernel
  obtain ⟨e', he', value⟩ := Option.bind_eq_some_iff.1 evaluated
  have same := he least (Nat.le_refl _)
  rw [Parser.evaluate_le (Nat.zero_le least) he'] at same
  cases same
  exact value

end Program

end ParserMachine
