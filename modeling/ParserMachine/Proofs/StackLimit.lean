import ParserMachine.Proofs.Parse

/-!
# The memory of a parse

A parse may start in scratch memory of any size, with any bytes in it, or in memory of its own, and its
stack may spill from the one to the other or be moved to a larger region in the middle of any push. None
of it can be told from the outcome. All that counts is how far the stack may grow
(`Config.stackLimit`): of two parses that have all the room they need, each has the outcome of the
other, and a parse that has the room under one limit has it under every larger one.

The reason is that two runs in different memory stay alike (`Likeness.roomier`): their stacks stand for
the same cells, and a cell that fits into the first fits into the second, however either is laid out.
-/

set_option autoImplicit false

namespace ParserMachine

open Machine
open Stack (Likeness)

variable {S : Signature} {rules : Grammar S} {k : Kind S.Base} {p : Parser S k} {program : Program S}

/-- How far the stack of a parse may grow: as far as the configuration says, and as far as the memory
that it starts with in any case. -/
def Config.stackLimit (config : Config) (scratch : Option (Array UInt8)) : Nat :=
  max config.maxStackSize (match scratch with
    | some bytes => bytes.size
    | none => config.stackSize)

/-- The halt of a parse whose stack, or the constants of a parser made on the way, may not grow as far as
they would have to. -/
def Halt.IsOverflow : Halt → Prop
  | fault f => f.IsOverflow
  | limit _ | endless => False

/-- The parse has all the room that it needs. -/
def FindsRoom {α : Type} (x : Except Halt α) : Prop := ∀ halt, x = .error halt → ¬halt.IsOverflow

/-- A parse that has an outcome found the room for it. -/
theorem FindsRoom.of_isOk {α : Type} {x : Except Halt α} (h : x.isOk = true) : FindsRoom x := by
  intro halt halted
  rw [halted] at h
  cases h

/-- A run that overflows is a parse that does. -/
theorem Machine.Stop.IsOverflow.ofStop {stop : Stop} (h : stop.IsOverflow) (maxDepth : Nat) :
    (Halt.ofStop maxDepth stop).IsOverflow := by
  cases stop with
  | fault f => exact h
  | tooDeep | endless | unbuilt => exact h.elim

namespace Program

/-- The stack of a parse may grow as far as the configuration and its first memory let it. -/
theorem limit_freshStack (scratch : Option (Array UInt8)) (config : Config) :
    (freshStack scratch config : Stack (Object S)).limit = config.stackLimit scratch := by
  cases scratch with
  | none => simp [freshStack, Stack.withLimit, Stack.withCapacity, Stack.capacity, Config.stackLimit]
  | some bytes => rfl

section Memory

variable (h : p.compile rules = .ok program) (input : Input S.Token) (name : String)
  {scratch scratch' : Option (Array UInt8)} {config config' : Config}
  (hinput : config'.maxInputSize = config.maxInputSize)
  (hdepth : config'.maxRecursionDepth = config.maxRecursionDepth)
include h hinput hdepth

/-- A parse whose stack may grow at least as far as that of another does what the other does, unless
that overflows. -/
theorem tracks_parseWith (hlimit : config.stackLimit scratch ≤ config'.stackLimit scratch') :
    Tracks Halt.IsOverflow Eq (program.parseWith rules k input scratch name config)
      (program.parseWith rules k input scratch' name config') := by
  have alike : (Likeness.roomier : Likeness (Object S)).Rel (freshStack scratch config)
      (freshStack scratch' config') := by
    refine Likeness.roomier_rel (holds_freshStack scratch config) (holds_freshStack scratch' config') ?_
    rwa [limit_freshStack, limit_freshStack]
  have runs : Tracks Stop.IsOverflow Eq
      (program.run rules k (.ofInput input name) (freshStack scratch config) config.maxRecursionDepth)
      (program.run rules k (.ofInput input name) (freshStack scratch' config')
        config.maxRecursionDepth) :=
    tracks_run h (fun f overflow => overflow) alike (.refl _ _ _ _) (.ofInput input name)
  -- Whether the input is too large is told before there is a stack.
  rw [parseWith_eq, parseWith_eq, hinput, hdepth]
  exact .ite (fun _ => .failed _) fun _ => runs.mapError fun _ overflow => overflow.ofStop _

/-- A parse that found room has its outcome under every larger limit. -/
theorem parseWith_eq_of_le (hlimit : config.stackLimit scratch ≤ config'.stackLimit scratch')
    (room : FindsRoom (program.parseWith rules k input scratch name config)) :
    program.parseWith rules k input scratch' name config' =
      program.parseWith rules k input scratch name config := by
  rcases (tracks_parseWith h input name hinput hdepth hlimit).eq_or_excused with
    same | ⟨halt, halted, overflow⟩
  · exact same
  · exact absurd overflow (room halt halted)

/-- Two parses that found room have the same outcome. -/
theorem parseWith_eq_of_findsRoom
    (room : FindsRoom (program.parseWith rules k input scratch name config))
    (room' : FindsRoom (program.parseWith rules k input scratch' name config')) :
    program.parseWith rules k input scratch' name config' =
      program.parseWith rules k input scratch name config := by
  -- One of them may grow at least as far as the other, whichever it is.
  rcases Nat.le_total (config.stackLimit scratch) (config'.stackLimit scratch') with hle | hle
  · exact parseWith_eq_of_le h input name hinput hdepth hle room
  · exact (parseWith_eq_of_le h input name hinput.symm hdepth.symm hle room').symm

end Memory

/-- Parses in different memory, under the same limits on input and nesting. A parse that has all the room
it needs ends as every other does whose stack may grow at least as far, and as every other that has all
the room it needs. Without limits on input and nesting the ways to parse agree: in given scratch memory
of any size, without any, and under a configuration. -/
theorem parseWith_stackLimit (h : p.compile rules = .ok program) (input : Input S.Token)
    (name : String) (config : Config) (scratch : Option (Array UInt8))
    (room : FindsRoom (program.parseWith rules k input scratch name config)) :
    (∀ (config' : Config) (scratch' : Option (Array UInt8)),
      config'.maxInputSize = config.maxInputSize →
      config'.maxRecursionDepth = config.maxRecursionDepth →
      (config.stackLimit scratch ≤ config'.stackLimit scratch' →
        program.parseWith rules k input scratch' name config' =
          program.parseWith rules k input scratch name config) ∧
      (FindsRoom (program.parseWith rules k input scratch' name config') →
        program.parseWith rules k input scratch' name config' =
          program.parseWith rules k input scratch name config)) ∧
    (config.maxInputSize = 0 → config.maxRecursionDepth = 0 →
      (FindsRoom (program.parseNamed rules k input name) →
        program.parseNamed rules k input name =
          program.parseWith rules k input scratch name config) ∧
      ∀ bytes, FindsRoom (program.parseIn rules k input bytes name) →
        program.parseIn rules k input bytes name =
          program.parseWith rules k input scratch name config) := by
  refine ⟨?_, ?_⟩
  · intro config' scratch' hinput hdepth
    exact ⟨fun hle => parseWith_eq_of_le h input name hinput hdepth hle room,
      fun room' => parseWith_eq_of_findsRoom h input name hinput hdepth room room'⟩
  · intro hinput hdepth
    have hinput : Config.unbounded.maxInputSize = config.maxInputSize := hinput.symm
    have hdepth : Config.unbounded.maxRecursionDepth = config.maxRecursionDepth := hdepth.symm
    exact ⟨fun room' => parseWith_eq_of_findsRoom h input name hinput hdepth room room',
      fun bytes room' => parseWith_eq_of_findsRoom h input name hinput hdepth room room'⟩

/-- The choice parsed in three bytes of scratch memory, from which its stack spills. -/
theorem parseWith_stackLimit_of_letter : ∃ program, letter.compile noRules = .ok program ∧
    FindsRoom (program.parseWith noRules .token letterInput (some #[7, 7, 7]) "text"
      { Config.unbounded with maxStackSize := 128 }) ∧
    program.parseNamed noRules .token letterInput "text" =
      program.parseWith noRules .token letterInput (some #[7, 7, 7]) "text"
        { Config.unbounded with maxStackSize := 128 } := by
  have ok : (letter.compile noRules).toOption.map (fun program =>
      (program.parseWith noRules .token letterInput (some #[7, 7, 7]) "text"
        { Config.unbounded with maxStackSize := 128 }).isOk) = some true := by
    decide +kernel
  obtain ⟨program, h⟩ := exists_compile_letter
  rw [h] at ok
  have room := FindsRoom.of_isOk (Option.some.inj ok)
  refine ⟨program, h, room, ?_⟩
  exact ((parseWith_stackLimit h letterInput "text" _ _ room).1 .unbounded none rfl rfl).1 (by decide)

end Program

end ParserMachine
