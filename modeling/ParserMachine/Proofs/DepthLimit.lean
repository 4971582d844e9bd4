import Mathlib.Data.Nat.Find
import ParserMachine.Proofs.Machine.Discipline

/-!
# The limit on nesting

A limit on how many blocks run within each other stops a run, or it makes no difference to it: up to the
block that is one too many, the limited run does what the unlimited one does. So a parse that ends where
no limit is set ends in the same way under every limit from some least one on, and under every smaller
limit it is stopped at the first block beyond it. Raising the limit never turns an outcome into a stop.

A limited run always comes to an end. Here a run is given fuel for the blocks within each other, and a
limited one never lacks any: on more fuel it does the same (`runBlock_fuel`). That blocks nest without
end is told only where no limit is set.
-/

set_option autoImplicit false

namespace ParserMachine

open Machine
open Stack (Likeness)

variable {S : Signature} {rules : Grammar S} {k : Kind S.Base} {p : Parser S k} {program : Program S}

/-- The configuration with another limit on nesting. -/
def Config.nesting (config : Config) (d : Nat) : Config := { config with maxRecursionDepth := d }

namespace Program

section Runs

variable (h : p.compile rules = .ok program) {stack : Stack (Object S)} (hs : stack.Holds [])
  (input : Input S.Token) (name : String) {d d' : Nat}
include h hs

/-! ### Limited runs end -/

/-- A run under a limit has the fuel that it needs. -/
theorem run_ne_endless (hd : 0 < d) :
    program.run rules k (.ofInput input name) stack d ≠ .error .endless := by
  intro endless
  have unlimited := ((run_agrees h hs d input name).allowed_of_eq_error endless).1
  omega

/-- A run under a limit needs no more fuel than it is given. -/
theorem runBlock_fuel (hd : 0 < d) {fuel : Nat} (hfuel : d + 1 ≤ fuel) {reader : Reader S.Token}
    (hw : reader.Inside) :
    runBlock rules d fuel program.code.bytes program.pool 0 ⟨reader, stack, 0⟩ =
      runBlock rules d (d + 1) program.code.bytes program.pool 0 ⟨reader, stack, 0⟩ := by
  obtain ⟨bytes, cells, hprogram, hcode⟩ := (p.yields_compile).post_of_eq_ok h
  rw [hprogram.code.bytes_eq]
  have hst : (⟨reader, stack, 0⟩ : State S).stack.Holds [] := hs
  have more : Outlasts (· = .endless) d d (d + 1) fuel 0 := ⟨.inr ⟨rfl, hfuel⟩, .inl rfl⟩
  rcases runBlock_eq_or_cut hprogram.pool hprogram.pool hcode (fun _ _ hc => hc) more hst with
    same | ⟨_, hstop, rfl⟩
  · exact same
  · -- The fuel would have been used up before the limit was met.
    have disciplined := disciplined_of_loads hprogram.pool hcode d (d + 1) hst hw
    have enough : d + 1 + 0 ≤ d := (disciplined.allowed_of_eq_error hstop) hd (Nat.succ_pos d)
    omega

/-! ### Runs under a limit and under a looser one -/

/-- A limited run is stopped at the first block beyond its limit, or it is the run under every looser
limit, and without one. -/
theorem run_loosened (hd : 0 < d) (hle : d ≤ d' ∨ d' = 0 ∧ d < unlimitedDepth) :
    program.run rules k (.ofInput input name) stack d = .error (.tooDeep (d + 1)) ∨
      program.run rules k (.ofInput input name) stack d' =
        program.run rules k (.ofInput input name) stack d := by
  have looser : Outlasts (fun stop => stop = .endless ∨ stop = .tooDeep (d + 1)) d d' (fuelFor d)
      (fuelFor d') 0 := by
    unfold fuelFor
    constructor
    · refine .inr ⟨.inl rfl, ?_⟩
      split <;> split <;> omega
    · exact .inr (.inl ⟨.inr rfl, Nat.zero_le d, hd, by omega⟩)
  have tracked := tracks_run h nothing_excused (Likeness.same_rel hs) looser
    (.ofInput input name)
  rcases tracked.eq_or_excused with same | ⟨_, hstop, rfl | rfl⟩
  · exact .inr same
  · -- The fuel of a limited run lasts to its limit.
    exact absurd hstop (run_ne_endless h hs input name hd)
  · exact .inl hstop

/-- A run that ends without a limit meets no limit that is beyond all nesting. -/
theorem run_unlimited (hd : unlimitedDepth ≤ d)
    (ends : program.run rules k (.ofInput input name) stack 0 ≠ .error .endless) :
    program.run rules k (.ofInput input name) stack d =
      program.run rules k (.ofInput input name) stack 0 := by
  have further : Outlasts (· = .endless) 0 d (fuelFor 0) (fuelFor d) 0 := by
    unfold fuelFor
    constructor
    · refine .inr ⟨rfl, ?_⟩
      rw [if_pos rfl]
      split <;> omega
    · exact .inr (.inr ⟨rfl, by simpa using hd⟩)
  have tracked := tracks_run h nothing_excused (Likeness.same_rel hs) further
    (.ofInput input name)
  rcases tracked.eq_or_excused with same | ⟨_, hstop, rfl⟩
  · exact same
  · exact absurd hstop ends

/-- A run is stopped by its limit at the first block beyond it. -/
theorem eq_of_tooDeep {depth : Nat}
    (deep : program.run rules k (.ofInput input name) stack d = .error (.tooDeep depth)) :
    0 < d ∧ depth = d + 1 := by
  have ⟨limited, beyond⟩ := (run_agrees h hs d input name).allowed_of_eq_error deep
  refine ⟨limited, ?_⟩
  -- Under the limit that it would exceed, the run would do the same and not exceed it.
  rcases run_loosened h hs input name limited (.inl (Nat.le_of_lt beyond)) with stopped | same
  · rw [deep] at stopped
    injection stopped with stop
    injection stop
  · rw [deep] at same
    have further := ((run_agrees h hs depth input name).allowed_of_eq_error same).2
    exact absurd further (Nat.lt_irrefl depth)

/-- A run that ends without a limit ends in the same way under every limit from some least one on, and
is stopped by the others. -/
theorem run_depthLimit
    (ends : program.run rules k (.ofInput input name) stack 0 ≠ .error .endless) :
    ∃ least, 0 < least ∧
      (∀ d, least ≤ d → program.run rules k (.ofInput input name) stack d =
        program.run rules k (.ofInput input name) stack 0) ∧
      ∀ d, 0 < d → d < least →
        program.run rules k (.ofInput input name) stack d = .error (.tooDeep (d + 1)) := by
  classical
  -- The least limit is the first that leaves the outcome as it is; some limit does, since the fuel of the
  -- run without a limit is itself one.
  have far : ∃ d, 0 < d ∧ program.run rules k (.ofInput input name) stack d =
      program.run rules k (.ofInput input name) stack 0 :=
    ⟨unlimitedDepth, by decide, run_unlimited h hs input name (Nat.le_refl _) ends⟩
  obtain ⟨positive, reached⟩ := Nat.find_spec far
  refine ⟨Nat.find far, positive, ?_, ?_⟩
  · intro d hd
    rcases run_loosened h hs input name positive (.inl hd) with stopped | same
    · rw [reached] at stopped
      exact absurd (eq_of_tooDeep h hs input name stopped).1 (Nat.lt_irrefl 0)
    · rw [same, reached]
  · -- Below it a run is not the unlimited one, so it is stopped by its own limit.
    intro d hd hlt
    have near : d < unlimitedDepth :=
      Nat.lt_of_lt_of_le hlt
        (Nat.find_le ⟨by decide, run_unlimited h hs input name (Nat.le_refl _) ends⟩)
    rcases run_loosened h hs input name hd (.inr ⟨rfl, near⟩) with stopped | same
    · exact stopped
    · exact absurd ⟨hd, same.symm⟩ (Nat.find_min far hlt)

end Runs

/-! ### Parses under a limit -/

/-- Only a stop by the limit is told with the limit. -/
theorem mapError_ofStop_eq {α : Type} {x : Except Stop α} (h : ∀ depth, x ≠ .error (.tooDeep depth))
    (d d' : Nat) : x.mapError (Halt.ofStop d) = x.mapError (Halt.ofStop d') := by
  cases x with
  | ok a => rfl
  | error stop =>
    cases stop with
    | tooDeep depth => exact absurd rfl (h depth)
    | endless | unbuilt | fault => rfl

/-- A parse is told to be endless where its run was. -/
theorem mapError_ofStop_endless_iff {α : Type} {x : Except Stop α} {d : Nat} :
    x.mapError (Halt.ofStop d) = .error .endless ↔ x = .error .endless := by
  cases x with
  | ok a => constructor <;> intro h <;> cases h
  | error stop =>
    cases stop with
    | endless => constructor <;> intro h <;> rfl
    | tooDeep | unbuilt | fault => constructor <;> intro h <;> cases h

/-- Whether an input is too large does not depend on the limit on nesting; where it is not, a parse is a
run under that limit. -/
theorem parseWith_nesting (program : Program S) (rules : Grammar S) (k : Kind S.Base)
    (input : Input S.Token) (scratch : Option (Array UInt8)) (name : String) (config : Config) :
    (∃ e, ∀ d, program.parseWith rules k input scratch name (config.nesting d) = .error (.limit e)) ∨
      ∀ d, program.parseWith rules k input scratch name (config.nesting d) =
        (program.run rules k (.ofInput input name) (freshStack scratch config) d).mapError
          (Halt.ofStop d) := by
  by_cases large : 0 < config.maxInputSize && config.maxInputSize < input.size
  · left
    refine ⟨.inputTooLarge input.size config.maxInputSize, ?_⟩
    intro d
    rw [parseWith_eq]
    exact if_pos large
  · right
    intro d
    rw [parseWith_eq]
    exact if_neg large

/-- Parses that differ in the limit on nesting only: under a limit each comes to an end, for which the
fuel that it is given is enough; each is cut off at the first block beyond its limit or ends as under
every looser limit; and where the parse without a limit comes to an end, some least limit divides those
that cut it off from those that make no difference. -/
theorem parseWith_depthLimit (h : p.compile rules = .ok program) (input : Input S.Token)
    (scratch : Option (Array UInt8)) (name : String) (config : Config) :
    (∀ d, 0 < d →
      program.parseWith rules k input scratch name (config.nesting d) ≠ .error .endless ∧
      ∀ fuel, d + 1 ≤ fuel →
        runBlock rules d fuel program.code.bytes program.pool 0
            ⟨.ofInput input name, freshStack scratch (config.nesting d), 0⟩ =
          runBlock rules d (d + 1) program.code.bytes program.pool 0
            ⟨.ofInput input name, freshStack scratch (config.nesting d), 0⟩) ∧
    (∀ d d', 0 < d → d ≤ d' →
      program.parseWith rules k input scratch name (config.nesting d) =
          .error (.limit (.recursionTooDeep (d + 1) d)) ∨
        program.parseWith rules k input scratch name (config.nesting d') =
          program.parseWith rules k input scratch name (config.nesting d)) ∧
    (program.parseWith rules k input scratch name (config.nesting 0) ≠ .error .endless →
      ∃ least, 0 < least ∧
        (∀ d, least ≤ d → program.parseWith rules k input scratch name (config.nesting d) =
          program.parseWith rules k input scratch name (config.nesting 0)) ∧
        ∀ d, 0 < d → d < least →
          program.parseWith rules k input scratch name (config.nesting d) =
            .error (.limit (.recursionTooDeep (d + 1) d))) := by
  have hs : (freshStack scratch config : Stack (Object S)).Holds [] := holds_freshStack scratch config
  have fuelled (d : Nat) (hd : 0 < d) (fuel : Nat) (hfuel : d + 1 ≤ fuel) :=
    runBlock_fuel h hs hd hfuel (Reader.inside_ofInput input name)
  -- An input that is too large is refused under every limit alike.
  rcases parseWith_nesting program rules k input scratch name config with ⟨e, same⟩ | parse
  · simp only [same]
    exact ⟨fun d hd => ⟨by simp, fuelled d hd⟩, fun _ _ _ _ => .inr trivial,
      fun _ => ⟨1, Nat.one_pos, fun _ _ => trivial, fun d hd hlt => by omega⟩⟩
  simp only [parse]
  refine ⟨?_, ?_, ?_⟩
  · intro d hd
    refine ⟨?_, fuelled d hd⟩
    rw [Ne, mapError_ofStop_endless_iff]
    exact run_ne_endless h hs input name hd
  · intro d d' hd hle
    by_cases deep : program.run rules k (.ofInput input name) (freshStack scratch config) d =
        .error (.tooDeep (d + 1))
    · left
      rw [deep]
      rfl
    · right
      rw [(run_loosened h hs input name hd (.inl hle)).resolve_left deep]
      -- A run that was not stopped by its limit does not tell it.
      refine mapError_ofStop_eq ?_ d' d
      intro depth stopped
      obtain rfl := (eq_of_tooDeep h hs input name stopped).2
      exact deep stopped
  · intro ends
    rw [Ne, mapError_ofStop_endless_iff] at ends
    obtain ⟨least, positive, reached, stopped⟩ := run_depthLimit h hs input name ends
    refine ⟨least, positive, ?_, ?_⟩
    · intro d hd
      rw [reached d hd]
      refine mapError_ofStop_eq ?_ d 0
      intro depth deep
      exact Nat.lt_irrefl 0 (eq_of_tooDeep h hs input name deep).1
    · intro d hd hlt
      rw [stopped d hd hlt]
      rfl

/-- For the parser of one letter there is a least limit, under which it does what it does without one. -/
theorem parseWith_depthLimit_of_letter : ∃ program, letter.compile noRules = .ok program ∧
    ∃ least, 0 < least ∧
      (∀ d, least ≤ d →
        program.parseWith noRules .token letterInput none "text" (({} : Config).nesting d) =
          program.parseWith noRules .token letterInput none "text" (({} : Config).nesting 0)) ∧
      ∀ d, 0 < d → d < least →
        program.parseWith noRules .token letterInput none "text" (({} : Config).nesting d) =
          .error (.limit (.recursionTooDeep (d + 1) d)) := by
  obtain ⟨program, h⟩ := exists_compile_letter
  have ⟨_, _, law⟩ := parseWith_depthLimit h letterInput none "text" {}
  refine ⟨program, h, law ?_⟩
  intro endless
  have exhausted := (parseWith_agrees h letterInput none "text" _).allowed_of_eq_error endless
  exact not_nestsEndlessly_letter exhausted.2

end Program

end ParserMachine
