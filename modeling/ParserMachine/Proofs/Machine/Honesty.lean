import ParserMachine.Proofs.Machine.Discipline
import ParserMachine.Proofs.Parser.Honesty

/-!
# Errors are true to the input

The errors that a caller sees come from two places: a parse that fails, and an `observing` instruction
that makes a value of a failure. `compiled_honest` says that all of them are honest: for every parse of a
compiled program, and for every `observing` instruction in any of its blocks, wherever the machine is.
-/

set_option autoImplicit false

namespace ParserMachine

open Machine

variable {S : Signature} {rules : Grammar S} {k : Kind S.Base}

/-- The instruction with the opcode of `observing` is loaded for such a parser. -/
theorem Assembled.exists_observing {pool : List (Cell (Object S))} {offset : Nat} {code : List UInt8}
    (h : Assembled rules pool offset code) (hop : Bytecode.opcodeAt code = .ok .observing) :
    ∃ (k : Kind S.Base) (q : Parser S k) (first rest : List UInt8), code = first ++ rest ∧
      (Parser.observing q).Loads pool rules first offset := by
  have fetched : (liftM (Bytecode.opcodeAt code) : Except Fault Opcode) = .ok .observing := by
    rw [hop]
    rfl
  -- Each other instruction begins with another opcode.
  cases h with
  | nil => cases hop
  | @invoke op routine function code rest hinvoke hl h =>
    rw [hl.opcode rest] at fetched
    rcases hinvoke with rfl | rfl <;> cases fetched
  | @instruction k p code rest hone hl h =>
    cases p with
    | observing q => exact ⟨_, q, code, rest, rfl, hl⟩
    | pure | error | token | tokens | satisfy | oneOf | noneOf | takeWhile | takeWhile1 | newline =>
      rw [Parser.LoadsConstant.opcode hl rest] at fetched
      cases fetched
    | take n =>
      obtain ⟨count, -, rfl⟩ := hl
      rw [List.cons_append, Parser.fetch_opcode] at fetched
      cases fetched
    | take1 | eof =>
      obtain rfl := hl
      rw [List.cons_append, Parser.fetch_opcode] at fetched
      cases fetched
    | «try» | hidden | lookAhead | notFollowedBy | label =>
      obtain ⟨body, hcode, -⟩ := hl
      rw [hcode.opcode rest] at fetched
      cases fetched
    | or =>
      obtain ⟨left, right, shift, hcode, -⟩ := hl
      rw [hcode.opcode rest] at fetched
      cases fetched
    | map | bind | selectMany | rule => exact hone.elim

/-- A result of an observed kind that is kept as a failure is that failure. -/
theorem eq_error_of_ofVal {v : Except S.Error (S.Val k)} {e : S.Error}
    (h : Datum.ofVal (show S.Val (.observed k) from v) = .failure e) : v = .error e := by
  cases v with
  | ok v => cases h
  | error e' =>
    cases h
    rfl

/-- What an observed parser ended in is a value, or an honest error. -/
theorem step_observing [EquivBEq S.Custom] {pool : Stack (Object S)}
    {poolCells cells : List (Cell (Object S))} {first rest : List UInt8} {offset : Nat} {q : Parser S k}
    (hp : pool.Represents poolCells) (hl : (Parser.observing q).Loads poolCells rules first offset)
    (maxDepth fuel : Nat) {st st' : State S} (hs : st.stack.Holds cells) (hw : st.reader.Inside)
    (hstep : step (runBlock rules maxDepth fuel) rules (first ++ rest) pool offset st = .ok (.ok, st')) :
    ∃ d, topDatum? st'.reader.input st'.stack = .ok (some d) ∧
      ∀ e, d = .failure e → e.Honest st.reader.input := by
  obtain ⟨w, s, depth⟩ := st
  have one : (Parser.observing q).IsInstruction := trivial
  have simulated := simulates_step hp hs hw rest (runBlock_loaded rules maxDepth fuel depth)
    (follows_nested rules maxDepth fuel depth) one hl
  rw [hstep] at simulated
  obtain ⟨e, he, ended⟩ := simulated
  rw [Parser.within] at he
  cases hq : q.nested rules maxDepth fuel depth w with
  | error stop =>
    rw [hq] at he
    cases he
  | ok e₁ =>
    rw [hq] at he
    -- The block ended, so it ended as the parser does, and parsers fail honestly.
    have follows := follows_nested rules maxDepth fuel depth q hw hq
    have honest := (Parser.nested_ends hq).honest hw
    cases he
    cases ended with
    | value hc hs' =>
      rw [← follows.input_eq] at hc
      exact ⟨_, topDatum?_eq hc hs', fun e hd => honest.observed (eq_error_of_ofVal hd)⟩

/-- Parses of compiled programs fail honestly, and so do the parsers that they observe. -/
theorem Program.compiled_honest [EquivBEq S.Custom] {p : Parser S k} {program : Program S}
    (h : p.compile rules = .ok program) :
    (∀ input scratch name config o e,
      program.parseWith rules k input scratch name config = .ok o → o.result = .error e →
        e.Honest input) ∧
    ∀ block offset rest, program.HasBlock block offset → Remains block rest →
      Bytecode.opcodeAt rest = .ok .observing →
        ∀ (maxDepth fuel : Nat) (st st' : State S) (cells : List (Cell (Object S))),
          st.stack.Holds cells → st.reader.Inside →
            step (runBlock rules maxDepth fuel) rules rest program.pool offset st = .ok (.ok, st') →
              ∃ d, topDatum? st'.reader.input st'.stack = .ok (some d) ∧
                ∀ e, d = .failure e → e.Honest st.reader.input := by
  constructor
  · intro input scratch name config o e hparse hresult
    obtain ⟨ending, hends, rfl⟩ := (parseWith_agrees h input scratch name config).post_of_eq_ok hparse
    exact (hends.honest (Reader.inside_ofInput input name)).observed hresult
  · intro block offset rest hblock hrest hop maxDepth fuel st st' cells hs hw hstep
    obtain ⟨bytes, poolCells, hprogram, hcode⟩ := (p.yields_compile).post_of_eq_ok h
    obtain ⟨k', q, hq⟩ := hblock.loads hprogram hcode
    obtain ⟨k₂, observed, first, more, rfl, hl⟩ :=
      ((Assembled.ofLoads hq).remains hrest).exists_observing hop
    exact step_observing hprogram.pool hl maxDepth fuel hs hw hstep

/-! ### An observed letter -/

/-- The error in the top slot of a machine, where that is what an observed parser ended in. -/
def topError? (st : State S) : Option S.Error :=
  match topDatum? st.reader.input st.stack with
  | .ok (some (.failure e)) => some e
  | _ => none

/-- What is told as the error on top lies there as a failure. -/
theorem topDatum?_of_topError? {st : State S} {e : S.Error} (h : topError? st = some e) :
    topDatum? st.reader.input st.stack = .ok (some (.failure e)) := by
  rw [topError?] at h
  split at h
  · next found =>
    cases h
    exact found
  · cases h

/-- A letter that is observed, and then another. -/
def observedLetter : Parser .characters .token := .bind (.observing (.token 'b')) fun _ => .token 'a'

/-- A letter that is neither. -/
def otherInput : Input Char := ⟨#['c'], by decide⟩

/-- The error at that letter, where the given one is wanted. -/
def otherError (wanted : Char) : Signature.characters.Error :=
  .trivial (Reader.ofInput otherInput "text").position (some (.token 'c')) (.ofList [.token wanted])

/-- Memory with room for all that comes on the stack. -/
def enoughScratch : Array UInt8 := .replicate 128 0

/-- The parse fails with an honest error, and has observed another one before. -/
theorem Program.compiled_honest_of_observedLetter :
    ∃ program, observedLetter.compile noRules = .ok program ∧
      (∃ o e, program.parseWith noRules .token otherInput (some enoughScratch) "text" .unbounded = .ok o ∧
        o.result = .error e ∧ e.same (otherError 'a') = true ∧ e.Honest otherInput) ∧
      (∃ st e, step (runBlock noRules 0 2) noRules program.code.bytes program.pool 0
          ⟨.ofInput otherInput "text", freshStack (some enoughScratch) .unbounded, 1⟩ = .ok (.ok, st) ∧
        topDatum? st.reader.input st.stack = .ok (some (.failure e)) ∧
          e.same (otherError 'b') = true ∧ e.Honest otherInput) ∧
      (∀ o e, program.parseNamed noRules .token otherInput "text" = .ok o → o.result = .error e →
        e.Honest otherInput) ∧
      ∀ (maxDepth fuel : Nat) (st st' : State .characters) (cells : List (Cell (Object .characters))),
        st.stack.Holds cells → st.reader.Inside →
          step (runBlock noRules maxDepth fuel) noRules program.code.bytes program.pool 0 st =
              .ok (.ok, st') →
            ∃ d, topDatum? st'.reader.input st'.stack = .ok (some d) ∧
              ∀ e, d = .failure e → e.Honest st.reader.input := by
  have computed : (observedLetter.compile noRules).toOption.map (fun program =>
      (Bytecode.opcodeAt program.code.bytes,
        (program.parseWith noRules .token otherInput (some enoughScratch) "text" .unbounded).toOption.map
          (·.error?.map (·.same (otherError 'a'))),
        (step (runBlock noRules 0 2) noRules program.code.bytes program.pool 0
            ⟨.ofInput otherInput "text", freshStack (some enoughScratch) .unbounded, 1⟩).toOption.map
          fun r => (r.1, (topError? r.2).map (·.same (otherError 'b'))))) =
      some (.ok .observing, some (some true), some (.ok, some true)) := by
    decide +kernel
  obtain ⟨program, h, computed⟩ := exists_of_map_toOption computed
  obtain ⟨opcode, computed⟩ := Prod.ext_iff.1 computed
  obtain ⟨parsed, stepped⟩ := Prod.ext_iff.1 computed
  have honest := compiled_honest h
  have observes := honest.2 _ _ _ .whole .all opcode
  refine ⟨program, h, ?_, ?_, fun o e => honest.1 otherInput none "text" .unbounded o e, observes⟩
  · obtain ⟨o, ho, failed⟩ := exists_of_map_toOption parsed
    obtain ⟨e, he, told⟩ := Option.map_eq_some_iff.1 failed
    have result := Outcome.result_of_error? he
    exact ⟨o, e, ho, result, told, honest.1 _ _ _ _ o e ho result⟩
  · obtain ⟨⟨reply, st⟩, hstep, observed⟩ := exists_of_map_toOption stepped
    obtain ⟨replied, observed⟩ := Prod.ext_iff.1 observed
    obtain ⟨e, he, told⟩ := Option.map_eq_some_iff.1 observed
    obtain rfl : reply = .ok := replied
    have top := topDatum?_of_topError? he
    have fresh : (freshStack (some enoughScratch) .unbounded : Stack (Object .characters)).Holds [] :=
      holds_freshStack _ _
    obtain ⟨d, hd, told_honestly⟩ := observes 0 2 _ st [] fresh
      (Reader.inside_ofInput otherInput "text") hstep
    rw [top] at hd
    cases hd
    exact ⟨st, e, hstep, top, told, told_honestly e rfl⟩

end ParserMachine
