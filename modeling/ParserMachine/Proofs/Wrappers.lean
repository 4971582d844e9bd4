import ParserMachine.Proofs.Choice

/-!
# Laws of wrappers

The five wrappers that only look at how their parser ended: `try`, `lookAhead`, `label`, `hidden` and
`notFollowedBy`. Each is a function of that ending and of where the parser was started, and the laws are
equations between these functions. `try` and `lookAhead` are idempotent and commute, since the one goes
back on failure and the other on success. Of names given to a failure only the outermost is told.
`notFollowedBy` forgets how its parser failed, and with it everything that `try` and `label` did there.

Twice `notFollowedBy` is not `lookAhead`: the value is lost, and so is the error. What is left is whether
the parser succeeds, and that nothing is consumed.
-/

set_option autoImplicit false

namespace ParserMachine

variable {S : Signature} {rules : Grammar S} {k : Kind S.Base}

namespace Ending

/-- To go back twice is to go back once. -/
theorem retried_retried (e : Ending S k) (w : Reader S.Token) :
    (e.retried w).retried w = e.retried w := by
  obtain ⟨result, reader⟩ := e
  cases result <;> rfl

/-- To look ahead twice is to look ahead once. -/
theorem peeked_peeked (e : Ending S k) (w : Reader S.Token) : (e.peeked w).peeked w = e.peeked w := by
  obtain ⟨result, reader⟩ := e
  cases result <;> rfl

/-- To go back on success and to go back on failure do not interfere. -/
theorem retried_peeked (e : Ending S k) (w : Reader S.Token) :
    (e.peeked w).retried w = (e.retried w).peeked w := by
  obtain ⟨result, reader⟩ := e
  cases result <;> rfl

/-- Whether a parser failed at the start does not depend on how its failure is told. -/
theorem failedAt_mapFailure (e : Ending S k) (f : Failure S → Failure S) (w : Reader S.Token) :
    (e.mapFailure f).failedAt w = e.failedAt w := by
  obtain ⟨result, reader⟩ := e
  cases result <;> rfl

/-- The outer name is told. A name changes neither that there is a failure nor where the reader was
left, so the outer one is given wherever the inner one was. -/
theorem relabelled_relabelled (e : Ending S k) (w : Reader S.Token) (inner outer : Option String) :
    (e.relabelled w inner).relabelled w outer = e.relabelled w outer := by
  -- Only a failure at the start is renamed, and renamed it is still one.
  by_cases failed : e.failedAt w = true
  · rw [relabelled, relabelled, relabelled, if_pos failed, if_pos failed, failedAt_mapFailure,
      if_pos failed, mapFailure_mapFailure]
    rfl
  · have kept : e.relabelled w inner = e := if_neg failed
    rw [kept]

/-- Negation does not ask where a failure left the reader. -/
theorem negated_retried (e : Ending S k) (w : Reader S.Token) :
    (e.retried w).negated w = e.negated w := by
  obtain ⟨result, reader⟩ := e
  cases result <;> rfl

/-- Negation does not ask how a failure is told. -/
theorem negated_mapFailure (e : Ending S k) (f : Failure S → Failure S) (w : Reader S.Token) :
    (e.mapFailure f).negated w = e.negated w := by
  obtain ⟨result, reader⟩ := e
  cases result <;> rfl

/-- Negation does not ask by which name a failure is told. -/
theorem negated_relabelled (e : Ending S k) (w : Reader S.Token) (name : Option String) :
    (e.relabelled w name).negated w = e.negated w := by
  rw [relabelled]
  split
  · exact negated_mapFailure e _ w
  · rfl

/-- What is turned around is left where it was started. -/
theorem reader_negated (e : Ending S k) (w : Reader S.Token) : (e.negated w).reader = w := by
  obtain ⟨result, reader⟩ := e
  cases result <;> rfl

/-- Negation succeeds where its parser fails. -/
theorem isOk_negated (e : Ending S k) (w : Reader S.Token) :
    (e.negated w).outcome.isOk = !e.outcome.isOk := by
  obtain ⟨result, reader⟩ := e
  cases result <;> rfl

/-- Turned around twice, an ending is a success or a failure as it was, and at the start. -/
theorem outcome_negated_negated (e : Ending S k) (input : Input S.Token) (name : String) :
    let start := Reader.ofInput input name
    ((e.negated start).negated start).outcome.consumed = false ∧
      ((e.negated start).negated start).outcome.isOk = e.outcome.isOk := by
  intro start
  constructor
  · show decide (0 < ((e.negated start).negated start).reader.cursor.offset) = false
    rw [reader_negated]
    rfl
  · rw [isOk_negated, isOk_negated, Bool.not_not]

end Ending

namespace Parser

/-- The parser under a name, or hidden. -/
def named (p : Parser S k) : Option String → Parser S k
  | some name => .label name p
  | none => .hidden p

namespace Equivalent

/-- A `try` around a `try` may be left out. -/
theorem try_try (p : Parser S k) : Equivalent rules (.try (.try p)) (.try p) := by
  refine of_evaluateWith ?_
  intro unfold w
  simp only [evaluateWith, bind_assoc, pure_bind, Ending.retried_retried]

/-- A look ahead in a look ahead may be left out. -/
theorem lookAhead_lookAhead (p : Parser S k) :
    Equivalent rules (.lookAhead (.lookAhead p)) (.lookAhead p) := by
  refine of_evaluateWith ?_
  intro unfold w
  simp only [evaluateWith, bind_assoc, pure_bind, Ending.peeked_peeked]

/-- Going back and looking ahead may be exchanged. -/
theorem try_lookAhead (p : Parser S k) :
    Equivalent rules (.try (.lookAhead p)) (.lookAhead (.try p)) := by
  refine of_evaluateWith ?_
  intro unfold w
  simp only [evaluateWith, bind_assoc, pure_bind, Ending.retried_peeked]

/-- What is told of a parser under a name, or of a hidden one, does not depend on names that were given to it
before. -/
theorem named_named (outer inner : Option String) (p : Parser S k) :
    Equivalent rules ((p.named inner).named outer) (p.named outer) := by
  refine of_evaluateWith ?_
  intro unfold w
  -- Both wrappers relabel, the one with its name and the other with nothing.
  cases outer <;> cases inner <;>
    simp only [named, evaluateWith, bind_assoc, pure_bind, Ending.relabelled_relabelled]

/-- A `try` in a negation may be left out. -/
theorem notFollowedBy_try (p : Parser S k) :
    Equivalent rules (.notFollowedBy (.try p)) (.notFollowedBy p) := by
  refine of_evaluateWith ?_
  intro unfold w
  simp only [evaluateWith, bind_assoc, pure_bind, Ending.negated_retried]

/-- A name in a negation may be left out. -/
theorem notFollowedBy_label (name : String) (p : Parser S k) :
    Equivalent rules (.notFollowedBy (.label name p)) (.notFollowedBy p) := by
  refine of_evaluateWith ?_
  intro unfold w
  simp only [evaluateWith, bind_assoc, pure_bind, Ending.negated_relabelled]

end Equivalent

/-- A parser and its negation end together. -/
theorem ends_notFollowedBy {p : Parser S k} {w : Reader S.Token} {e' : Ending S .unit} :
    (Parser.notFollowedBy p).Ends rules w e' ↔ ∃ e, p.Ends rules w e ∧ e' = e.negated w := by
  constructor
  · rintro ⟨depth, h⟩
    rw [evaluate_eq] at h
    obtain ⟨e, he, negated⟩ := Option.bind_eq_some_iff.1 h
    refine ⟨e, ⟨depth, ?_⟩, (Option.some.inj negated).symm⟩
    rw [evaluate_eq]
    exact he
  · rintro ⟨e, ⟨depth, he⟩, rfl⟩
    refine ⟨depth, ?_⟩
    rw [evaluate_eq] at he ⊢
    exact Option.bind_eq_some_iff.2 ⟨e, he, rfl⟩

/-- Wrappers that others make up for may be left out: what each side is compiled to has the outcomes of
the other. And the parser that must not be refused succeeds when it succeeds itself, and consumes
nothing. -/
theorem wrapper_laws (rules : Grammar S) :
    (∀ {k : Kind S.Base} (p : Parser S k), Interchangeable rules (.try (.try p)) (.try p)) ∧
    (∀ {k : Kind S.Base} (p : Parser S k),
      Interchangeable rules (.lookAhead (.lookAhead p)) (.lookAhead p)) ∧
    (∀ {k : Kind S.Base} (p : Parser S k),
      Interchangeable rules (.try (.lookAhead p)) (.lookAhead (.try p))) ∧
    (∀ {k : Kind S.Base} (n m : String) (p : Parser S k),
      Interchangeable rules (.label n (.label m p)) (.label n p) ∧
      Interchangeable rules (.label n (.hidden p)) (.label n p)) ∧
    (∀ {k : Kind S.Base} (m : String) (p : Parser S k),
      Interchangeable rules (.hidden (.label m p)) (.hidden p) ∧
      Interchangeable rules (.hidden (.hidden p)) (.hidden p)) ∧
    (∀ {k : Kind S.Base} (n : String) (p : Parser S k),
      Interchangeable rules (.notFollowedBy (.try p)) (.notFollowedBy p) ∧
      Interchangeable rules (.notFollowedBy (.label n p)) (.notFollowedBy p)) ∧
    ∀ {k : Kind S.Base} (p : Parser S k) (program twice : Program S),
      p.compile rules = .ok program →
      (Parser.notFollowedBy (.notFollowedBy p)).compile rules = .ok twice →
      ∀ (input : Input S.Token) (name : String) (scratch : Option (Array UInt8)) (config : Config),
        (∀ o, program.parseWith rules k input scratch name config = .ok o →
          twice.Delivers rules (.notFollowedBy (.notFollowedBy p)) input name fun o' =>
            o'.consumed = false ∧ o'.isOk = o.isOk) ∧
        ∀ o', twice.parseWith rules .unit input scratch name config = .ok o' →
          program.Delivers rules p input name fun o =>
            o'.consumed = false ∧ o'.isOk = o.isOk := by
  refine ⟨?_, ?_, ?_, ?_, ?_, ?_, ?_⟩
  · intro k p
    exact (Equivalent.try_try p).interchangeable
  · intro k p
    exact (Equivalent.lookAhead_lookAhead p).interchangeable
  · intro k p
    exact (Equivalent.try_lookAhead p).interchangeable
  · intro k n m p
    exact ⟨(Equivalent.named_named (some n) (some m) p).interchangeable,
      (Equivalent.named_named (some n) none p).interchangeable⟩
  · intro k m p
    exact ⟨(Equivalent.named_named none (some m) p).interchangeable,
      (Equivalent.named_named none none p).interchangeable⟩
  · intro k n p
    exact ⟨(Equivalent.notFollowedBy_try p).interchangeable,
      (Equivalent.notFollowedBy_label n p).interchangeable⟩
  · intro k p program twice hp htwice input name scratch config
    constructor
    · intro o ho
      -- The two have values of different kinds, so their endings are compared.
      refine Program.delivers_of_outcome (R := fun o o' => o'.consumed = false ∧ o'.isOk = o.isOk)
        hp htwice ?_ ho
      intro e he
      have once := ends_notFollowedBy.2 ⟨e, he, rfl⟩
      exact ⟨_, ends_notFollowedBy.2 ⟨_, once, rfl⟩, e.outcome_negated_negated input name⟩
    · intro o' ho'
      refine Program.delivers_of_outcome (R := fun o' o => o'.consumed = false ∧ o'.isOk = o.isOk)
        htwice hp ?_ ho'
      intro e' he'
      obtain ⟨_, once, rfl⟩ := ends_notFollowedBy.1 he'
      obtain ⟨e, he, rfl⟩ := ends_notFollowedBy.1 once
      exact ⟨e, he, e.outcome_negated_negated input name⟩

/-! ### A letter that must not be refused -/

/-- There is a letter, and it is not consumed. -/
theorem wrapper_laws_of_letter : ∃ program twice o,
    letter.compile noRules = .ok program ∧
      (Parser.notFollowedBy (.notFollowedBy letter)).compile noRules = .ok twice ∧
      program.parseWith noRules .token letterInput (some #[7, 7, 7]) "text"
        { Config.unbounded with maxStackSize := 192 } = .ok o ∧
      twice.Delivers noRules (.notFollowedBy (.notFollowedBy letter)) letterInput "text" fun o' =>
        o'.consumed = false ∧ o'.isOk = o.isOk := by
  have ok : (letter.compile noRules).toOption.map (fun program =>
      (program.parseWith noRules .token letterInput (some #[7, 7, 7]) "text"
        { Config.unbounded with maxStackSize := 192 }).isOk) = some true := by
    decide +kernel
  obtain ⟨program, hprogram⟩ := exists_compile_letter
  obtain ⟨twice, htwice⟩ : ∃ twice,
      (Parser.notFollowedBy (.notFollowedBy letter)).compile noRules = .ok twice :=
    exists_of_isOk (by decide +kernel)
  rw [hprogram] at ok
  obtain ⟨o, ho⟩ := exists_of_isOk (Option.some.inj ok)
  refine ⟨program, twice, o, hprogram, htwice, ho, ?_⟩
  have negations := (wrapper_laws noRules).2.2.2.2.2.2 letter program twice hprogram htwice
  exact (negations letterInput "text" _ _).1 o ho

end Parser

end ParserMachine
