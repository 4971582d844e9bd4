import ParserMachine.Proofs.Interchange

/-!
# Laws of sequences

`bind` is associative and has `pure` for its unit on either side. `map` and `selectMany` add nothing
that could not be said with `bind`: they are its abbreviations, which save the machine a program to make
and to run. And the parser of a rule is the rule's parser, made when it is run.

All of them are laws of evaluation first. `sequencing_laws` says them of the programs: what is compiled
for the one side may be exchanged for what is compiled for the other.
-/

set_option autoImplicit false

namespace ParserMachine.Parser

variable {S : Signature} {rules : Grammar S} {a b c : Kind S.Base}

namespace Equivalent

/-- What is bound to a value is made of that value. -/
theorem pure_bind_left (v : S.Val a) (f : S.Val a → Parser S b) :
    Equivalent rules (.bind (.pure v) f) (f v) := by
  refine of_evaluateWith ?_
  intro unfold w
  rfl

/-- To go on with the value alone is not to go on. -/
theorem bind_pure_right (p : Parser S a) : Equivalent rules (.bind p .pure) p := by
  refine of_evaluateWith ?_
  intro unfold w
  show (p.evaluateWith unfold w >>= fun e => e.andThen fun v w => return ⟨.ok v, w⟩) = _
  simp only [Ending.andThen_return]
  exact bind_pure _

/-- Of three parsers in a row the last two may be taken together as well as the first two. -/
theorem bind_bind (p : Parser S a) (f : S.Val a → Parser S b) (g : S.Val b → Parser S c) :
    Equivalent rules (.bind (.bind p f) g) (.bind p fun v => .bind (f v) g) := by
  refine of_evaluateWith ?_
  intro unfold w
  show ((p.evaluateWith unfold w >>= fun e => e.andThen fun v w => (f v).evaluateWith unfold w) >>=
    fun e => e.andThen fun v w => (g v).evaluateWith unfold w) = _
  rw [bind_assoc]
  simp only [Ending.andThen_assoc]
  rfl

/-- To map a value is to go on with a parser that only has the new one. -/
theorem map_eq_bind (p : Parser S a) (f : S.Val a → S.Val b) :
    Equivalent rules (.map p f) (.bind p fun v => .pure (f v)) := by
  refine of_evaluateWith ?_
  intro unfold w
  rfl

/-- To combine two values is to go on with the second parser and to map what it has. -/
theorem selectMany_eq_bind (p : Parser S a) (f : S.Val a → Parser S b)
    (project : S.Val a → S.Val b → S.Val c) :
    Equivalent rules (.selectMany p f project) (.bind p fun v => .map (f v) (project v)) := by
  refine of_evaluateWith ?_
  intro unfold w
  rfl

/-- A rule is unfolded once to its parser. -/
theorem rule (r : S.Rule) : Equivalent rules (.rule r) (rules r) := by
  intro w e _
  constructor
  · rintro ⟨depth, he⟩
    -- Without an unfolding the rule would have had no ending.
    cases depth with
    | zero => cases he
    | succ depth => exact ⟨depth, he⟩
  · rintro ⟨depth, he⟩
    exact ⟨depth + 1, he⟩

end Equivalent

/-- Sequences may be regrouped, `pure` may be left out of them, and `map`, `selectMany` and rules may be
written with `bind` or without it: what each side is compiled to has the outcomes of the other. -/
theorem sequencing_laws (rules : Grammar S) :
    (∀ {a b : Kind S.Base} (v : S.Val a) (f : S.Val a → Parser S b),
      Interchangeable rules (.bind (.pure v) f) (f v)) ∧
    (∀ r, Interchangeable rules (.rule r) (rules r)) ∧
    (∀ {a : Kind S.Base} (p : Parser S a), Interchangeable rules (.bind p .pure) p) ∧
    (∀ {a b c : Kind S.Base} (p : Parser S a) (f : S.Val a → Parser S b) (g : S.Val b → Parser S c),
      Interchangeable rules (.bind (.bind p f) g) (.bind p fun v => .bind (f v) g)) ∧
    (∀ {a b : Kind S.Base} (p : Parser S a) (f : S.Val a → S.Val b),
      Interchangeable rules (.map p f) (.bind p fun v => .pure (f v))) ∧
    ∀ {a b c : Kind S.Base} (p : Parser S a) (f : S.Val a → Parser S b)
      (project : S.Val a → S.Val b → S.Val c),
      Interchangeable rules (.selectMany p f project)
        (.bind p fun v => .map (f v) fun u => project v u) := by
  refine ⟨?_, ?_, ?_, ?_, ?_, ?_⟩
  · intro a b v f
    exact (Equivalent.pure_bind_left v f).interchangeable
  · intro r
    exact (Equivalent.rule r).interchangeable
  · intro a p
    exact (Equivalent.bind_pure_right p).interchangeable
  · intro a b c p f g
    exact (Equivalent.bind_bind p f g).interchangeable
  · intro a b p f
    exact (Equivalent.map_eq_bind p f).interchangeable
  · intro a b c p f project
    exact (Equivalent.selectMany_eq_bind p f project).interchangeable

/-! ### Letters in a row -/

/-- A letter that is followed by itself twice, the first two taken together. -/
def threefoldLeft : Parser .characters .token :=
  .bind (.bind letter fun c : Char => .token c) fun c : Char => .token c

/-- The same, the last two taken together. -/
def threefoldRight : Parser .characters .token :=
  .bind letter fun c : Char => .bind (.token c) fun c : Char => .token c

/-- A letter three times. -/
def threefoldInput : Input Char := ⟨#['b', 'b', 'b'], by decide⟩

/-- The letters are read alike in either grouping. -/
theorem sequencing_laws_of_threefold : ∃ first second o,
    threefoldLeft.compile noRules = .ok first ∧ threefoldRight.compile noRules = .ok second ∧
      first.parseWith noRules .token threefoldInput (some #[7, 7, 7]) "text"
        { Config.unbounded with maxStackSize := 192 } = .ok o ∧
      second.Delivers noRules threefoldRight threefoldInput "text" (· = o) := by
  have ok : (threefoldLeft.compile noRules).toOption.map (fun first =>
      (first.parseWith noRules .token threefoldInput (some #[7, 7, 7]) "text"
        { Config.unbounded with maxStackSize := 192 }).isOk) = some true := by
    decide +kernel
  obtain ⟨first, hfirst⟩ : ∃ first, threefoldLeft.compile noRules = .ok first :=
    exists_of_isOk (by decide +kernel)
  obtain ⟨second, hsecond⟩ : ∃ second, threefoldRight.compile noRules = .ok second :=
    exists_of_isOk (by decide +kernel)
  rw [hfirst] at ok
  obtain ⟨o, ho⟩ := exists_of_isOk (Option.some.inj ok)
  refine ⟨first, second, o, hfirst, hsecond, ho, ?_⟩
  have regrouped := (sequencing_laws noRules).2.2.2.1 letter (fun c : Char => .token c)
    (fun c : Char => .token c) first second hfirst hsecond
  exact (regrouped threefoldInput "text" _ _ o).1 ho

end ParserMachine.Parser
