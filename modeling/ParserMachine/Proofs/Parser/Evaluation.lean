import ParserMachine.Proofs.Reading

/-!
# What evaluation comes to

Facts about `Parser.evaluate` that do not depend on what the machine does.

* `evaluate_le`: an answer stays when rules may be followed deeper, so a parser has at most one
  ending (`Ends.unique`). `Ends` is the ending, whatever depth it takes.
* `andThen_eq_some`, `orElse_eq_some`: how a combination came to its ending.
* `Ends.follows`: the reader that is left follows the reader at the start.
-/

set_option autoImplicit false

namespace ParserMachine

variable {S : Signature}

namespace Ending

variable {k a b : Kind S.Base}

/-- How a sequence ended: with its second part, or with the failure of its first. -/
theorem andThen_eq_some {e : Ending S a} {next : S.Val a → Reader S.Token → Option (Ending S b)}
    {e' : Ending S b} (h : e.andThen next = some e') :
    (∃ v, e.result = .ok v ∧ next v e.reader = some e') ∨
      ∃ f, e.result = .error f ∧ e' = ⟨.error f, e.reader⟩ := by
  rw [andThen] at h
  cases hresult : e.result with
  | ok v =>
    rw [hresult] at h
    exact .inl ⟨v, rfl, h⟩
  | error f =>
    rw [hresult] at h
    exact .inr ⟨f, rfl, (Option.some.inj h).symm⟩

/-- How a choice ended: with its first part, or with its second, told with the failure of the
first. -/
theorem orElse_eq_some {e : Ending S k} {w : Reader S.Token}
    {other : Reader S.Token → Option (Ending S k)} {e' : Ending S k} (h : e.orElse w other = some e') :
    e' = e ∨ ∃ f e₂, e.result = .error f ∧ e.reader.cursor.offset = w.cursor.offset ∧
      other e.reader = some e₂ ∧ e' = e₂.mapFailure f.merge := by
  rw [orElse] at h
  cases hresult : e.result with
  | ok v =>
    rw [hresult] at h
    exact .inl (Option.some.inj h).symm
  | error f =>
    rw [hresult] at h
    by_cases hplace : e.reader.cursor.offset = w.cursor.offset
    · simp only [if_pos hplace] at h
      obtain ⟨e₂, h₂, h⟩ := Option.bind_eq_some_iff.1 h
      exact .inr ⟨f, e₂, rfl, hplace, h₂, (Option.some.inj h).symm⟩
    · simp only [if_neg hplace] at h
      exact .inl (Option.some.inj h).symm

end Ending

namespace Parser

variable {rules : Grammar S} {k a b c : Kind S.Base}

/-! ### Following rules deeper -/

/-- Every answer of the one is an answer of the other. -/
def Extends {α : Type} (x y : Option α) : Prop := ∀ a, x = some a → y = some a

namespace Extends

variable {α β : Type} {x y : Option α}

/-- Every answer of a computation is an answer of itself. -/
theorem refl (x : Option α) : Extends x x := fun _ h => h

/-- What extends in both steps extends in sequence. -/
theorem bind {f g : α → Option β} (h : Extends x y) (hf : ∀ a, Extends (f a) (g a)) :
    Extends (x >>= f) (y >>= g) := by
  intro b hb
  obtain ⟨a, ha, hb⟩ := Option.bind_eq_some_iff.1 hb
  exact Option.bind_eq_some_iff.2 ⟨a, h a ha, hf a b hb⟩

/-- An ending is continued to more answers by a continuation that has more. -/
theorem andThen {e : Ending S a} {next next' : S.Val a → Reader S.Token → Option (Ending S b)}
    (h : ∀ v w, Extends (next v w) (next' v w)) : Extends (e.andThen next) (e.andThen next') := by
  rw [Ending.andThen, Ending.andThen]
  cases e.result with
  | ok v => exact h v _
  | error f => exact refl _

/-- A choice has more answers if its second part does. -/
theorem orElse {e : Ending S k} {w : Reader S.Token}
    {other other' : Reader S.Token → Option (Ending S k)} (h : ∀ w, Extends (other w) (other' w)) :
    Extends (e.orElse w other) (e.orElse w other') := by
  rw [Ending.orElse, Ending.orElse]
  cases e.result with
  | ok v => exact refl _
  | error f =>
    simp only []
    split
    · exact (h _).bind fun _ => refl _
    · exact refl _

end Extends

/-- More answers for rules give more answers for parsers. -/
theorem evaluateWith_extends
    {unfold unfold' : (r : S.Rule) → Reader S.Token → Option (Ending S (S.ruleKind r))}
    (h : ∀ r w, Extends (unfold r w) (unfold' r w)) (p : Parser S k) (w : Reader S.Token) :
    Extends (p.evaluateWith unfold w) (p.evaluateWith unfold' w) := by
  induction p generalizing w with
  | pure | error | token | tokens | satisfy | oneOf | noneOf | take | take1 | takeWhile | takeWhile1
  | eof | newline => exact .refl _
  | map p f ih => exact (ih w).bind fun e => .andThen fun v w => .refl _
  | bind p f ih ihf => exact (ih w).bind fun e => .andThen fun v w => ihf v w
  | selectMany p f project ih ihf =>
    exact (ih w).bind fun e => .andThen fun v w => (ihf v w).bind fun e => .refl _
  | or p q ihp ihq => exact (ihp w).bind fun e => .orElse fun w => ihq w
  | «try» p ih | label name p ih | hidden p ih | lookAhead p ih | notFollowedBy p ih
  | observing p ih => exact (ih w).bind fun e => .refl _
  | rule r => exact h r w

/-- What rules end in, if that takes further rules less than the given number within each other. -/
def unfolding (rules : Grammar S) :
    Nat → (r : S.Rule) → Reader S.Token → Option (Ending S (S.ruleKind r))
  | 0 => fun _ _ => none
  | depth + 1 => fun r => evaluate rules depth (rules r)

/-- Evaluation to a depth is evaluation with the rules unfolded to that depth. -/
theorem evaluate_eq (depth : Nat) (p : Parser S k) (w : Reader S.Token) :
    p.evaluate rules depth w = p.evaluateWith (unfolding rules depth) w := by
  cases depth <;> rfl

/-- One more unfolding of the rules keeps every answer. -/
theorem evaluate_extends_succ (depth : Nat) (p : Parser S k) (w : Reader S.Token) :
    Extends (p.evaluate rules depth w) (p.evaluate rules (depth + 1) w) := by
  induction depth generalizing k p w with
  | zero => exact evaluateWith_extends (fun r w e h => by cases h) p w
  | succ depth ih => exact evaluateWith_extends (fun r w => ih (rules r) w) p w

/-- An answer stays when rules may be followed deeper. -/
theorem evaluate_le {m n : Nat} (h : m ≤ n) {p : Parser S k} {w : Reader S.Token} {e : Ending S k}
    (he : p.evaluate rules m w = some e) : p.evaluate rules n w = some e := by
  induction h with
  | refl => exact he
  | step _ ih => exact evaluate_extends_succ _ p w e ih

/-- The parser ends so, if rules are followed deep enough. -/
def Ends (rules : Grammar S) (p : Parser S k) (w : Reader S.Token) (e : Ending S k) : Prop :=
  ∃ depth, p.evaluate rules depth w = some e

/-- A parser has at most one ending on a reader. -/
theorem Ends.unique {p : Parser S k} {w : Reader S.Token} {e e' : Ending S k}
    (h : p.Ends rules w e) (h' : p.Ends rules w e') : e = e' := by
  obtain ⟨m, hm⟩ := h
  obtain ⟨n, hn⟩ := h'
  have left := evaluate_le (Nat.le_max_left m n) hm
  have right := evaluate_le (Nat.le_max_right m n) hn
  exact Option.some.inj (left.symm.trans right)

/-! ### The reader that is left -/

variable {w : Reader S.Token}

/-- Tokens that pass a test are no more than there are. -/
theorem length_takeWhile_le (w : Reader S.Token) (p : S.Token → Bool) :
    (w.remaining.takeWhile p).length ≤ w.remainingSize := by
  rw [← w.length_remaining]
  exact (List.takeWhile_sublist _).length_le

/-- Taking a token that passes a test leaves a reader that follows the first. -/
theorem follows_takeIf (test : S.Token → Bool) (expected : List (Item S.Token)) (hw : w.Inside) :
    (takeIf test expected w : Ending S .token).reader.Follows w := by
  rw [takeIf]
  split
  · next t h =>
    obtain ⟨hpeek, -⟩ := Option.filter_eq_some_iff.1 h
    exact Reader.follows_next hw (Reader.remainingSize_pos hpeek)
  · exact .refl hw

/-- Taking some tokens in a row leaves a reader that follows the first, also where it fails midway. -/
theorem follows_takeTokens (wanted : List S.Token) (hw : w.Inside) :
    (takeTokens wanted w : Ending S .run).reader.Follows w := by
  have matched : commonLength wanted w.remaining ≤ w.remainingSize := by
    rw [← w.length_remaining]
    exact commonLength_le_right _ _
  rw [takeTokens]
  split <;> exact Reader.follows_next hw matched

/-- Taking a number of tokens leaves a reader that follows the first. -/
theorem follows_takeCount (n : Nat) (hw : w.Inside) :
    (takeCount n w : Ending S .run).reader.Follows w := by
  rw [takeCount]
  split
  · exact .refl hw
  · exact Reader.follows_next hw (by rw [← w.length_remaining]; omega)

/-- Taking at least one token that passes a test leaves a reader that follows the first. -/
theorem follows_takeSome (p : S.Token → Bool) (hw : w.Inside) :
    (takeSome p w : Ending S .run).reader.Follows w := by
  rw [takeSome]
  split
  · exact .refl hw
  · exact Reader.follows_next hw (length_takeWhile_le w p)

/-- Asking for the end of the input leaves a reader that follows the first. -/
theorem follows_takeEnd (hw : w.Inside) : (takeEnd w : Ending S .unit).reader.Follows w := by
  rw [takeEnd]
  split <;> exact .refl hw

/-- Taking a line break leaves a reader that follows the first. -/
theorem follows_takeLineBreak (hw : w.Inside) :
    (takeLineBreak w : Ending S .token).reader.Follows w := by
  rw [takeLineBreak]
  split
  · next t h =>
    obtain ⟨hpeek, -⟩ := Option.filter_eq_some_iff.1 h
    exact Reader.follows_nextLine hpeek
  · exact .refl hw

/-- Parsers stay in the input that they read, and go back no further than where they started. -/
theorem evaluateWith_follows
    {unfold : (r : S.Rule) → Reader S.Token → Option (Ending S (S.ruleKind r))}
    (h : ∀ r w e, w.Inside → unfold r w = some e → e.reader.Follows w) (p : Parser S k)
    {e : Ending S k} (hw : w.Inside) (he : p.evaluateWith unfold w = some e) :
    e.reader.Follows w := by
  -- A parser within may start further on, so the reader is general in the induction.
  induction p generalizing w with
  | pure | error =>
    cases he
    exact .refl hw
  | token | satisfy | oneOf | noneOf | take1 =>
    cases he
    exact follows_takeIf _ _ hw
  | tokens ts =>
    cases he
    exact follows_takeTokens ts hw
  | take n =>
    cases he
    exact follows_takeCount n hw
  | takeWhile p =>
    cases he
    exact Reader.follows_next hw (length_takeWhile_le w p)
  | takeWhile1 p =>
    cases he
    exact follows_takeSome p hw
  | eof =>
    cases he
    exact follows_takeEnd hw
  | newline =>
    cases he
    exact follows_takeLineBreak hw
  | map p f ih =>
    obtain ⟨e₁, h₁, he⟩ := Option.bind_eq_some_iff.1 he
    rcases Ending.andThen_eq_some he with ⟨v, -, hv⟩ | ⟨f, -, rfl⟩
    · cases hv
      exact ih hw h₁
    · exact ih hw h₁
  | bind p f ih ihf =>
    obtain ⟨e₁, h₁, he⟩ := Option.bind_eq_some_iff.1 he
    have first := ih hw h₁
    rcases Ending.andThen_eq_some he with ⟨v, -, hv⟩ | ⟨f, -, rfl⟩
    · exact first.trans (ihf v first.inside hv)
    · exact first
  -- The third step, the projection, reads nothing: the end is where the second parser ended.
  | selectMany p f project ih ihf =>
    obtain ⟨e₁, h₁, he⟩ := Option.bind_eq_some_iff.1 he
    have first := ih hw h₁
    rcases Ending.andThen_eq_some he with ⟨v, -, hv⟩ | ⟨f, -, rfl⟩
    · obtain ⟨e₂, h₂, he⟩ := Option.bind_eq_some_iff.1 hv
      have second := first.trans (ihf v first.inside h₂)
      rcases Ending.andThen_eq_some he with ⟨v, -, hv⟩ | ⟨f, -, rfl⟩
      · cases hv
        exact second
      · exact second
    · exact first
  | or p q ihp ihq =>
    obtain ⟨e₁, h₁, he⟩ := Option.bind_eq_some_iff.1 he
    have first := ihp hw h₁
    rcases Ending.orElse_eq_some he with rfl | ⟨f, e₂, -, -, h₂, rfl⟩
    · exact first
    · have second : e₂.reader.Follows w := first.trans (ihq first.inside h₂)
      exact second
  -- Where it failed further on, it goes back to the start.
  | «try» p ih =>
    obtain ⟨e₁, h₁, he⟩ := Option.bind_eq_some_iff.1 he
    cases he
    rw [Ending.retried]
    split
    · exact ih hw h₁
    · exact .refl hw
  | label name p ih | hidden p ih =>
    obtain ⟨e₁, h₁, he⟩ := Option.bind_eq_some_iff.1 he
    cases he
    have part := ih hw h₁
    rw [Ending.relabelled]
    split <;> exact part
  | lookAhead p ih =>
    obtain ⟨e₁, h₁, he⟩ := Option.bind_eq_some_iff.1 he
    cases he
    rw [Ending.peeked]
    split
    · exact .refl hw
    · exact ih hw h₁
  | notFollowedBy p ih =>
    obtain ⟨e₁, h₁, he⟩ := Option.bind_eq_some_iff.1 he
    cases he
    rw [Ending.negated]
    split <;> exact .refl hw
  | observing p ih =>
    obtain ⟨e₁, h₁, he⟩ := Option.bind_eq_some_iff.1 he
    cases he
    exact ih hw h₁
  -- The one case that is about the grammar.
  | rule r => exact h r w e hw he

/-- Whatever the depth, an evaluation leaves a reader that follows the first. -/
theorem evaluate_follows {depth : Nat} {p : Parser S k} {e : Ending S k} (hw : w.Inside)
    (he : p.evaluate rules depth w = some e) : e.reader.Follows w := by
  -- On the unfoldings that are left: rules are unfolded with one less.
  induction depth generalizing k p w with
  | zero => exact evaluateWith_follows (fun r w e _ h => by cases h) p hw he
  | succ depth ih => exact evaluateWith_follows (fun r w e hw h => ih hw h) p hw he

/-- An ending leaves a reader that follows the first. -/
theorem Ends.follows {p : Parser S k} {e : Ending S k} (h : p.Ends rules w e) (hw : w.Inside) :
    e.reader.Follows w := by
  obtain ⟨depth, he⟩ := h
  exact evaluate_follows hw he

end Parser

end ParserMachine
