import ParserMachine.Machine.Step
import ParserMachine.Proofs.Parser.Evaluation

/-!
# Evaluation with the nesting of blocks

Between the machine and the evaluator stands a third account of a parser. Like the evaluator it goes
by the expression, without instructions and without a stack; like the machine it stops where blocks
nest too deep or a made parser cannot be built. `within` tells what the instructions of one block do,
given what the blocks within it do, and `nested` is that at a depth.

`nested_ends` is the way from here to the evaluator: where nothing stops the run, it ends as
`Parser.Ends` says. The way from the machine to here is `Proofs.Machine.Simulation`.
-/

set_option autoImplicit false

namespace ParserMachine

open Machine

variable {S : Signature}

namespace Parser

/-- What a parser does to a reader, or why it is stopped. -/
abbrev Attempt (S : Signature) : Type :=
  {k : Kind S.Base} → Parser S k → Reader S.Token → Except Stop (Ending S k)

/-- What the instructions of a parser end in, where the blocks within them end as told. A parser that
a function makes must be one that can be built. -/
def within (rules : Grammar S) (block : Attempt S) : Attempt S
  | _, .map p f, w => do
    (← within rules block p w).andThen fun v w => return ⟨.ok (f v), w⟩
  | _, .bind p f, w => do
    (← within rules block p w).andThen fun v w => do
      let _ ← build rules (f v)
      block (f v) w
  | _, .selectMany p f project, w => do
    (← within rules block p w).andThen fun a w => do
      let _ ← build rules (f a)
      (← block (f a) w).andThen fun b w => return ⟨.ok (project a b), w⟩
  | _, .or p q, w => do (← block p w).orElse w fun w => block q w
  | _, .try p, w => return (← block p w).retried w
  | _, .label name p, w => return (← block p w).relabelled w (some name)
  | _, .hidden p, w => return (← block p w).relabelled w none
  | _, .lookAhead p, w => return (← block p w).peeked w
  | _, .notFollowedBy p, w => return (← block p w).negated w
  | _, .observing p, w => return (← block p w).reified
  | _, .rule r, w => do
    let _ ← build rules (rules r)
    block (rules r) w
  -- The others are primitives, which the evaluator ends without looking at rules.
  | _, p, w =>
    match p.evaluateWith (fun _ _ => none) w with
    | some e => .ok e
    | none => .error .endless

/-- What a parser ends in as a block at a depth, with at most `maxDepth` blocks within each other; 0 is
for no limit. -/
def nested (rules : Grammar S) (maxDepth : Nat) : (fuel depth : Nat) → Attempt S
  | 0, _ => fun _ _ => .error .endless
  | fuel + 1, depth => fun p w =>
    if 0 < maxDepth && maxDepth < depth + 1 then .error (.tooDeep (depth + 1))
    else within rules (nested rules maxDepth fuel (depth + 1)) p w

/-! ### Towards the evaluator -/

/-- What the run answers, the family of answers comes to. -/
def Settles {α : Type} (x : Except Stop α) (y : Nat → Option α) : Prop :=
  ∀ a, x = .ok a → ∃ least, ∀ depth, least ≤ depth → y depth = some a

namespace Settles

variable {α β : Type} {k a b : Kind S.Base}

/-- What is answered at once settles at any depth. -/
theorem ok (a : α) : Settles (.ok a) fun _ => some a := by
  intro a' h
  cases h
  exact ⟨0, fun _ _ => rfl⟩

/-- Two steps settle at the larger of their depths. -/
theorem bind {x : Except Stop α} {y : Nat → Option α} {f : α → Except Stop β}
    {g : Nat → α → Option β} (h : Settles x y) (hf : ∀ a, Settles (f a) fun depth => g depth a) :
    Settles (x >>= f) fun depth => y depth >>= g depth := by
  intro b hb
  cases x with
  | error stop => cases hb
  | ok a =>
    obtain ⟨m, hm⟩ := h a rfl
    obtain ⟨n, hn⟩ := hf a b hb
    refine ⟨max m n, ?_⟩
    intro depth hdepth
    have first := hm depth (by omega)
    have second := hn depth (by omega)
    simp only [first]
    exact second

/-- A check that the evaluator does not make. -/
theorem check {x : Except Stop α} {f : α → Except Stop β} {y : Nat → Option β}
    (h : ∀ a, Settles (f a) y) : Settles (x >>= f) y := by
  intro b hb
  cases x with
  | error stop => cases hb
  | ok a => exact h a b hb

/-- An ending settles when it is continued if the continuation does. -/
theorem andThen {e : Ending S a} {next : S.Val a → Reader S.Token → Except Stop (Ending S b)}
    {next' : Nat → S.Val a → Reader S.Token → Option (Ending S b)}
    (h : ∀ v w, Settles (next v w) fun depth => next' depth v w) :
    Settles (e.andThen next) fun depth => e.andThen (next' depth) := by
  simp only [Ending.andThen]
  cases e.result with
  | ok v => exact h v _
  | error f => exact ok _

/-- A choice settles if its second part does. -/
theorem orElse {e : Ending S k} {w : Reader S.Token}
    {other : Reader S.Token → Except Stop (Ending S k)}
    {other' : Nat → Reader S.Token → Option (Ending S k)}
    (h : ∀ w, Settles (other w) fun depth => other' depth w) :
    Settles (e.orElse w other) fun depth => e.orElse w (other' depth) := by
  simp only [Ending.orElse]
  cases e.result with
  | ok v => exact ok _
  | error f =>
    by_cases hplace : e.reader.cursor.offset = w.cursor.offset
    · simp only [if_pos hplace]
      exact (h _).bind fun _ => ok _
    · simp only [if_neg hplace]
      exact ok _

end Settles

variable {rules : Grammar S} {k : Kind S.Base}

/-- The parser of a rule takes one more step to unfold. -/
theorem settles_rule {r : S.Rule} {w : Reader S.Token} {x : Except Stop (Ending S (S.ruleKind r))}
    (h : Settles x fun depth => (rules r).evaluate rules depth w) :
    Settles x fun depth => (Parser.rule r).evaluate rules depth w := by
  intro e he
  obtain ⟨least, hleast⟩ := h e he
  refine ⟨least + 1, ?_⟩
  intro depth hdepth
  obtain ⟨depth, rfl⟩ : ∃ d, depth = d + 1 := ⟨depth - 1, by omega⟩
  exact hleast depth (by omega)

/-- The instructions of a block settle on what the evaluator says if the blocks in it do. -/
theorem settles_within {block : Attempt S}
    (h : ∀ {k : Kind S.Base} (p : Parser S k) (w : Reader S.Token),
      Settles (block p w) fun depth => p.evaluate rules depth w)
    (p : Parser S k) (w : Reader S.Token) :
    Settles (within rules block p w) fun depth => p.evaluate rules depth w := by
  simp only [evaluate_eq] at h ⊢
  induction p generalizing w with
  | pure | error | token | tokens | satisfy | oneOf | noneOf | take | take1 | takeWhile | takeWhile1
  | eof | newline => exact .ok _
  | map p f ih => exact (ih w).bind fun e => .andThen fun v w => .ok _
  | bind p f ih ihf => exact (ih w).bind fun e => .andThen fun v w => .check fun _ => h (f v) w
  | selectMany p f project ih ihf =>
    exact (ih w).bind fun e => .andThen fun v w => .check fun _ =>
      (h (f v) w).bind fun e => .andThen fun v w => .ok _
  | or p q => exact (h p w).bind fun e => .orElse fun w => h q w
  | «try» p | label name p | hidden p | lookAhead p | notFollowedBy p | observing p =>
    exact (h p w).bind fun e => .ok _
  | rule r =>
    refine .check ?_
    intro _
    simp only [← evaluate_eq] at h ⊢
    exact settles_rule (h (rules r) w)

/-- Blocks within each other settle on what the evaluator says. -/
theorem settles_nested (maxDepth fuel depth : Nat) (p : Parser S k) (w : Reader S.Token) :
    Settles (nested rules maxDepth fuel depth p w) fun n => p.evaluate rules n w := by
  induction fuel generalizing k depth p w with
  | zero =>
    intro e he
    cases he
  | succ fuel ih =>
    rw [nested]
    split
    · intro e he
      cases he
    · exact settles_within (fun p w => ih (depth + 1) p w) p w

/-- Where nothing stops the run of a block, it ends as the evaluator says. -/
theorem nested_ends {maxDepth fuel depth : Nat} {p : Parser S k} {w : Reader S.Token}
    {e : Ending S k} (h : nested rules maxDepth fuel depth p w = .ok e) : p.Ends rules w e := by
  obtain ⟨least, hleast⟩ := settles_nested maxDepth fuel depth p w e h
  exact ⟨least, hleast least (Nat.le_refl _)⟩

/-- Where nothing stops the instructions of a block, they end as the evaluator says. -/
theorem within_ends {maxDepth fuel depth : Nat} {p : Parser S k} {w : Reader S.Token}
    {e : Ending S k} (h : p.within rules (nested rules maxDepth fuel depth) w = .ok e) :
    p.Ends rules w e := by
  obtain ⟨least, hleast⟩ := settles_within (settles_nested maxDepth fuel depth) p w e h
  exact ⟨least, hleast least (Nat.le_refl _)⟩

end Parser

end ParserMachine
