import ParserMachine.Proofs.Machine.Loading
import ParserMachine.Proofs.Machine.Values
import ParserMachine.Proofs.Parser.Nesting

/-!
# Why runs stop

A run of blocks within each other stops for three reasons only (`Stop.IsExhaustion`): blocks nest too
deep, a function of the grammar made a parser that cannot be built, or a stack overflows.

* `Parser.yields_nested` says so of `Parser.nested`, where there is no stack to overflow. It runs out of
  fuel only if no limit on nesting comes first.
* `Parser.Ends.exists_nested` is the way back from the evaluator, `Parser.nested_ends` being the way
  there: what the evaluator ends is ended on enough fuel.
* `Machine.Simulates.yields` brings both to the machine.
-/

set_option autoImplicit false

namespace ParserMachine

open Machine

variable {S : Signature}

/-- The stop of a run in which a function made a parser that cannot be built. -/
def Machine.Stop.IsUnbuilt : Stop → Prop
  | unbuilt f => f.IsUnbuildable
  | _ => False

/-- The stop of a run that needed more than there was: of nesting, where it is limited, of room for a
parser that a function made, or of room on a stack. That blocks nest without end is what the
second argument stands for. -/
def Machine.Stop.IsExhaustion (maxDepth : Nat) (nesting : Prop) : Stop → Prop
  | tooDeep depth => 0 < maxDepth ∧ maxDepth < depth
  | endless => nesting
  | unbuilt f => f.IsUnbuildable
  | fault f => f.IsOverflow

/-- A parser that cannot be built is one of the ways in which something runs out. -/
theorem Machine.Stop.IsUnbuilt.isExhaustion {maxDepth : Nat} {nesting : Prop} {stop : Stop}
    (h : stop.IsUnbuilt) : stop.IsExhaustion maxDepth nesting := by
  cases stop with
  | unbuilt f => exact h
  | tooDeep | endless | fault => exact h.elim

/-- What is known of the nesting may be weakened. -/
theorem Machine.Stop.IsExhaustion.imp {maxDepth : Nat} {nesting nesting' : Prop} {stop : Stop}
    (h : stop.IsExhaustion maxDepth nesting) (himp : nesting → nesting') :
    stop.IsExhaustion maxDepth nesting' := by
  cases stop with
  | endless => exact himp h
  | tooDeep | unbuilt | fault => exact h

/-- The machine stops where what it simulates stops, or its stack overflows. -/
theorem Machine.Simulates.yields {α β : Type} {R : α → β → Prop} {x : Except Stop α}
    {y : Except Stop β} {maxDepth : Nat} {nesting : Prop} {post : β → Prop} (h : Simulates R x y)
    (hy : Yields (Stop.IsExhaustion maxDepth nesting) y post) :
    Yields (Stop.IsExhaustion maxDepth (nesting ∧ y = .error .endless)) x
      fun a => ∃ b, y = .ok b ∧ R a b := by
  cases x with
  | ok a => exact h
  | error stop =>
    rcases h with overflow | rfl
    · cases stop with
      | fault f => exact overflow
      | tooDeep | endless | unbuilt => exact overflow.elim
    · cases stop with
      | endless => exact ⟨hy, rfl⟩
      | tooDeep | unbuilt | fault => exact hy

namespace Parser

variable {rules : Grammar S} {block : Attempt S} {maxDepth : Nat} {k a b : Kind S.Base}

/-- A parser that is built may only be refused for its size. -/
theorem yields_build (p : Parser S k) : Yields Stop.IsUnbuilt (build rules p) fun _ => True :=
  ((yields_compile p).mono fun _ _ => trivial).mapError fun _ h => h

/-! ### What stops a block -/

/-- Whether a run may use up its fuel before it meets the limit on nesting. -/
def RunsDry (maxDepth fuel depth : Nat) : Prop :=
  0 < maxDepth → 0 < fuel → fuel + depth ≤ maxDepth

/-- Where one more block may be started, fuel that the blocks in it may use up may be used up with one
more. -/
theorem RunsDry.of_succ {maxDepth fuel depth : Nat} (h : RunsDry maxDepth fuel (depth + 1))
    (limited : 0 < maxDepth) (shallow : depth + 1 ≤ maxDepth) : fuel + 1 + depth ≤ maxDepth := by
  have inner := h limited
  omega

section Allowed

variable {allowed : Stop → Prop}

/-- An ending is continued without other stops than those of the continuation. -/
theorem yields_andThen {e : Ending S a} {next : S.Val a → Reader S.Token → Except Stop (Ending S b)}
    (h : ∀ v w, Yields allowed (next v w) fun _ => True) :
    Yields allowed (e.andThen next) fun _ => True := by
  obtain ⟨f | v, w⟩ := e
  · trivial
  · exact h v w

/-- An alternative is tried without other stops than those of the alternative. -/
theorem yields_orElse {e : Ending S k} {w : Reader S.Token}
    {other : Reader S.Token → Except Stop (Ending S k)}
    (h : ∀ w, Yields allowed (other w) fun _ => True) :
    Yields allowed (e.orElse w other) fun _ => True := by
  obtain ⟨f | v, w'⟩ := e
  · rw [Ending.orElse]
    split
    · next hresult => cases hresult
    · split
      · exact (h w').bind fun _ _ => trivial
      · trivial
  · trivial

/-- A block stops where the blocks in it stop, or where it makes a parser that cannot be built. -/
theorem yields_within (hbuilt : ∀ stop, Stop.IsUnbuilt stop → allowed stop)
    (h : ∀ {k : Kind S.Base} (p : Parser S k) (w : Reader S.Token),
      Yields allowed (block p w) fun _ => True)
    (p : Parser S k) (w : Reader S.Token) :
    Yields allowed (within rules block p w) fun _ => True := by
  have made {k : Kind S.Base} (p : Parser S k) : Yields allowed (build rules p) fun _ => True :=
    (yields_build p).weaken hbuilt
  induction p generalizing w with
  | pure | error | token | tokens | satisfy | oneOf | noneOf | take | take1 | takeWhile | takeWhile1
  | eof | newline => trivial
  | map p f ih => exact (ih w).bind fun e _ => yields_andThen fun v w => trivial
  | bind p f ih ihf =>
    exact (ih w).bind fun e _ => yields_andThen fun v w =>
      (made (f v)).bind fun _ _ => h (f v) w
  | selectMany p f project ih ihf =>
    exact (ih w).bind fun e _ => yields_andThen fun v w =>
      (made (f v)).bind fun _ _ => (h (f v) w).bind fun e _ =>
        yields_andThen fun v w => trivial
  | or p q => exact (h p w).bind fun e _ => yields_orElse fun w => h q w
  | «try» p | label name p | hidden p | lookAhead p | notFollowedBy p | observing p =>
    exact (h p w).bind fun e _ => trivial
  | rule r => exact (made (rules r)).bind fun _ _ => h (rules r) w

end Allowed

/-- Blocks are stopped only where something runs out. -/
theorem yields_nested (maxDepth fuel depth : Nat) (p : Parser S k) (w : Reader S.Token) :
    Yields (Stop.IsExhaustion maxDepth (RunsDry maxDepth fuel depth))
      (nested rules maxDepth fuel depth p w) fun _ => True := by
  induction fuel generalizing k depth p w with
  | zero =>
    intro _ positive
    exact absurd positive (Nat.lt_irrefl 0)
  | succ fuel ih =>
    rw [nested]
    split
    · next deep =>
      rw [Bool.and_eq_true, decide_eq_true_iff, decide_eq_true_iff] at deep
      exact deep
    · next shallow =>
      rw [Bool.and_eq_true, decide_eq_true_iff, decide_eq_true_iff] at shallow
      -- A block within has one less fuel and is one deeper, so their sum is what it was.
      refine yields_within (fun stop h => h.isExhaustion) ?_ p w
      intro k p w
      refine (ih (depth + 1) p w).weaken ?_
      intro stop h
      exact h.imp fun dry limited _ => dry.of_succ limited (by omega)

/-! ### What the evaluator ends -/

/-- What is answered once is answered on all fuel but too little, unless a made parser cannot be built. -/
def Reaches {α : Type} (x : Nat → Except Stop α) (y : Option α) : Prop :=
  ∀ a, y = some a → ∃ least, ∀ fuel, least ≤ fuel → Yields Stop.IsUnbuilt (x fuel) (· = a)

namespace Reaches

variable {α β : Type} {y : Option α}

/-- An answer is reached on any fuel. -/
theorem ok (a : α) : Reaches (fun _ => .ok a) (some a) := by
  intro a' h
  cases h
  exact ⟨0, fun _ _ => rfl⟩

/-- What is reached in two steps is reached on the larger of the two amounts of fuel. -/
theorem bind {x : Nat → Except Stop α} {f : Nat → α → Except Stop β} {g : α → Option β}
    (h : Reaches x y) (hf : ∀ a, Reaches (fun fuel => f fuel a) (g a)) :
    Reaches (fun fuel => x fuel >>= f fuel) (y >>= g) := by
  intro b hb
  obtain ⟨a, ha, hb⟩ := Option.bind_eq_some_iff.1 hb
  obtain ⟨m, hm⟩ := h a ha
  obtain ⟨n, hn⟩ := hf a b hb
  refine ⟨max m n, ?_⟩
  intro fuel hfuel
  refine (hm fuel (by omega)).bind ?_
  rintro a' rfl
  exact hn fuel (by omega)

/-- A check that the evaluator does not make. -/
theorem check {x : Except Stop β} {f : Nat → β → Except Stop α}
    (hx : Yields Stop.IsUnbuilt x fun _ => True) (h : ∀ b, Reaches (fun fuel => f fuel b) y) :
    Reaches (fun fuel => x >>= f fuel) y := by
  intro a ha
  cases x with
  | ok b => exact h b a ha
  | error stop => exact ⟨0, fun _ _ => hx⟩

/-- An ending is continued on fuel as soon as the continuation is. -/
theorem andThen {e : Ending S a} {next : Nat → S.Val a → Reader S.Token → Except Stop (Ending S b)}
    {next' : S.Val a → Reader S.Token → Option (Ending S b)}
    (h : ∀ v w, Reaches (fun fuel => next fuel v w) (next' v w)) :
    Reaches (fun fuel => e.andThen (next fuel)) (e.andThen next') := by
  obtain ⟨f | v, w⟩ := e
  · exact ok _
  · exact h v w

/-- An alternative is tried on fuel as soon as it is reached. -/
theorem orElse {e : Ending S k} {w : Reader S.Token}
    {other : Nat → Reader S.Token → Except Stop (Ending S k)}
    {other' : Reader S.Token → Option (Ending S k)}
    (h : ∀ w, Reaches (fun fuel => other fuel w) (other' w)) :
    Reaches (fun fuel => e.orElse w (other fuel)) (e.orElse w other') := by
  obtain ⟨f | v, w'⟩ := e
  · simp only [Ending.orElse]
    by_cases hplace : w'.cursor.offset = w.cursor.offset
    · simp only [if_pos hplace]
      exact (h w').bind fun _ => ok _
    · simp only [if_neg hplace]
      exact ok _
  · exact ok _

/-- A block takes one piece of fuel more than what is in it. -/
theorem nested {p : Parser S k} {w : Reader S.Token} {depth : Nat} {y : Option (Ending S k)}
    (h : Reaches (fun fuel => within rules (nested rules 0 fuel (depth + 1)) p w) y) :
    Reaches (fun fuel => Parser.nested rules 0 fuel depth p w) y := by
  intro e he
  obtain ⟨least, hleast⟩ := h e he
  refine ⟨least + 1, ?_⟩
  intro fuel hfuel
  obtain ⟨fuel, rfl⟩ : ∃ f, fuel = f + 1 := ⟨fuel - 1, by omega⟩
  exact hleast fuel (by omega)

end Reaches

/-- A block is run on fuel to the ending of the evaluator if the rules in it are. -/
theorem reaches_within {n : Nat}
    (h : ∀ r depth w, Reaches (fun fuel => nested rules 0 fuel depth (rules r) w)
      (unfolding rules n r w))
    (p : Parser S k) (depth : Nat) (w : Reader S.Token) :
    Reaches (fun fuel => within rules (nested rules 0 fuel depth) p w)
      (p.evaluateWith (unfolding rules n) w) := by
  induction p generalizing depth w with
  | pure | error | token | tokens | satisfy | oneOf | noneOf | take | take1 | takeWhile | takeWhile1
  | eof | newline => exact .ok _
  | map p f ih => exact (ih depth w).bind fun e => .andThen fun v w => .ok _
  | bind p f ih ihf =>
    exact (ih depth w).bind fun e => .andThen fun v w => .check (yields_build (f v)) fun _ =>
      .nested (ihf v (depth + 1) w)
  | selectMany p f project ih ihf =>
    exact (ih depth w).bind fun e => .andThen fun v w => .check (yields_build (f v)) fun _ =>
      (Reaches.nested (ihf v (depth + 1) w)).bind fun e => .andThen fun v w => .ok _
  | or p q ihp ihq =>
    exact (Reaches.nested (ihp (depth + 1) w)).bind fun e => .orElse fun w =>
      .nested (ihq (depth + 1) w)
  | «try» p ih | label name p ih | hidden p ih | lookAhead p ih | notFollowedBy p ih
  | observing p ih => exact (Reaches.nested (ih (depth + 1) w)).bind fun e => .ok _
  | rule r => exact .check (yields_build (rules r)) fun _ => h r depth w

/-- Blocks within each other are run on fuel to the ending of the evaluator. -/
theorem reaches_nested (n : Nat) (p : Parser S k) (depth : Nat) (w : Reader S.Token) :
    Reaches (fun fuel => nested rules 0 fuel depth p w) (p.evaluate rules n w) := by
  induction n generalizing k p depth w with
  | zero =>
    have unfolded (r : S.Rule) (depth : Nat) (w : Reader S.Token) :
        Reaches (fun fuel => nested rules 0 fuel depth (rules r) w) (unfolding rules 0 r w) := by
      intro e he
      cases he
    rw [evaluate_eq]
    exact .nested (reaches_within unfolded p (depth + 1) w)
  | succ n ih =>
    have unfolded (r : S.Rule) (depth : Nat) (w : Reader S.Token) :
        Reaches (fun fuel => nested rules 0 fuel depth (rules r) w) (unfolding rules (n + 1) r w) :=
      ih (rules r) depth w
    rw [evaluate_eq]
    exact .nested (reaches_within unfolded p (depth + 1) w)

/-- What a parser ends in is what it ends in as a block, on all fuel but too little, unless a parser that
it makes cannot be built. -/
theorem Ends.exists_nested {p : Parser S k} {w : Reader S.Token} {e : Ending S k}
    (h : p.Ends rules w e) (depth : Nat) :
    ∃ least, ∀ fuel, least ≤ fuel →
      Yields Stop.IsUnbuilt (nested rules 0 fuel depth p w) (· = e) := by
  obtain ⟨n, hn⟩ := h
  exact reaches_nested n p depth w e hn

end Parser

end ParserMachine
