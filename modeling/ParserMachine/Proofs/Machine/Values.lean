import ParserMachine.Proofs.Machine.Failures
import ParserMachine.Proofs.Reading

/-!
# What a run leaves on the stack

A block that succeeds leaves one cell, which holds its value in one of four ways (`Reads`), and a block
that fails leaves one frame, which tells its failure (`Frame.Shows`). `Ended` says that the machine
stands so after a run, and which ending of the evaluator that is.

`Simulates` compares computations that may stop: the machine answers like the other one, or stops for
the same reason, or its stack overflows. `Simulates.bind` composes it, `Simulates.fits` brings in the operations on
stacks.
-/

set_option autoImplicit false

namespace ParserMachine.Machine

variable {S : Signature} {input : Input S.Token} {s pool : Stack (Object S)}
  {cells poolCells : List (Cell (Object S))} {c : Cell (Object S)} {k : Kind S.Base}

/-! ### Values -/

/-- The cell holds the result, in the given input: a token, a span for a run of tokens, the unit value,
or the result itself as an object. -/
inductive Reads (input : Input S.Token) : (k : Kind S.Base) → Cell (Object S) → S.Val k → Prop where
  | token (t : S.Token) : Reads input .token (.ofValue t) t
  | span {span : Span} {run : List S.Token} (h : span.of input = .ok run) :
    Reads input .run (.ofValue span) run
  | unit : Reads input .unit (.ofValue ()) ()
  | boxed {k : Kind S.Base} (v : S.Val k) : Reads input k (.object (.datum (.ofVal v))) v

/-- The machine keeps none of its own values under the tag of the tokens. -/
theorem tag_token_ne {α : Type} [Inline α] (h : (Inline.tag α).isReserved = true) :
    Inline.tag S.Token ≠ Inline.tag α := by
  intro same
  rw [← same, Token.tag_free] at h
  cases h

/-- The machine finds the result that the cell on top holds, in whichever way that is held. -/
theorem topDatum?_eq {v : S.Val k} (hc : Reads input k c v) (h : s.Holds (c :: cells)) :
    topDatum? input s = .ok (some (.ofVal v)) := by
  have span : (s.peek? : Option Span) = c.value? := h.peek?_cons
  have token : (s.peek? : Option S.Token) = c.value? := h.peek?_cons
  have unit : (s.peek? : Option Unit) = c.value? := h.peek?_cons
  rw [topDatum?, span, token, unit]
  cases hc with
  | token t =>
    rw [Cell.value?_ofValue_of_ne t (tag_token_ne rfl), Cell.value?_ofValue]
    rfl
  | @span span run hspan =>
    simp only [Cell.value?_ofValue, hspan]
    rfl
  | unit =>
    rw [Cell.value?_ofValue_of_ne () (by decide), Cell.value?_ofValue_of_ne () (tag_token_ne rfl).symm,
      Cell.value?_ofValue]
    rfl
  | boxed v =>
    have object : (s.peekObject? : Option (Datum S)) = some (.ofVal v) := h.peekObject?_cons
    simp only [Cell.value?_object, object]

/-- It finds it at the kind of the parser that left it. -/
theorem peekValue_eq {v : S.Val k} (hc : Reads input k c v) (h : s.Holds (c :: cells)) :
    peekValue input s k = .ok v := by
  simp only [peekValue, topDatum?_eq hc h, bind, Except.bind, Option.bind_some, Datum.toVal?_ofVal]

/-- Taking the result leaves the cells below. -/
theorem takeValue_eq {v : S.Val k} (hc : Reads input k c v) (h : s.Holds (c :: cells)) :
    ∃ t, takeValue input s k = .ok (v, t) ∧ t.Holds cells := by
  obtain ⟨t, hpop, ht⟩ := h.pop
  exact ⟨t, by simp only [takeValue, peekValue_eq hc h, hpop]; rfl, ht⟩

/-! ### Constants -/

/-- A constant in the bytes of the pool is read back. -/
theorem constantValue_eq {α : Type} [Inline α] {a : α} {id : Nat} (hp : pool.Represents poolCells)
    (hc : poolCells[id]? = some (.ofValue a)) : constantValue pool id = .ok a := by
  rw [constantValue, hp.get?_eq, hc, Option.bind_some, Cell.value?_ofValue]

/-- A constant that is an object is read back. -/
theorem constantObject_eq {α : Type} [Boxed (Object S) α] {a : α} {o : Object S} {id : Nat}
    (hp : pool.Represents poolCells) (hc : poolCells[id]? = some (.object o))
    (ho : Boxed.unbox o = some a) : constantObject pool id = .ok a := by
  have object : (pool.object? id : Option α) = some a := by
    rw [hp.object?_eq, hc]
    exact ho
  rw [constantObject, object]

/-! ### Endings -/

/-- The machine stands as after a parser that ended so, at the given depth and with the given cells
beneath what the parser left. -/
inductive Ended (input : Input S.Token) (cells : List (Cell (Object S))) (depth : Nat) :
    Reply × State S → Ending S k → Prop where
  | value {w : Reader S.Token} {s : Stack (Object S)} {c : Cell (Object S)} {v : S.Val k}
      (hc : Reads input k c v) (h : s.Holds (c :: cells)) :
    Ended input cells depth (.ok, ⟨w, s, depth⟩) ⟨.ok v, w⟩
  | failure {w : Reader S.Token} {s : Stack (Object S)} {top : List (Cell (Object S))} {f : Failure S}
      (hf : Frame.Shows input f top) (h : s.Holds (top ++ cells)) :
    Ended input cells depth (.err, ⟨w, s, depth⟩) ⟨.error f, w⟩

/-! ### Simulation -/

/-- The stop of a stack that cannot grow. -/
def Stop.IsOverflow : Stop → Prop
  | fault f => f.IsOverflow
  | _ => False

/-- The first computation does what the second does, up to the given relation, unless a stack
overflows. -/
def Simulates {α β : Type} (R : α → β → Prop) (x : Except Stop α) (y : Except Stop β) : Prop :=
  match x with
  | .ok a => ∃ b, y = .ok b ∧ R a b
  | .error stop => stop.IsOverflow ∨ y = .error stop

namespace Simulates

variable {α β α' β' : Type} {R : α → β → Prop} {R' : α' → β' → Prop} {x : Except Stop α}
  {y : Except Stop β}

/-- Two answers that are related. -/
theorem ok {a : α} {b : β} (h : R a b) : Simulates R (.ok a) (.ok b) := ⟨b, rfl, h⟩

/-- Two computations that stop for the same reason. -/
theorem stopped (stop : Stop) : Simulates R (.error stop) (.error stop) := .inr rfl

/-- The relation may be weakened where the second computation answers. -/
theorem mono {R' : α → β → Prop} (h : Simulates R x y) (himp : ∀ a b, y = .ok b → R a b → R' a b) :
    Simulates R' x y := by
  cases x with
  | ok a =>
    obtain ⟨b, hb, hab⟩ := h
    exact ⟨b, hb, himp a b hb hab⟩
  | error stop => exact h

/-- Computations go on alike from what they answered alike. -/
theorem bind {f : α → Except Stop α'} {g : β → Except Stop β'} (h : Simulates R x y)
    (hfg : ∀ a b, y = .ok b → R a b → Simulates R' (f a) (g b)) :
    Simulates R' (x >>= f) (y >>= g) := by
  cases x with
  | ok a =>
    obtain ⟨b, rfl, hab⟩ := h
    exact hfg a b rfl hab
  | error stop =>
    rcases h with overflow | rfl
    · exact .inl overflow
    · exact .inr rfl

/-- The machine does more than the other one, which has ended. -/
theorem further {f : α → Except Stop α'} {R' : α' → β → Prop} (h : Simulates R x y)
    (hf : ∀ a b, y = .ok b → R a b → Simulates R' (f a) (.ok b)) : Simulates R' (x >>= f) y := by
  cases x with
  | ok a =>
    obtain ⟨b, rfl, hab⟩ := h
    exact hf a b rfl hab
  | error stop => exact h

/-- Where the other one answered, only an overflow can stop the machine. -/
theorem overflows (h : Simulates R x y) {b : β} (hy : y = .ok b) :
    Yields Stop.IsOverflow x (R · b) := by
  rw [hy] at h
  cases x with
  | ok a =>
    obtain ⟨b', hb, hab⟩ := h
    cases hb
    exact hab
  | error stop => exact h.resolve_right fun same => nomatch same

/-- The machine answers with more than the other one. -/
theorem map {f : α → α'} {R' : α' → β → Prop} (h : Simulates R x y)
    (hf : ∀ a b, R a b → R' (f a) b) : Simulates R' (x >>= fun a => pure (f a)) y := by
  cases x with
  | ok a =>
    obtain ⟨b, hb, hab⟩ := h
    exact ⟨b, hb, hf a b hab⟩
  | error stop => exact h

/-- The machine does something more on its stacks, which can only overflow. -/
theorem fits {γ : Type} {z : Except Fault γ} {post : γ → Prop} {f : γ → Except Stop α}
    (h : Fits z post) (hf : ∀ t, post t → Simulates R (f t) y) :
    Simulates R ((liftM z : Except Stop γ) >>= f) y := by
  cases z with
  | ok t => exact hf t h
  | error fault => exact .inl h

/-- The machine does something more on its stacks, which cannot fail. -/
theorem answers {γ : Type} {z : Except Fault γ} {t : γ} {f : γ → Except Stop α} (h : z = .ok t)
    (hf : Simulates R (f t) y) : Simulates R ((liftM z : Except Stop γ) >>= f) y := by
  rw [h]
  exact hf

/-- The machine does the same, and then something on its stacks, which can only overflow. -/
theorem after {g : β → Except Fault α} (h : ∀ b, y = .ok b → Fits (g b) (R · b)) :
    Simulates R (y >>= fun b => (liftM (g b) : Except Stop α)) y := by
  cases y with
  | error stop => exact stopped stop
  | ok b =>
    have fits := h b rfl
    show Simulates R (liftM (g b)) (.ok b)
    cases hg : g b with
    | ok a => exact ⟨b, rfl, fits.post_of_eq_ok hg⟩
    | error fault => exact .inl (fits.allowed_of_eq_error hg)

/-- The machine does all on its stacks, which can only overflow. -/
theorem ofFits {z : Except Fault α} {b : β} (h : Fits z (R · b)) :
    Simulates R (liftM z : Except Stop α) (.ok b) := by
  cases z with
  | ok a => exact ⟨b, rfl, h⟩
  | error fault => exact .inl h

end Simulates

end ParserMachine.Machine
