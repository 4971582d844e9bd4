/-!
# One computation beside another

`Tracks excused R x y` compares two computations that may fail. Where `x` answers, `y` answers too, and
the answers are related by `R`. Where `x` fails, `y` fails in the same way, unless the failure of `x` is
excused; then nothing is said of `y`.

It is the form of the statements that compare two runs of the machine: under different limits, in
different memory, or with their constants in different places.
`Tracks.bind` composes it along a computation. With equality for `R` it is equality of the computations,
unless the first one fails in an excused way (`Tracks.eq_or_excused`).
-/

set_option autoImplicit false

namespace ParserMachine

/-- The second computation does what the first one does, up to the given relation of answers, unless
the first fails in a way that is excused. -/
def Tracks {ε α β : Type} (excused : ε → Prop) (R : α → β → Prop) (x : Except ε α)
    (y : Except ε β) : Prop :=
  match x with
  | .ok a => ∃ b, y = .ok b ∧ R a b
  | .error e => excused e ∨ y = .error e

/-- Two answers of the same first part, the second parts related. -/
inductive Paired {α β γ : Type} (R : β → γ → Prop) : α × β → α × γ → Prop where
  | intro (a : α) {b : β} {c : γ} (h : R b c) : Paired R (a, b) (a, c)

namespace Tracks

variable {ε ε' α β α' β' : Type} {excused : ε → Prop} {R R' : α → β → Prop}
  {S : α' → β' → Prop} {x : Except ε α} {y : Except ε β}

/-- Two answers are tracked if they are related. -/
theorem ok {a : α} {b : β} (h : R a b) : Tracks excused R (.ok a) (.ok b) := ⟨b, rfl, h⟩

/-- A failure tracks itself. -/
theorem failed (e : ε) : Tracks excused R (.error e) (.error e) := .inr rfl

/-- A failure that is excused is tracked by whatever the other computation does. -/
theorem excuse {e : ε} (h : excused e) : Tracks excused R (.error e) y := .inl h

/-- What is related more closely is related more loosely. -/
theorem mono (h : Tracks excused R x y) (himp : ∀ a b, R a b → R' a b) :
    Tracks excused R' x y := by
  cases x with
  | ok a =>
    obtain ⟨b, hb, hab⟩ := h
    exact ⟨b, hb, himp a b hab⟩
  | error e => exact h

/-- Computations go on side by side from related answers. -/
theorem bind {f : α → Except ε α'} {g : β → Except ε β'} (h : Tracks excused R x y)
    (hfg : ∀ a b, R a b → Tracks excused S (f a) (g b)) : Tracks excused S (x >>= f) (y >>= g) := by
  cases x with
  | ok a =>
    obtain ⟨b, rfl, hab⟩ := h
    exact hfg a b hab
  | error e =>
    -- The failure of the first part is that of the whole, on either side.
    rcases h with h | rfl
    · exact .inl h
    · exact .inr rfl

/-- Computations that are the same go on side by side from the same answer. -/
theorem bindSame {z : Except ε α} {f : α → Except ε α'} {g : α → Except ε β'}
    (h : ∀ a, z = .ok a → Tracks excused S (f a) (g a)) :
    Tracks excused S (z >>= f) (z >>= g) := by
  cases z with
  | ok a => exact h a rfl
  | error e => exact failed e

/-- Two computations decide alike. -/
theorem ite {c : Prop} [Decidable c] {x' : Except ε α} {y' : Except ε β}
    (hpos : c → Tracks excused R x y) (hneg : ¬c → Tracks excused R x' y') :
    Tracks excused R (if c then x else x') (if c then y else y') := by
  split
  · next h => exact hpos h
  · next h => exact hneg h

/-- Computations whose failures are told in another way. -/
theorem mapError {g : ε → ε'} {excused' : ε' → Prop} (h : Tracks excused R x y)
    (hg : ∀ e, excused e → excused' (g e)) : Tracks excused' R (x.mapError g) (y.mapError g) := by
  cases x with
  | ok a =>
    obtain ⟨b, rfl, hab⟩ := h
    exact ok hab
  | error e =>
    rcases h with h | rfl
    · exact excuse (hg e h)
    · exact failed (g e)

/-- What has an answer is tracked by an answer. -/
theorem of_eq_ok (h : Tracks excused R x y) {a : α} (hx : x = .ok a) : ∃ b, y = .ok b ∧ R a b := by
  rwa [hx] at h

/-- A failure that is not excused is met in both. -/
theorem of_eq_error (h : Tracks excused R x y) {e : ε} (hx : x = .error e) :
    excused e ∨ y = .error e := by
  rwa [hx] at h

/-- Where answers are compared for equality, the computations are equal, or the first one fails in a way
that is excused. -/
theorem eq_or_excused {y : Except ε α} (h : Tracks excused Eq x y) :
    y = x ∨ ∃ e, x = .error e ∧ excused e := by
  cases x with
  | ok a =>
    obtain ⟨b, rfl, rfl⟩ := h
    exact .inl rfl
  | error e => exact h.symm.imp_right fun excused => ⟨e, rfl, excused⟩

/-- A computation tracks itself. -/
theorem refl {R : α → α → Prop} (hR : ∀ a, R a a) (x : Except ε α) : Tracks excused R x x := by
  cases x with
  | ok a => exact ok (hR a)
  | error e => exact failed e

end Tracks

end ParserMachine
