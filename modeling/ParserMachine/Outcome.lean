import ParserMachine.Error

/-!
# Outcomes

Every parse ends in a value or an error, having consumed input or not, at a position: four cases in
all. `Outcome.fold` tells them apart.
-/

set_option autoImplicit false

namespace ParserMachine

/-- How a parse ended. -/
structure Outcome (ε τ α : Type) [Ord τ] where
  /-- Whether any input was consumed. -/
  consumed : Bool
  /-- The value, or the error. -/
  result : Except (ParseError ε τ) α
  /-- Where the parse stopped. -/
  position : Position

namespace Outcome

variable {ε τ α ρ : Type} [Ord τ]

/-- Whether the parse succeeded. -/
def isOk (o : Outcome ε τ α) : Bool :=
  match o.result with
  | .ok _ => true
  | .error _ => false

/-- Whether the parse failed. -/
def isFailed (o : Outcome ε τ α) : Bool := !o.isOk

/-- Whether no input was consumed. -/
def isEmpty (o : Outcome ε τ α) : Bool := !o.consumed

/-- The parsed value, if there is one. -/
def value? (o : Outcome ε τ α) : Option α :=
  match o.result with
  | .ok value => some value
  | .error _ => none

/-- The error, if there is one. -/
def error? (o : Outcome ε τ α) : Option (ParseError ε τ) :=
  match o.result with
  | .ok _ => none
  | .error error => some error

/-- An error is told only by an outcome that is a failure. -/
theorem result_of_error? {o : Outcome ε τ α} {e : ParseError ε τ} (h : o.error? = some e) :
    o.result = .error e := by
  rw [error?] at h
  split at h
  · cases h
  · next failed =>
    cases h
    exact failed

/-- Case analysis over the four outcomes. -/
def fold (o : Outcome ε τ α) (consumedOk emptyOk : α → Position → ρ)
    (consumedErr emptyErr : ParseError ε τ → Position → ρ) : ρ :=
  match o.result, o.consumed with
  | .ok value, true => consumedOk value o.position
  | .ok value, false => emptyOk value o.position
  | .error error, true => consumedErr error o.position
  | .error error, false => emptyErr error o.position

/-- Equality of outcomes: of the case, the value or error, and the position by name and offset. -/
def same [DecidableEq τ] [BEq ε] [BEq α] (a b : Outcome ε τ α) : Bool :=
  a.consumed == b.consumed && a.position.same b.position &&
    match a.result, b.result with
    | .ok x, .ok y => x == y
    | .error x, .error y => x.same y
    | _, _ => false

end Outcome

end ParserMachine
