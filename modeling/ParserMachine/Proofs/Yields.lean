import ParserMachine.Stack

/-!
# Answers, unless a resource runs out

`Yields allowed x post` says of a computation that may fail: it answers, and the answer satisfies
`post`, or it fails in a way that `allowed` permits. It is the form of all statements about the
machine that hold as long as memory lasts: `Yields.bind` composes them along a computation, and a
failure that is not allowed has nowhere to hide.

`Fault.IsOverflow` are the faults of a stack that cannot grow, and `Fault.IsRefusal` those of a parser
too large to be built.
-/

set_option autoImplicit false

namespace ParserMachine

/-- The fault of a stack that may not grow as far as it would have to, or whose index entries cannot
tell where a slot lies. -/
def Fault.IsOverflow : Fault → Prop
  | stackOverflow needed limit => limit < needed
  | offsetOutOfRange place | objectOutOfRange place => objectFlag ≤ place
  | _ => False

/-- The fault of a parser with more constants, longer blocks or larger counts than operands can tell. -/
def Fault.IsRefusal : Fault → Prop
  | tooManyConstants count => UInt16.size < count
  | takeTooLarge size | blockTooLong size => UInt32.size ≤ size
  | _ => False

/-- The fault of a parser that cannot be built. -/
def Fault.IsUnbuildable (f : Fault) : Prop := f.IsOverflow ∨ f.IsRefusal

/-- The computation answers with a value that satisfies `post`, or fails as allowed. -/
def Yields {ε α : Type} (allowed : ε → Prop) (x : Except ε α) (post : α → Prop) : Prop :=
  match x with
  | .ok a => post a
  | .error e => allowed e

/-- A computation that is known to have succeeded has an answer. -/
theorem exists_of_isOk {ε α : Type} {x : Except ε α} (h : x.isOk = true) : ∃ a, x = .ok a := by
  cases x with
  | ok a => exact ⟨a, rfl⟩
  | error e => cases h

/-- What an answer is told to be, it is. -/
theorem exists_of_map_toOption {ε α β : Type} {x : Except ε α} {f : α → β} {b : β}
    (h : x.toOption.map f = some b) : ∃ a, x = .ok a ∧ f a = b := by
  cases x with
  | ok a => exact ⟨a, rfl, Option.some.inj h⟩
  | error e => cases h

/-- What answered came from an answer of its first part. -/
theorem exists_of_bind_eq_ok {ε α β : Type} {x : Except ε α} {f : α → Except ε β} {b : β}
    (h : x >>= f = .ok b) : ∃ a, x = .ok a ∧ f a = .ok b := by
  cases x with
  | ok a => exact ⟨a, rfl, h⟩
  | error e => cases h

namespace Yields

variable {ε ε' α β : Type} {allowed : ε → Prop} {x : Except ε α} {post post' : α → Prop}

/-- An answer yields just what is asked of it. -/
@[simp] theorem ok_iff {a : α} : Yields allowed (.ok a) post ↔ post a := Iff.rfl

/-- A failure yields just if it is allowed. -/
@[simp] theorem error_iff {e : ε} : Yields allowed (.error e) post ↔ allowed e := Iff.rfl

/-- A computation that only answers yields what is asked of the answer. -/
@[simp] theorem pure_iff {a : α} : Yields allowed (pure a) post ↔ post a := Iff.rfl

/-- An answer is as promised, whatever failures were allowed. -/
theorem post_of_eq_ok (h : Yields allowed x post) {a : α} (hx : x = .ok a) : post a := by
  rwa [hx] at h

/-- A failure is one of those that were allowed. -/
theorem allowed_of_eq_error (h : Yields allowed x post) {e : ε} (hx : x = .error e) :
    allowed e := by
  rwa [hx] at h

/-- A computation whose answer is known yields what that answer has. -/
theorem of_eq {a : α} (hx : x = .ok a) (ha : post a) : Yields allowed x post := by
  rwa [hx]

/-- What is promised may be weakened. -/
theorem mono (h : Yields allowed x post) (himp : ∀ a, post a → post' a) :
    Yields allowed x post' := by
  cases x with
  | ok a => exact himp a h
  | error e => exact h

/-- Further failures may be allowed. -/
theorem weaken {allowed' : ε → Prop} (h : Yields allowed x post) (himp : ∀ e, allowed e → allowed' e) :
    Yields allowed' x post := by
  cases x with
  | ok a => exact h
  | error e => exact himp e h

/-- A computation followed by another. -/
theorem bind {f : α → Except ε β} {after : β → Prop} (h : Yields allowed x post)
    (hf : ∀ a, post a → Yields allowed (f a) after) : Yields allowed (x >>= f) after := by
  cases x with
  | ok a => exact hf a h
  | error e => exact h

/-- A computation whose failures are told in another way. -/
theorem mapError {allowed' : ε' → Prop} {g : ε → ε'} (h : Yields allowed x post)
    (hg : ∀ e, allowed e → allowed' (g e)) : Yields allowed' (x.mapError g) post := by
  cases x with
  | ok a => exact h
  | error e => exact hg e h

end Yields

/-- The computation on stacks answers as told, unless a stack overflows. -/
abbrev Fits {α : Type} (x : Except Fault α) (post : α → Prop) : Prop :=
  Yields Fault.IsOverflow x post

/-- The computation answers as told, if it answers. -/
abbrev Ensures {ε α : Type} (x : Except ε α) (post : α → Prop) : Prop :=
  Yields (fun _ => True) x post

namespace Ensures

variable {ε α β : Type} {x : Except ε α} {post post' : α → Prop} {f g : α → Except ε β}

/-- What comes after a computation is told from its answer alone. -/
theorem andThen {after : β → Prop} (h : ∀ a, x = .ok a → Ensures (f a) after) :
    Ensures (x >>= f) after := by
  cases x with
  | ok a => exact h a rfl
  | error e => trivial

/-- Computations that go on alike from every answer that there can be. -/
theorem bind_congr (h : Ensures x post) (hfg : ∀ a, post a → f a = g a) : x >>= f = x >>= g := by
  cases x with
  | ok a => exact hfg a h
  | error e => rfl

/-- Two promises about one computation are one promise. -/
theorem and (h : Ensures x post) (h' : Ensures x post') : Ensures x fun a => post a ∧ post' a := by
  cases x with
  | ok a => exact ⟨h, h'⟩
  | error e => trivial

end Ensures

end ParserMachine
