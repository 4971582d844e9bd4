import ParserMachine.Error
import ParserMachine.Input

/-!
# Kinds of results

What parsers of one family are about is a `Signature`: the input tokens, the errors that the caller
may raise, the types that results may have besides those of the library's own parsers, and the names
of the rules that a recursive grammar refers to.

The result type of a parser is a `Kind`, and `Signature.Val` is the type that a kind stands for. A
`Datum` is a result without its kind: what a slot of the machine's stack holds. `Datum.ofVal` forgets
the kind and `Datum.toVal?` finds it again, and fails on the datum of another kind.
-/

set_option autoImplicit false

namespace ParserMachine

/-- The kinds of results, over the caller's own. -/
inductive Kind (β : Type) where
  /-- One input token. -/
  | token
  /-- A run of input tokens. -/
  | run
  /-- Nothing of interest. -/
  | unit
  /-- A type of the caller's own. -/
  | base (b : β)
  /-- What a parser of the given kind ended in: its value or its error. -/
  | observed (k : Kind β)
  deriving DecidableEq

/-- What a family of parsers is about. -/
structure Signature where
  /-- Input tokens. -/
  Token : Type
  /-- Errors of the caller's own. -/
  Custom : Type
  /-- Names of the caller's own result types. -/
  Base : Type
  /-- The caller's own result types. -/
  Value : Base → Type
  /-- Names of grammar rules. -/
  Rule : Type
  /-- What the parsers of rules result in. -/
  ruleKind : Rule → Kind Base
  [instToken : ParserMachine.Token Token]
  [instCustom : BEq Custom]
  [instBase : DecidableEq Base]

attribute [instance] Signature.instToken Signature.instCustom Signature.instBase

namespace Signature

instance transOrdItem (S : Signature) : Std.TransOrd (Item S.Token) := inferInstance
instance lawfulEqOrdItem (S : Signature) : Std.LawfulEqOrd (Item S.Token) := inferInstance
instance lawfulBEqToken (S : Signature) : LawfulBEq S.Token := inferInstance

/-- Errors of a family of parsers. -/
abbrev Error (S : Signature) : Type := ParseError S.Custom S.Token

/-- The results of a kind. -/
def Val (S : Signature) : Kind S.Base → Type
  | .token => S.Token
  | .run => List S.Token
  | .unit => Unit
  | .base b => S.Value b
  | .observed k => Except S.Error (S.Val k)

end Signature

/-- A result, of whatever kind. -/
inductive Datum (S : Signature) where
  | token (t : S.Token)
  | run (ts : List S.Token)
  | unit
  | base (b : S.Base) (v : S.Value b)
  /-- The value that an observed parser ended in. -/
  | success (d : Datum S)
  /-- The error that an observed parser ended in. -/
  | failure (e : S.Error)

namespace Datum

variable {S : Signature}

/-- A result without its kind. -/
def ofVal : {k : Kind S.Base} → S.Val k → Datum S
  | .token, t => .token t
  | .run, ts => .run ts
  | .unit, _ => .unit
  | .base b, v => .base b v
  | .observed _, .ok v => .success (ofVal v)
  | .observed _, .error e => .failure e

/-- A result of the given kind; nothing where the datum is of another. -/
def toVal? : (k : Kind S.Base) → Datum S → Option (S.Val k)
  | .token, .token t => some t
  | .run, .run ts => some ts
  | .unit, .unit => some ()
  | .base b, .base b' v => if h : b' = b then some (h ▸ v) else none
  | .observed k, .success d => (toVal? k d).map Except.ok
  | .observed _, .failure e => some (.error e)
  | _, _ => none

/-- A result that forgot its kind is found again at that kind, unchanged. -/
@[simp] theorem toVal?_ofVal {k : Kind S.Base} (v : S.Val k) : toVal? k (ofVal v) = some v := by
  induction k with
  | token | run | unit => rfl
  | base b => simp [ofVal, toVal?]
  | observed k ih =>
    cases v with
    | ok v => rw [ofVal, toVal?, ih]; rfl
    | error e => rfl

end Datum

end ParserMachine
