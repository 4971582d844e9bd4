import ParserMachine.Parser

/-!
# Values of schemas

A schema is a grammar written as data (`Schema`). What its parsers result in, beside tokens, runs
and nothing, is a `Value`: one type for whatever such a grammar can build. Numbers are 64-bit words
with a sign, and all arithmetic on them wraps.

Every value has a number (`Value.number`) and a size (`Value.size`), by which the functions of a
schema can work on any value.
-/

set_option autoImplicit false

namespace ParserMachine

/-- Errors that a schema may raise: a number and a text. -/
structure Remark where
  code : Int64
  text : String
  deriving DecidableEq, Repr

instance : ToString Remark where
  toString r := s!"custom {r.code}: {r.text}"

/-- Tokens that stand for a number. -/
class Coded (τ : Type) where
  /-- The number of a token. -/
  code : τ → Int64

namespace Coded

instance : Coded Char := ⟨fun c => Int64.ofNat c.toNat⟩
instance : Coded UInt8 := ⟨fun n => Int64.ofNat n.toNat⟩
instance : Coded UInt16 := ⟨fun n => Int64.ofNat n.toNat⟩
instance : Coded UInt32 := ⟨fun n => Int64.ofNat n.toNat⟩
instance : Coded Int32 := ⟨Int32.toInt64⟩
instance : Coded Int64 := ⟨id⟩

end Coded

/-- What the parsers of a schema result in. -/
inductive Value (τ : Type) [Ord τ] where
  | unit
  | number (n : Int64)
  | text (s : String)
  | list (items : List (Value τ))
  | token (t : τ)
  | run (ts : List τ)
  /-- The value that an observed parser ended in. -/
  | success (v : Value τ)
  /-- The error that an observed parser ended in. -/
  | failure (e : ParseError Remark τ)

namespace Value

variable {τ : Type} [Ord τ]

/-- The sum of the numbers of some tokens. -/
def sumCodes [Coded τ] (ts : List τ) : Int64 :=
  ts.foldl (fun n t => n + Coded.code t) 0

/-- The number of a value: its own, that of its token, or the sum of those inside it. An observed
error counts -1. -/
def toNumber [Coded τ] : Value τ → Int64
  | unit => 0
  | number n => n
  | text _ => 0
  | list items => sum items
  | token t => Coded.code t
  | run ts => sumCodes ts
  | success v => v.toNumber
  | failure _ => -1
where
  /-- The sum of the numbers of some values. -/
  sum : List (Value τ) → Int64
    | [] => 0
    | v :: vs => v.toNumber + sum vs

/-- The size of a value: its characters, tokens or items; none for the unit value and 1 for every
other. -/
def size : Value τ → Nat
  | unit => 0
  | text s => s.length
  | list items => items.length
  | run ts => ts.length
  | _ => 1

end Value

/-- What the parsers of a schema are about. -/
abbrev Schema.signature (τ : Type) [Token τ] : Signature where
  Token := τ
  Custom := Remark
  Base := Unit
  Value _ := Value τ
  Rule := String
  ruleKind _ := .base ()

namespace Schema

variable {τ : Type} [Token τ]

/-- The kind of parsers that result in a value. -/
abbrev valueKind : Kind Unit := .base ()

/-- A result of any kind as a value. -/
def toValue : (k : Kind Unit) → (signature τ).Val k → Value τ
  | .token, t => .token t
  | .run, ts => .run ts
  | .unit, _ => .unit
  | .base _, v => v
  | .observed k, .ok v => .success (toValue k v)
  | .observed _, .error e => .failure e

end Schema

end ParserMachine
