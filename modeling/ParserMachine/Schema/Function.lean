import ParserMachine.Schema.Value

/-!
# Functions of schemas

The predicates on tokens, the functions on values and the combinations of two values that a schema
can name, and what each computes.
-/

set_option autoImplicit false

namespace ParserMachine

/-- A test of the number of a token. -/
inductive Predicate where
  | any
  | never
  | digit
  | lower
  | upper
  | alpha
  /-- From the first number to the second, both included. -/
  | range (first last : Int64)
  /-- One of some numbers. -/
  | among (codes : List Int64)
  | not (p : Predicate)
  /-- At least one of some tests. -/
  | or (ps : List Predicate)

namespace Predicate

/-- The test without parameters that has a name. -/
def ofName? : String → Option Predicate
  | "any" => some any
  | "never" => some never
  | "digit" => some digit
  | "lower" => some lower
  | "upper" => some upper
  | "alpha" => some alpha
  | _ => none

/-- Whether a number lies between two others, or is one of them. -/
def between (first last n : Int64) : Bool := first ≤ n && n ≤ last

/-- Whether a number passes a test. -/
def holds : Predicate → Int64 → Bool
  | any, _ => true
  | never, _ => false
  | digit, n => between 48 57 n
  | lower, n => between 97 122 n
  | upper, n => between 65 90 n
  | alpha, n => between 97 122 n || between 65 90 n
  | range first last, n => between first last n
  | among codes, n => codes.contains n
  | not p, n => !p.holds n
  | or ps, n => anyHolds ps n
where
  /-- Whether a number passes one of some tests. -/
  anyHolds : List Predicate → Int64 → Bool
    | [], _ => false
    | p :: ps, n => p.holds n || anyHolds ps n

end Predicate

/-- A function on values. -/
inductive Transform (τ : Type) [Ord τ] where
  | identity
  /-- The list of the value alone. -/
  | wrap
  /-- The size. -/
  | length
  /-- The number. -/
  | sum
  /-- One more than the number. -/
  | increment
  /-- The number with the other sign. -/
  | negate
  /-- Tokens read as decimal digits. -/
  | decimal
  /-- Runs and lists backwards. -/
  | reverse
  /-- 1 for an observed success, 0 for an observed failure, 2 for all else. -/
  | isOk
  /-- Always the given value. -/
  | const (v : Value τ)

namespace Transform

variable {τ : Type} [Ord τ] [Coded τ]

/-- The function without parameters that has a name. -/
def ofName? : String → Option (Transform τ)
  | "id" => some identity
  | "wrap" => some wrap
  | "len" => some length
  | "sum" => some sum
  | "inc" => some increment
  | "neg" => some negate
  | "dec" => some decimal
  | "rev" => some reverse
  | "is_ok" => some isOk
  | _ => none

/-- Tokens read as decimal digits, the first the highest. -/
def ofDigits (ts : List τ) : Int64 :=
  ts.foldl (fun n t => n * 10 + (Coded.code t - 48)) 0

/-- The value of a function. -/
def apply : Transform τ → Value τ → Value τ
  | identity, v => v
  | wrap, v => .list [v]
  | length, v => .number (Int64.ofNat v.size)
  | sum, v => .number v.toNumber
  | increment, v => .number (v.toNumber + 1)
  | negate, v => .number (-v.toNumber)
  | decimal, .token t => .number (ofDigits [t])
  | decimal, .run ts => .number (ofDigits ts)
  | decimal, _ => .number 0
  | reverse, .run ts => .run ts.reverse
  | reverse, .list items => .list items.reverse
  | reverse, v => v
  | isOk, .success _ => .number 1
  | isOk, .failure _ => .number 0
  | isOk, _ => .number 2
  | const v, _ => v

end Transform

/-- A combination of two values. -/
inductive Combine where
  | left
  | right
  /-- The list of both. -/
  | pair
  | add
  | sub
  | mul
  | max
  /-- One more than the number of the second. -/
  | increment
  /-- The first in front of a list. -/
  | cons
  /-- The second behind a list. -/
  | snoc
  deriving DecidableEq, Repr

namespace Combine

/-- The combination that has a name. -/
def ofName? : String → Option Combine
  | "left" => some left
  | "right" => some right
  | "pair" => some pair
  | "add" => some add
  | "sub" => some sub
  | "mul" => some mul
  | "max" => some max
  | "incr" => some increment
  | "cons" => some cons
  | "snoc" => some snoc
  | _ => none

variable {τ : Type} [Ord τ] [Coded τ]

/-- The value of a combination. Where `cons` and `snoc` find no list they make one of both values. -/
def apply (c : Combine) (a b : Value τ) : Value τ :=
  match c with
  | left => a
  | right => b
  | pair => .list [a, b]
  | add => .number (a.toNumber + b.toNumber)
  | sub => .number (a.toNumber - b.toNumber)
  | mul => .number (a.toNumber * b.toNumber)
  | max => .number (if a.toNumber ≤ b.toNumber then b.toNumber else a.toNumber)
  | increment => .number (b.toNumber + 1)
  | cons =>
    match b with
    | .list items => .list (a :: items)
    | b => .list [a, b]
  | snoc =>
    match a with
    | .list items => .list (items ++ [b])
    | a => .list [a, b]

end Combine

end ParserMachine
