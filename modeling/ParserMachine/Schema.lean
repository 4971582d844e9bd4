import ParserMachine.Machine.Program
import ParserMachine.Schema.Function

/-!
# Schemas

A schema is a grammar written as data: the parsers and combinations of the library, with the
functions of `Schema.Function` where the library takes arbitrary ones. `Schema.build` makes the
parser that a schema describes, of the kind that its form has; parsers that functions make, and the
parsers of rules, result in values.

A parser of another kind is *lifted* where a value is wanted: its result is mapped to a value, which
is an instruction of its own in the program.

The parsers that a function only chooses among are *held* by it, and stand ready before it is applied.
So a schema has a program only if all the parsers that its functions hold have one, whether they are
ever run or not. The parser of a rule is held by nothing: it is made when the rule is run.
-/

set_option autoImplicit false

namespace ParserMachine

/-- Wrappers that a schema can nest many times. -/
inductive Schema.Wrapper where
  | try
  | hidden
  | lookAhead
  | label (name : String)
  | notFollowedBy
  /-- Mapping the result to a value. -/
  | toValue

mutual

/-- A grammar written as data. -/
inductive Schema (τ : Type) [Ord τ] where
  | pure (v : Value τ)
  | pureToken (t : τ)
  | pureRun (ts : List τ)
  | pureUnit
  /-- Fails; the kind is that of the parsers it stands among. -/
  | error (c : Complaint Remark) (k : Kind Unit)
  | token (t : τ)
  | tokens (ts : List τ)
  | satisfy (p : Predicate)
  | oneOf (ts : List τ)
  | noneOf (ts : List τ)
  | take (n : Nat)
  | take1
  | takeWhile (p : Predicate)
  | takeWhile1 (p : Predicate)
  | eof
  | newline
  | try (s : Schema τ)
  | hidden (s : Schema τ)
  | lookAhead (s : Schema τ)
  | label (name : String) (s : Schema τ)
  | notFollowedBy (s : Schema τ)
  | or (s t : Schema τ)
  /-- A choice of several, from left to right. -/
  | choice (first : Schema τ) (others : List (Schema τ))
  /-- Joined with itself by `or`, the given number of times over. -/
  | double (n : Nat) (s : Schema τ)
  /-- Wrapped the given number of times. -/
  | nest (wrapper : Schema.Wrapper) (n : Nat) (s : Schema τ)
  | lift (s : Schema τ)
  | observing (s : Schema τ)
  | map (s : Schema τ) (f : Transform τ)
  | bind (s : Schema τ) (f : Continuation τ)
  | select (s : Schema τ) (f : Continuation τ) (project : Combine)
  /-- One parser, then another that does not look at the first value. -/
  | then (s next : Schema τ) (project : Combine)
  /-- Parsers one after the other; the values make a list. -/
  | seq (parts : List (Schema τ))
  | ref (name : String)

/-- How a grammar written as data goes on from a value. -/
inductive Continuation (τ : Type) [Ord τ] where
  /-- In the same way whatever the value. -/
  | then (next : Schema τ)
  /-- Succeeds with the value. -/
  | pure
  /-- Matches the token or run again; succeeds with any other value. -/
  | same
  /-- Matches one token of a run; succeeds with any other value. -/
  | oneOf
  /-- Takes as many tokens as the value's number says. -/
  | take
  /-- Goes on by whether the value's number is the given one. -/
  | cond (number : Int64) (yes no : Schema τ)
  /-- Fails with a message that tells the value's number. -/
  | fail
  /-- Fails with a remark that has the value's number. -/
  | error
  /-- Goes on under a name that tells the value's number. -/
  | label (next : Schema τ)
  /-- Succeeds if the value's size is related to a reference as required. -/
  | indent (required : Ordering) (reference : Nat)

end

namespace Schema

/-- The parser of a schema, with its kind. -/
structure Built (τ : Type) [Token τ] where
  kind : Kind Unit
  parser : Parser (signature τ) kind

/-- What a function on values goes on with, and the parsers that it holds. -/
structure Sequel (τ : Type) [Token τ] where
  held : List (Built τ)
  next : Value τ → Built τ

namespace Built

variable {τ : Type} [Token τ]

/-- The parser with its result mapped to a value, whatever its kind. -/
def mapToValue (b : Built τ) : Built τ :=
  ⟨valueKind, .map (b := valueKind) b.parser (toValue b.kind)⟩

/-- The parser with a value as its result: mapped to one unless it is one already. -/
def lift : Built τ → Parser (signature τ) valueKind
  | ⟨.base (), p⟩ => p
  | b => b.mapToValue.parser

/-- The choice of two parsers, lifted where their kinds differ. -/
def or (a b : Built τ) : Built τ :=
  if h : b.kind = a.kind then ⟨a.kind, .or a.parser (h ▸ b.parser)⟩
  else ⟨valueKind, .or a.lift b.lift⟩

/-- Whether the parser has a program. The parsers of rules are no part of it, so any rules will do. -/
def compiles (b : Built τ) : Bool :=
  (b.parser.compile fun _ => .fail "").isOk

/-- The parser, where it is to be followed by a function that holds others. Where it has a program and
one of those has none, the first of these takes its place. -/
def holding (b : Built τ) (held : List (Built τ)) : Built τ :=
  match held.find? (!·.compiles) with
  | some broken => if b.compiles then broken else b
  | none => b

/-- Parsers that all have a program are held without a trace. -/
theorem holding_of_compiles {b : Built τ} {held : List (Built τ)} (h : ∀ q ∈ held, q.compiles) :
    b.holding held = b := by
  have none : held.find? (!·.compiles) = none := by
    rw [List.find?_eq_none]
    intro q hq
    simp [h q hq]
  rw [holding, none]

/-- The parser in a wrapper. -/
def wrap (b : Built τ) : Wrapper → Built τ
  | .try => ⟨b.kind, .try b.parser⟩
  | .hidden => ⟨b.kind, .hidden b.parser⟩
  | .lookAhead => ⟨b.kind, .lookAhead b.parser⟩
  | .label name => ⟨b.kind, .label name b.parser⟩
  | .notFollowedBy => ⟨.unit, .notFollowedBy b.parser⟩
  | .toValue => b.mapToValue

/-- A parser whose result is a value. -/
def ofValue (p : Parser (signature τ) valueKind) : Built τ := ⟨valueKind, p⟩

/-- Succeeds with a value. -/
def pure (v : Value τ) : Built τ := .ofValue (.pure (S := signature τ) (k := valueKind) v)

/-- A parser whose result a function makes a value of. -/
def map (a : Built τ) (f : Value τ → Value τ) : Built τ :=
  .ofValue (.map (S := signature τ) (b := valueKind) a.parser fun v => f (toValue a.kind v))

/-- A parser, then one that is made of its value. -/
def bind (a : Built τ) (f : Sequel τ) : Built τ :=
  let a := a.holding f.held
  .ofValue (.bind a.parser fun v => (f.next (toValue a.kind v)).lift)

/-- One parser, then one that is made of its value, and both values combined. -/
def selectMany (a : Built τ) (f : Sequel τ) (project : Value τ → Value τ → Value τ) : Built τ :=
  let a := a.holding f.held
  .ofValue (.selectMany (S := signature τ) (c := valueKind) a.parser
    (fun v => (f.next (toValue a.kind v)).lift) (fun v w => project (toValue a.kind v) w))

/-- One parser, then another, and both values combined; neither is lifted. -/
def followedBy (a b : Built τ) (project : Value τ → Value τ → Value τ) : Built τ :=
  let a := a.holding [b]
  .ofValue (.selectMany (S := signature τ) (c := valueKind) a.parser (fun _ => b.parser)
    (fun v w => project (toValue a.kind v) (toValue b.kind w)))

end Built

namespace Sequel

variable {τ : Type} [Token τ]

/-- A function that holds no parser. -/
def ofFunction (next : Value τ → Built τ) : Sequel τ := ⟨[], next⟩

/-- The same parser, lifted, whatever the value. -/
def always (b : Built τ) : Sequel τ :=
  let lifted := .ofValue b.lift
  ⟨[lifted], fun _ => lifted⟩

/-- One of two parsers, lifted, by a test of the value. -/
def cond (test : Value τ → Bool) (yes no : Built τ) : Sequel τ :=
  let yes := .ofValue yes.lift
  let no := .ofValue no.lift
  ⟨[yes, no], fun v => if test v then yes else no⟩

/-- A parser, lifted, under a name that depends on the value. -/
def labelled (name : Value τ → String) (b : Built τ) : Sequel τ :=
  let lifted := .ofValue b.lift
  ⟨[lifted], fun v => lifted.wrap (.label (name v))⟩

end Sequel

variable {τ : Type} [Token τ] [Coded τ]

/-- A predicate as a test of tokens. -/
def test (p : Predicate) (t : τ) : Bool := p.holds (Coded.code t)

mutual

/-- The parser that a schema describes. -/
def build : Schema τ → Built τ
  | .pure v => .pure v
  | .pureToken t => ⟨.token, .pure t⟩
  | .pureRun ts => ⟨.run, .pure ts⟩
  | .pureUnit => ⟨.unit, .pure ()⟩
  | .error c k => ⟨k, .error c⟩
  | .token t => ⟨.token, .token t⟩
  | .tokens ts => ⟨.run, .tokens ts⟩
  | .satisfy p => ⟨.token, .satisfy (test p)⟩
  | .oneOf ts => ⟨.token, .oneOf ts⟩
  | .noneOf ts => ⟨.token, .noneOf ts⟩
  | .take n => ⟨.run, .take n⟩
  | .take1 => ⟨.token, .take1⟩
  | .takeWhile p => ⟨.run, .takeWhile (test p)⟩
  | .takeWhile1 p => ⟨.run, .takeWhile1 (test p)⟩
  | .eof => ⟨.unit, .eof⟩
  | .newline => ⟨.token, .newline⟩
  | .try s => s.build.wrap .try
  | .hidden s => s.build.wrap .hidden
  | .lookAhead s => s.build.wrap .lookAhead
  | .label name s => s.build.wrap (.label name)
  | .notFollowedBy s => s.build.wrap .notFollowedBy
  | .or s t => s.build.or t.build
  | .choice first others => (buildAll others).foldl Built.or first.build
  | .double n s => n.repeat (fun b => b.or b) s.build
  | .nest wrapper n s => n.repeat (·.wrap wrapper) s.build
  | .lift s => .ofValue s.build.lift
  | .observing s =>
    let b := s.build
    Built.mapToValue ⟨.observed b.kind, .observing b.parser⟩
  | .map s f => s.build.map f.apply
  | .bind s f => s.build.bind (buildAfter f)
  | .select s f project => s.build.selectMany (buildAfter f) project.apply
  | .then s next project => s.build.followedBy next.build project.apply
  | .seq parts =>
    (buildAll parts).foldl (fun b part => b.selectMany (.always part) Combine.snoc.apply)
      (.pure (.list []))
  | .ref name => .ofValue (.rule name)

/-- The parsers that some schemas describe. -/
def buildAll : List (Schema τ) → List (Built τ)
  | [] => []
  | s :: ss => s.build :: buildAll ss

/-- The function that a continuation describes. -/
def buildAfter : Continuation τ → Sequel τ
  | .then next => .always next.build
  | .pure => .ofFunction .pure
  | .same => .ofFunction fun
    | .token t => ⟨.token, .token t⟩
    | .run ts => ⟨.run, .tokens ts⟩
    | v => .pure v
  | .oneOf => .ofFunction fun
    | .run ts => ⟨.token, .oneOf ts⟩
    | v => .pure v
  | .take => .ofFunction fun v =>
    let n := v.toNumber
    if n < 0 then .ofValue (.fail "negative count") else ⟨.run, .take n.toNatClampNeg⟩
  | .cond number yes no => .cond (·.toNumber = number) yes.build no.build
  | .fail => .ofFunction fun v => .ofValue (.fail s!"rejected {v.toNumber}")
  | .error => .ofFunction fun v => .ofValue (.error (.custom ⟨v.toNumber, "bound"⟩))
  | .label next => .labelled (fun v => s!"after {v.toNumber}") next.build
  | .indent required reference => .ofFunction fun v =>
    if compare v.size reference = required then .pure v
    else .ofValue (.incorrectIndent required reference v.size)

end

/-- The grammar with the given rules. A name without a rule fails. -/
def rules (defs : List (String × Schema τ)) : Grammar (signature τ) := fun name =>
  match defs.lookup name with
  | some s => s.build.lift
  | none => .fail s!"undefined rule {name}"

/-- The program of a schema among rules. -/
def compile (s : Schema τ) (defs : List (String × Schema τ)) :
    Except Fault (Kind Unit × Program (signature τ)) := do
  let b := s.build
  return (b.kind, ← b.parser.compile (rules defs))

end Schema

end ParserMachine
