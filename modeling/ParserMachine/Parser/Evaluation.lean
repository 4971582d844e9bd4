import ParserMachine.Outcome
import ParserMachine.Parser

/-!
# Evaluating parsers

What a parser expression does to an input, told by recursion on the expression: without instructions,
without constants and without a stack.

A parser takes a reader to an `Ending`: its value or its failure, and the reader that is left. A
primitive that fails leaves the reader where it was, except that `tokens` leaves it behind what did
match. A combination differs from its parts in three ways only: which part runs next, where the
reader goes back to, and what becomes of the failure.

A `Failure` holds all that the alternatives at one place report, and `Failure.error` is the parse
error that it comes to in the end: complaints outweigh items, and of like complaints one is told.

The parser of a rule is no part of the expression that names it. `evaluateWith` is given what rules
end in, and `evaluate n` follows rules named within rules up to `n` deep; it answers nothing where
that is not deep enough.
-/

set_option autoImplicit false

namespace ParserMachine

/-- What a parser that failed reports. -/
structure Failure (S : Signature) where
  /-- Where it failed. -/
  place : Cursor
  /-- The greatest of the items found there. -/
  unexpected : Option (Item S.Token) := none
  /-- The items that would have been accepted there. -/
  expected : SortedSet (Item S.Token) := ∅
  /-- The complaints, oldest first. -/
  complaints : List (Complaint S.Custom) := []

namespace Failure

variable {S : Signature}

/-- The parse error in a named source. -/
def error (f : Failure S) (name : String) : S.Error :=
  let position := Position.ofCursor name f.place
  if f.complaints.isEmpty then .trivial position f.unexpected f.expected
  else .fancy position (Complaint.pool [] f.complaints)

/-- The failure of a choice both sides of which failed, the second after the first: the one further
into the input, and at the same place what both report. -/
def merge (first second : Failure S) : Failure S :=
  match compare second.place.offset first.place.offset with
  | .gt => second
  | .lt => first
  | .eq =>
    { place := second.place
      unexpected := Item.greater? first.unexpected second.unexpected
      expected := first.expected ∪ second.expected
      complaints := first.complaints ++ second.complaints }

/-- The failure told by a name, or by none: nothing else is expected. -/
def renamed (f : Failure S) (name : Option String) : Failure S :=
  { f with expected := .ofList (name.map Item.label).toList }

end Failure

/-- How a parser ended. -/
structure Ending (S : Signature) (k : Kind S.Base) where
  /-- The value, or the failure. -/
  result : Except (Failure S) (S.Val k)
  /-- The reader that is left. -/
  reader : Reader S.Token

namespace Ending

variable {S : Signature} {k : Kind S.Base}

/-- The failure of a parser at a reader, which it leaves there. -/
def refused (w : Reader S.Token) (unexpected : Item S.Token) (expected : List (Item S.Token)) :
    Ending S k :=
  ⟨.error { place := w.cursor, unexpected := some unexpected, expected := .ofList expected }, w⟩

/-- The ending with its failure changed, if there is one. -/
def mapFailure (e : Ending S k) (f : Failure S → Failure S) : Ending S k :=
  ⟨e.result.mapError f, e.reader⟩

/-- The value, or the error in the reader's source. -/
def observed (e : Ending S k) : Except S.Error (S.Val k) :=
  e.result.mapError fun f => f.error e.reader.name

/-- Whether a parser that ended so failed where it started, at the given reader. -/
def failedAt (e : Ending S k) (w : Reader S.Token) : Bool :=
  match e.result with
  | .ok _ => false
  | .error _ => e.reader.cursor.offset = w.cursor.offset

/-- The outcome of a parse that ended so. -/
def outcome (e : Ending S k) : Outcome S.Custom S.Token (S.Val k) :=
  ⟨0 < e.reader.cursor.offset, e.observed, e.reader.position⟩

end Ending

namespace Parser

variable {S : Signature}

/-- What is found at a reader: the next token, or the end of the input. -/
def nextItem (w : Reader S.Token) : Item S.Token :=
  match w.peek? with
  | some t => .token t
  | none => .endOfInput

/-- What is found at a reader where a run of tokens is wanted: as many of the next tokens, or the end of
the input. -/
def nextItems (w : Reader S.Token) (wanted : Nat) : Item S.Token :=
  match w.remaining.take wanted with
  | [] => .endOfInput
  | run => .tokens run

end Parser

/-! ### Combining endings

What a combination makes of the ending of a part that started at the reader `w`. -/

namespace Ending

variable {S : Signature} {k a b : Kind S.Base} {m : Type → Type} [Monad m]

/-- Goes on with the value, if there is one. -/
def andThen (e : Ending S a) (next : S.Val a → Reader S.Token → m (Ending S b)) :
    m (Ending S b) :=
  match e.result with
  | .ok v => next v e.reader
  | .error f => return ⟨.error f, e.reader⟩

/-- Goes on with another parser if the first failed where it started. Where both fail, their failures
become one. -/
def orElse (e : Ending S k) (w : Reader S.Token) (other : Reader S.Token → m (Ending S k)) :
    m (Ending S k) :=
  match e.result with
  | .ok _ => return e
  | .error f =>
    if e.reader.cursor.offset = w.cursor.offset then
      return (← other e.reader).mapFailure f.merge
    else return e

/-- On failure, back to the start. -/
def retried (e : Ending S k) (w : Reader S.Token) : Ending S k :=
  match e.result with
  | .ok _ => e
  | .error f => ⟨.error f, w⟩

/-- On failure at the start, told by a name, or by none. -/
def relabelled (e : Ending S k) (w : Reader S.Token) (name : Option String) : Ending S k :=
  if e.failedAt w then e.mapFailure (·.renamed name) else e

/-- On success, back to the start. -/
def peeked (e : Ending S k) (w : Reader S.Token) : Ending S k :=
  match e.result with
  | .ok v => ⟨.ok v, w⟩
  | .error _ => e

/-- Turned around, at the start. What was matched is unexpected: as a run, if it is more than one
token. -/
def negated (e : Ending S k) (w : Reader S.Token) : Ending S .unit :=
  match e.result with
  | .ok _ =>
    let matched := e.reader.offset - w.offset
    .refused w
      (if 1 < matched then .tokens (w.remaining.take matched) else Parser.nextItem w) []
  | .error _ => ⟨.ok (), w⟩

/-- The value or the error as a value. -/
def reified (e : Ending S k) : Ending S (.observed k) := ⟨.ok e.observed, e.reader⟩

end Ending

namespace Parser

variable {S : Signature}

/-- The length of the longest common front of two lists. -/
def commonLength (wanted found : List S.Token) : Nat :=
  match wanted, found with
  | a :: as, b :: bs => if a = b then commonLength as bs + 1 else 0
  | _, _ => 0

/-- Takes the next token if it passes a test; where it does not, the given items are expected. -/
def takeIf (test : S.Token → Bool) (expected : List (Item S.Token)) (w : Reader S.Token) :
    Ending S .token :=
  match w.peek?.filter test with
  | some t => ⟨.ok t, w.next 1⟩
  | none => .refused w (nextItem w) expected

/-- Takes the given number of tokens, which the reader must have. -/
def takeRun (w : Reader S.Token) (size : Nat) : Ending S .run :=
  ⟨.ok (w.remaining.take size), w.next size⟩

/-- Takes a given run of tokens. What did match is consumed in any case. -/
def takeTokens (wanted : List S.Token) (w : Reader S.Token) : Ending S .run :=
  let matched := commonLength wanted w.remaining
  if matched = wanted.length then takeRun w matched
  else
    { Ending.refused w (nextItems w wanted.length) [.tokens wanted] with reader := w.next matched }

/-- Takes the given number of tokens, if there are so many. -/
def takeCount (n : Nat) (w : Reader S.Token) : Ending S .run :=
  if w.remaining.length < n then .refused w .endOfInput [] else takeRun w n

/-- Takes the longest run of tokens that satisfy a predicate, at least one. -/
def takeSome (p : S.Token → Bool) (w : Reader S.Token) : Ending S .run :=
  match w.remaining.takeWhile p with
  | [] => .refused w (nextItem w) []
  | run => takeRun w run.length

/-- Takes nothing, at the end of the input only. -/
def takeEnd (w : Reader S.Token) : Ending S .unit :=
  match w.peek? with
  | none => ⟨.ok (), w⟩
  | some t => .refused w (.token t) [.endOfInput]

/-- Takes the next token if it ends its line, and goes to the next line. -/
def takeLineBreak (w : Reader S.Token) : Ending S .token :=
  match w.peek?.filter Token.isLineBreak with
  | some t => ⟨.ok t, w.nextLine⟩
  | none => .refused w (nextItem w) [.label "newline"]

/-- What a parser ends in, where the parser of a rule ends as the first argument tells. -/
def evaluateWith (unfold : (r : S.Rule) → Reader S.Token → Option (Ending S (S.ruleKind r))) :
    {k : Kind S.Base} → Parser S k → Reader S.Token → Option (Ending S k)
  | _, .pure v, w => some ⟨.ok v, w⟩
  | _, .error c, w => some ⟨.error { place := w.cursor, complaints := [c] }, w⟩
  | _, .token t, w => some (takeIf (· = t) [.token t] w)
  | _, .tokens ts, w => some (takeTokens ts w)
  | _, .satisfy p, w => some (takeIf p [] w)
  | _, .oneOf ts, w => some (takeIf (· ∈ ts) (ts.map .token) w)
  | _, .noneOf ts, w => some (takeIf (· ∉ ts) [] w)
  | _, .take n, w => some (takeCount n w)
  | _, .take1, w => some (takeIf (fun _ => true) [] w)
  | _, .takeWhile p, w => some (takeRun w (w.remaining.takeWhile p).length)
  | _, .takeWhile1 p, w => some (takeSome p w)
  | _, .eof, w => some (takeEnd w)
  | _, .newline, w => some (takeLineBreak w)
  | _, .map p f, w => do
    (← evaluateWith unfold p w).andThen fun v w => return ⟨.ok (f v), w⟩
  | _, .bind p f, w => do
    (← evaluateWith unfold p w).andThen fun v w => evaluateWith unfold (f v) w
  | _, .selectMany p f project, w => do
    (← evaluateWith unfold p w).andThen fun a w => do
      (← evaluateWith unfold (f a) w).andThen fun b w => return ⟨.ok (project a b), w⟩
  | _, .or p q, w => do (← evaluateWith unfold p w).orElse w fun w => evaluateWith unfold q w
  | _, .try p, w => return (← evaluateWith unfold p w).retried w
  | _, .label name p, w => return (← evaluateWith unfold p w).relabelled w (some name)
  | _, .hidden p, w => return (← evaluateWith unfold p w).relabelled w none
  | _, .lookAhead p, w => return (← evaluateWith unfold p w).peeked w
  | _, .notFollowedBy p, w => return (← evaluateWith unfold p w).negated w
  | _, .observing p, w => return (← evaluateWith unfold p w).reified
  | _, .rule r, w => unfold r w

/-- What a parser ends in, if that takes rules no more than the given number within each other. -/
def evaluate (rules : Grammar S) : Nat → {k : Kind S.Base} → Parser S k → Reader S.Token →
    Option (Ending S k)
  | 0, _, p => p.evaluateWith fun _ _ => none
  | depth + 1, _, p => p.evaluateWith fun r => evaluate rules depth (rules r)

end Parser

end ParserMachine
