import ParserMachine.Error.Complaint
import ParserMachine.Error.Item
import ParserMachine.SortedSet

/-!
# Parse errors

A failed parse has an error, at a position. It is *trivial*, telling at most one unexpected item
and the set of items that would have been accepted, or *fancy*, carrying complaints.

* `merge` combines the errors of two alternatives: the one further into the input wins; at the same
  place a fancy error beats a trivial one, two fancy ones pool their complaints, and two trivial ones
  join their expected items and keep the greater unexpected one.
* `message` is the text of an error, `text` the same under its position, and `excerpt` the same
  under the line of the source that it points at.
-/

set_option autoImplicit false

namespace ParserMachine

/-- A failure at a position. -/
inductive ParseError (ε τ : Type) [Ord τ] where
  /-- What was found, if known, and what would have been accepted. -/
  | trivial (position : Position) (unexpected : Option (Item τ)) (expected : SortedSet (Item τ))
  /-- Complaints, oldest first. -/
  | fancy (position : Position) (complaints : List (Complaint ε))

namespace ParseError

variable {ε τ : Type}

section Parts

variable [Ord τ]

/-- Where the failure was detected. -/
def position : ParseError ε τ → Position
  | trivial p _ _ => p
  | fancy p _ => p

/-- Whether the error carries complaints. -/
def isFancy : ParseError ε τ → Bool
  | trivial .. => false
  | fancy .. => true

/-- The unexpected item of a trivial error. -/
def unexpected? : ParseError ε τ → Option (Item τ)
  | trivial _ item _ => item
  | fancy .. => none

/-- The expected items of a trivial error. -/
def expected? : ParseError ε τ → Option (SortedSet (Item τ))
  | trivial _ _ items => some items
  | fancy .. => none

/-- The complaints of a fancy error, none for a trivial one. -/
def complaints : ParseError ε τ → List (Complaint ε)
  | trivial .. => []
  | fancy _ cs => cs

/-- Whether an item is among the expected ones. -/
def expects [DecidableEq τ] (e : ParseError ε τ) (item : Item τ) : Bool :=
  e.expected?.any fun items => item ∈ items

/-- Equality of errors: positions by name and offset, complaints by their own equality. -/
def same [DecidableEq τ] [BEq ε] : ParseError ε τ → ParseError ε τ → Bool
  | trivial p u x, trivial p' u' x' => p.same p' && u == u' && x == x'
  | fancy p cs, fancy p' cs' => p.same p' && cs == cs'
  | _, _ => false

end Parts

/-- The error of two alternatives that both failed. -/
def merge [Token τ] [BEq ε] (a b : ParseError ε τ) : ParseError ε τ :=
  match compare a.position b.position with
  | .lt => b
  | .gt => a
  | .eq =>
    match a, b with
    | trivial p u x, trivial _ u' x' => trivial p (Item.greater? u u') (x ∪ x')
    | fancy p cs, trivial .. => fancy p cs
    | trivial .., fancy p cs => fancy p cs
    | fancy p cs, fancy _ cs' => fancy p (Complaint.pool cs cs')

/-- The error at another position. -/
def withPosition [Ord τ] : ParseError ε τ → Position → ParseError ε τ
  | trivial _ u x, p => trivial p u x
  | fancy _ cs, p => fancy p cs

/-- The error of a choice both sides of which failed on one input, the second after the first: their
merge, which at equal offsets has the line and column of the second. -/
def mergeChoice [Token τ] [BEq ε] (a b : ParseError ε τ) : ParseError ε τ :=
  if a.position.offset = b.position.offset then (a.merge b).withPosition b.position else a.merge b

/-! ### Texts -/

/-- A list in words: `a`, `a or b`, `a, b, or c`. -/
def alternatives : List String → String
  | [] => ""
  | [only] => only
  | [first, second] => s!"{first} or {second}"
  | items =>
    let last := items.getLastD ""
    ", ".intercalate items.dropLast ++ ", or " ++ last

/-- The text of an error, without its position. -/
def message [Token τ] [ToString ε] : ParseError ε τ → String
  | trivial _ none ⟨[], _⟩ => "unknown parse error"
  | trivial _ unexpected expected =>
    let found := (unexpected.map fun item => "unexpected " ++ item.describe).toList
    let wanted :=
      if expected.toList.isEmpty then []
      else ["expecting " ++ alternatives (expected.toList.map Item.describe)]
    "\n".intercalate (found ++ wanted)
  | fancy _ complaints => "\n".intercalate (complaints.map Complaint.describe)

/-- The text of an error under its position. -/
def text [Token τ] [ToString ε] (e : ParseError ε τ) : String :=
  e.position.text ++ ":\n" ++ e.message

/-- What follows the given number of line feeds, if there are that many. -/
def afterLineFeeds : Nat → List Char → Option (List Char)
  | 0, cs => some cs
  | n + 1, cs =>
    match cs.dropWhile (· ≠ '\n') with
    | [] => none
    | _ :: rest => afterLineFeeds n rest

/-- A list of characters without the carriage returns at its end. -/
def trimReturns (cs : List Char) : List Char :=
  (cs.reverse.dropWhile (· = '\r')).reverse

/-- The line of a source with the given number, without carriage returns at its end. Lines are
numbered from 1; number 0 is taken for the first line. -/
def sourceLine? (source : String) (number : Nat) : Option (List Char) :=
  (afterLineFeeds (number - 1) source.toList).map fun rest =>
    trimReturns (rest.takeWhile (· ≠ '\n'))

/-- The error under the line of the source that it points at, with a caret below its column. A line
that the source does not have is left out. -/
def excerpt [Token τ] [ToString ε] (e : ParseError ε τ) (source : String) : String :=
  let header := s!"Error at line {e.position.line}, column {e.position.column}:\n"
  let shown :=
    match sourceLine? source e.position.line.toNat with
    | some line =>
      String.ofList (line ++ '\n' :: List.replicate (e.position.column.toNat - 1) ' ') ++ "^\n"
    | none => ""
  header ++ shown ++ e.message

end ParseError

end ParserMachine
