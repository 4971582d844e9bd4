import ParserMachine.Parser.Kind

/-!
# Parser expressions

A parser is an expression: a primitive, or a combination of parsers. Functions in it are arbitrary;
in particular the parser that goes on after a `bind` is any function of the value so far.

Grammars that refer to themselves are no finite expressions, so the expression for a rule is its
name, and the rules themselves are a `Grammar`: a parser for each name. A rule's parser is taken only
when the rule is run, and so may name any rule, its own included.
-/

set_option autoImplicit false

namespace ParserMachine

/-- A parser with results of kind `k`. -/
inductive Parser (S : Signature) : Kind S.Base → Type where
  /-- Succeeds with a value, consuming nothing. -/
  | pure {k : Kind S.Base} (v : S.Val k) : Parser S k
  /-- Fails with a complaint, consuming nothing. -/
  | error {k : Kind S.Base} (c : Complaint S.Custom) : Parser S k
  /-- Matches one given token. -/
  | token (t : S.Token) : Parser S .token
  /-- Matches a given run of tokens. A partial match fails after consuming it. -/
  | tokens (ts : List S.Token) : Parser S .run
  /-- Matches one token that satisfies a predicate. -/
  | satisfy (p : S.Token → Bool) : Parser S .token
  /-- Matches one token of a set. -/
  | oneOf (ts : List S.Token) : Parser S .token
  /-- Matches one token that is not in a set. -/
  | noneOf (ts : List S.Token) : Parser S .token
  /-- Takes the given number of tokens. -/
  | take (n : Nat) : Parser S .run
  /-- Takes any one token. -/
  | take1 : Parser S .token
  /-- Takes the longest run of tokens that satisfy a predicate, possibly none. -/
  | takeWhile (p : S.Token → Bool) : Parser S .run
  /-- Takes the longest run of tokens that satisfy a predicate, at least one. -/
  | takeWhile1 (p : S.Token → Bool) : Parser S .run
  /-- Succeeds at the end of the input only. -/
  | eof : Parser S .unit
  /-- Matches one token that ends its line, and goes to the next line. -/
  | newline : Parser S .token
  /-- Applies a function to the value. -/
  | map {a b : Kind S.Base} (p : Parser S a) (f : S.Val a → S.Val b) : Parser S b
  /-- Goes on with the parser that a function makes of the value. -/
  | bind {a b : Kind S.Base} (p : Parser S a) (f : S.Val a → Parser S b) : Parser S b
  /-- Goes on like `bind`, and combines both values. -/
  | selectMany {a b c : Kind S.Base} (p : Parser S a) (f : S.Val a → Parser S b)
      (project : S.Val a → S.Val b → S.Val c) : Parser S c
  /-- Runs the second parser if the first failed without consuming. -/
  | or {k : Kind S.Base} (p q : Parser S k) : Parser S k
  /-- On failure goes back to where the parser started. -/
  | try {k : Kind S.Base} (p : Parser S k) : Parser S k
  /-- Tells failures without consumption as the want of something named. -/
  | label {k : Kind S.Base} (name : String) (p : Parser S k) : Parser S k
  /-- Tells failures without consumption without what was expected. -/
  | hidden {k : Kind S.Base} (p : Parser S k) : Parser S k
  /-- On success goes back to where the parser started. -/
  | lookAhead {k : Kind S.Base} (p : Parser S k) : Parser S k
  /-- Succeeds where the parser fails, and consumes nothing either way. -/
  | notFollowedBy {k : Kind S.Base} (p : Parser S k) : Parser S .unit
  /-- Succeeds with what the parser ended in, value or error. -/
  | observing {k : Kind S.Base} (p : Parser S k) : Parser S (.observed k)
  /-- The parser of a rule. -/
  | rule (r : S.Rule) : Parser S (S.ruleKind r)

namespace Parser

variable {S : Signature} {k : Kind S.Base}

/-- Fails with a message. -/
def fail (message : String) : Parser S k := .error (.fail message)

/-- Fails because an indentation is not related to the reference level as required. -/
def incorrectIndent (required : Ordering) (reference actual : Nat) : Parser S k :=
  .error (.indentation required reference actual)

end Parser

/-- The parsers of the rules. -/
abbrev Grammar (S : Signature) : Type := (r : S.Rule) → Parser S (S.ruleKind r)

end ParserMachine
