import ParserMachine.Stack.Inline
import ParserMachine.Text.Quoted

/-!
# Tokens

What the machine needs to know of an input element: how it is stored inline, how it is ordered, how
runs of it are shown in messages, and whether it ends a line.

The order is a lawful linear order, so that sets of items have one order, and whether two tokens are
equal is asked of their order. A caller's token type whose equality overlooks some part of a token is
not covered: its tokens would have to be compared by an equality of their own throughout, as a
caller's errors are. Characters and numbers have no such parts.

Characters and bytes are shown quoted and know the line feed as the end of a line; the other number
types are shown as numbers and have no line breaks.
-/

set_option autoImplicit false

namespace ParserMachine

/-- An input element that the machine can match on. Tokens that compare as equal are the same token
(`lawful`). -/
class Token (τ : Type) extends Inline τ, Ord τ where
  [decEq : DecidableEq τ]
  [trans : Std.TransOrd τ]
  [lawful : Std.LawfulEqOrd τ]
  /-- Whether the token ends its line. -/
  isLineBreak : τ → Bool
  /-- How a run of tokens is shown in messages. -/
  describe : List τ → String
  /-- The machine keeps no values of its own under the tag of a token type. -/
  tag_free : tag.isReserved = false

attribute [reducible] Token.decEq
attribute [instance] Token.decEq Token.trans Token.lawful

namespace Token

/-- A run of numbers: one number alone, otherwise a bracketed list. -/
def describeNumbers {τ : Type} [ToString τ] : List τ → String
  | [single] => toString single
  | run => "[" ++ String.intercalate ", " (run.map toString) ++ "]"

instance : Token Char where
  isLineBreak c := c = '\n'
  describe
    | [single] => Text.Quoted.char single
    | run => Text.Quoted.string run
  tag_free := rfl

instance : Token UInt8 where
  isLineBreak b := b = 10
  describe
    | [single] => Text.Quoted.char (Char.ofNat single.toNat)
    | run => Text.Quoted.bytes run
  tag_free := rfl

instance : Token UInt16 where
  isLineBreak _ := false
  describe := describeNumbers
  tag_free := rfl

instance : Token UInt32 where
  isLineBreak _ := false
  describe := describeNumbers
  tag_free := rfl

instance : Token Int32 where
  isLineBreak _ := false
  describe := describeNumbers
  tag_free := rfl

instance : Token Int64 where
  isLineBreak _ := false
  describe := describeNumbers
  tag_free := rfl

end Token

end ParserMachine
