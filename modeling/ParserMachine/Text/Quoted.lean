import ParserMachine.Text.Hidden

/-!
# Quoted text

How characters, strings and byte runs are shown between quotes in messages.

* `char` puts a character between single quotes, `string` a string between double quotes. A quote is
  escaped only inside quotes of its own kind; hidden characters are shown by their code point.
* `bytes` shows a byte run between double quotes: ASCII as it is, every other byte by two
  hexadecimal digits.
-/

set_option autoImplicit false

namespace ParserMachine.Text.Quoted

/-- The hexadecimal digits of a number, lower case, without leading zeros. -/
def hex (n : Nat) : List Char :=
  Nat.toDigits 16 n

/-- A character as it stands between quotes of the given kind. -/
def escape (quote c : Char) : List Char :=
  if c = '\x00' then ['\\', '0']
  else if c = '\t' then ['\\', 't']
  else if c = '\r' then ['\\', 'r']
  else if c = '\n' then ['\\', 'n']
  else if c = '\\' || c = quote then ['\\', c]
  else if isShown c then [c]
  else ['\\', 'u', '\x7b'] ++ hex c.toNat ++ ['\x7d']

/-- A character between single quotes. -/
def char (c : Char) : String :=
  String.ofList ('\'' :: (escape '\'' c ++ ['\'']))

/-- Characters between double quotes. -/
def string (cs : List Char) : String :=
  String.ofList ('"' :: (cs.flatMap (escape '"') ++ ['"']))

/-- A byte as it stands in a quoted byte run: both kinds of quote are escaped. -/
def escapeByte (b : UInt8) : List Char :=
  let c := Char.ofNat b.toNat
  if c = '\t' then ['\\', 't']
  else if c = '\r' then ['\\', 'r']
  else if c = '\n' then ['\\', 'n']
  else if c = '\\' || c = '"' || c = '\'' then ['\\', c]
  else if 0x20 ≤ b && b < 0x7f then [c]
  else ['\\', 'x'] ++ (if b < 16 then ['0'] else []) ++ hex b.toNat

/-- Bytes between double quotes. -/
def bytes (bs : List UInt8) : String :=
  String.ofList ('"' :: (bs.flatMap escapeByte ++ ['"']))

end ParserMachine.Text.Quoted
