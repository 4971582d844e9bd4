/-!
# JSON text

Writing JSON, compact or indented by two spaces, and the few readers that records of names and
numbers need.

A reader takes a list of characters and answers what it read together with the rest, or nothing
where the characters are not what it reads. `skipValue` passes over any value; inside the strings
of a skipped value an escape by code point is checked for its digits only.
-/

set_option autoImplicit false

namespace ParserMachine.Text.Json

/-- A JSON document of numbers, strings, arrays and objects. -/
inductive Document where
  | number (n : Nat)
  | text (s : String)
  | array (items : List Document)
  | object (fields : List (String × Document))

/-! ### Writing -/

/-- A character as it stands inside a JSON string. -/
def escape (c : Char) : List Char :=
  if c = '"' then ['\\', '"']
  else if c = '\\' then ['\\', '\\']
  else if c = '\x08' then ['\\', 'b']
  else if c = '\x0c' then ['\\', 'f']
  else if c = '\n' then ['\\', 'n']
  else if c = '\r' then ['\\', 'r']
  else if c = '\t' then ['\\', 't']
  else if c.toNat < 0x20 then
    ['\\', 'u', '0', '0'] ++ (if c.toNat < 0x10 then ['0'] else []) ++ Nat.toDigits 16 c.toNat
  else [c]

/-- A JSON string. -/
def quote (s : String) : String :=
  String.ofList ('"' :: (s.toList.flatMap escape ++ ['"']))

/-- Items between brackets, each on a line of its own below the given indentation. -/
def bracketed (opening closing : String) (indent : Nat) (items : List String) : String :=
  if items.isEmpty then opening ++ closing
  else
    let margin := "".pushn ' ' (indent + 2)
    opening ++ "\n" ++ ",\n".intercalate (items.map (margin ++ ·)) ++ "\n" ++
      "".pushn ' ' indent ++ closing

mutual

/-- A document over several lines, two spaces for each level. -/
def Document.pretty (indent : Nat) : Document → String
  | .number n => toString n
  | .text s => quote s
  | .array items => bracketed "[" "]" indent (prettyItems (indent + 2) items)
  | .object fields => bracketed "\x7b" "\x7d" indent (prettyFields (indent + 2) fields)

/-- The items of an array. -/
def prettyItems (indent : Nat) : List Document → List String
  | [] => []
  | d :: ds => d.pretty indent :: prettyItems indent ds

/-- The fields of an object. -/
def prettyFields (indent : Nat) : List (String × Document) → List String
  | [] => []
  | (name, d) :: fields => (quote name ++ ": " ++ d.pretty indent) :: prettyFields indent fields

end

/-! ### Reading -/

/-- Whether a character may stand between tokens. -/
def isBlank (c : Char) : Bool :=
  c = ' ' || c = '\n' || c = '\t' || c = '\r'

/-- The characters from the first that is not blank on. -/
def skipBlank (cs : List Char) : List Char := cs.dropWhile isBlank

/-- What follows the given character, blanks before it aside. -/
def expect (c : Char) (cs : List Char) : Option (List Char) :=
  match skipBlank cs with
  | d :: rest => if c = d then some rest else none
  | [] => none

/-- The value of a hexadecimal digit. -/
def hexDigit? (c : Char) : Option Nat :=
  if '0' ≤ c && c ≤ '9' then some (c.toNat - '0'.toNat)
  else if 'a' ≤ c && c ≤ 'f' then some (c.toNat - 'a'.toNat + 10)
  else if 'A' ≤ c && c ≤ 'F' then some (c.toNat - 'A'.toNat + 10)
  else none

/-- A number written as four hexadecimal digits. -/
def hexWord? : List Char → Option (Nat × List Char)
  | a :: b :: c :: d :: rest => do
    return ((((← hexDigit? a) * 16 + (← hexDigit? b)) * 16 + (← hexDigit? c)) * 16 +
      (← hexDigit? d), rest)
  | _ => none

/-- The character that a backslash and the given one stand for. -/
def simpleEscape? : Char → Option Char
  | '"' => some '"'
  | '\\' => some '\\'
  | '/' => some '/'
  | 'b' => some '\x08'
  | 'f' => some '\x0c'
  | 'n' => some '\n'
  | 'r' => some '\r'
  | 't' => some '\t'
  | _ => none

/-- A character written by its code point, above the basic plane by two halves. A half alone stands
for no character. -/
def codePoint? (cs : List Char) : Option (Char × List Char) := do
  let (high, rest) ← hexWord? cs
  if 0xd800 ≤ high && high < 0xdc00 then
    match rest with
    | '\\' :: 'u' :: rest =>
      let (low, rest) ← hexWord? rest
      if 0xdc00 ≤ low && low < 0xe000 then
        return (Char.ofNat (0x10000 + (high - 0xd800) * 0x400 + (low - 0xdc00)), rest)
      else none
    | _ => none
  else if 0xdc00 ≤ high && high < 0xe000 then none
  else return (Char.ofNat high, rest)

/-- The characters of a string whose opening quote has been read. The first argument bounds the
number of characters. -/
def stringBody? : Nat → List Char → Option (List Char × List Char)
  | 0, _ => none
  | _ + 1, [] => none
  | _ + 1, '"' :: rest => some ([], rest)
  | bound + 1, '\\' :: 'u' :: rest => do
    let (c, rest) ← codePoint? rest
    let (cs, rest) ← stringBody? bound rest
    return (c :: cs, rest)
  | bound + 1, '\\' :: e :: rest => do
    let c ← simpleEscape? e
    let (cs, rest) ← stringBody? bound rest
    return (c :: cs, rest)
  | bound + 1, c :: rest =>
    if c.toNat < 0x20 || c = '\\' then none
    else do
      let (cs, rest) ← stringBody? bound rest
      return (c :: cs, rest)

/-- A string, after blanks. -/
def string? (cs : List Char) : Option (String × List Char) := do
  let rest ← expect '"' cs
  let (body, rest) ← stringBody? (rest.length + 1) rest
  return (String.ofList body, rest)

/-- The digits at the front of some characters. -/
def digits (cs : List Char) : List Char × List Char :=
  cs.span Char.isDigit

/-- The number that decimal digits stand for. -/
def ofDigits (ds : List Char) : Nat :=
  ds.foldl (fun n d => n * 10 + (d.toNat - '0'.toNat)) 0

/-- The digits of a whole number: no sign, and no zero in front of others. -/
def wholeDigits? (cs : List Char) : Option (List Char × List Char) :=
  match digits cs with
  | ([], _) => none
  | ('0' :: _ :: _, _) => none
  | (ds, rest) => some (ds, rest)

/-- A whole number that fits 64 bits, after blanks. A number with a sign, a fraction or an exponent
is none. -/
def word? (cs : List Char) : Option (UInt64 × List Char) := do
  let (ds, rest) ← wholeDigits? (skipBlank cs)
  let n := ofDigits ds
  let ended :=
    match rest with
    | c :: _ => !(c = '.' || c = 'e' || c = 'E')
    | [] => true
  if ended && n < UInt64.size then some (UInt64.ofNat n, rest) else none

/-- Passes over a string whose opening quote has been read. -/
def skipString? : List Char → Option (List Char)
  | [] => none
  | '"' :: rest => some rest
  | '\\' :: 'u' :: a :: b :: c :: d :: rest =>
    if [a, b, c, d].all fun x => (hexDigit? x).isSome then skipString? rest else none
  | '\\' :: e :: rest => if (simpleEscape? e).isSome then skipString? rest else none
  | c :: rest => if c.toNat < 0x20 || c = '\\' then none else skipString? rest

/-- Passes over the fraction of a number, if there is one. -/
def skipFraction? : List Char → Option (List Char)
  | '.' :: cs =>
    match digits cs with
    | ([], _) => none
    | (_, rest) => some rest
  | cs => some cs

/-- Passes over the exponent of a number, if there is one. -/
def skipExponent? : List Char → Option (List Char)
  | c :: cs =>
    if c = 'e' || c = 'E' then
      let unsigned :=
        match cs with
        | '+' :: rest => rest
        | '-' :: rest => rest
        | rest => rest
      match digits unsigned with
      | ([], _) => none
      | (_, rest) => some rest
    else some (c :: cs)
  | [] => some []

/-- Passes over a number without a sign. -/
def skipNumber? (cs : List Char) : Option (List Char) := do
  let (_, rest) ← wholeDigits? cs
  skipExponent? (← skipFraction? rest)

/-- What follows the given characters. -/
def skipWord? (word cs : List Char) : Option (List Char) :=
  if word.isPrefixOf cs then some (cs.drop word.length) else none

mutual

/-- Passes over a value, after blanks. The first argument bounds the steps; the number of
characters is enough. -/
def skipValue? : Nat → List Char → Option (List Char)
  | 0, _ => none
  | bound + 1, cs =>
    match skipBlank cs with
    | 'n' :: rest => skipWord? ['u', 'l', 'l'] rest
    | 't' :: rest => skipWord? ['r', 'u', 'e'] rest
    | 'f' :: rest => skipWord? ['a', 'l', 's', 'e'] rest
    | '"' :: rest => skipString? rest
    | '-' :: rest => skipNumber? rest
    | '[' :: rest =>
      match expect ']' rest with
      | some rest => some rest
      | none => skipItems? bound rest
    | '\x7b' :: rest =>
      match expect '\x7d' rest with
      | some rest => some rest
      | none => skipFields? bound rest
    | rest => skipNumber? rest

/-- Passes over the items of an array and its closing bracket. -/
def skipItems? : Nat → List Char → Option (List Char)
  | 0, _ => none
  | bound + 1, cs => do
    let rest ← skipValue? bound cs
    match expect ',' rest with
    | some rest => skipItems? bound rest
    | none => expect ']' rest

/-- Passes over the fields of an object and its closing brace. -/
def skipFields? : Nat → List Char → Option (List Char)
  | 0, _ => none
  | bound + 1, cs => do
    let rest ← skipString? (← expect '"' cs)
    let rest ← skipValue? bound (← expect ':' rest)
    match expect ',' rest with
    | some rest => skipFields? bound rest
    | none => expect '\x7d' rest

end

end ParserMachine.Text.Json
