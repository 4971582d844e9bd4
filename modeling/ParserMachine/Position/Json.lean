import ParserMachine.Position
import ParserMachine.Text.Json
import ParserMachine.Text.Quoted

/-!
# Positions as JSON

A position is written as an object with the fields `name`, `offset`, `line` and `column`, in this
order. It is read from such an object, the fields in any order and unknown ones passed over, or from
an array of the four values. A field that is missing, repeated or not of its kind makes the text
unreadable, and so does anything but blanks after the value.
-/

set_option autoImplicit false

namespace ParserMachine.Position

open Text.Json

/-- A position on one line. -/
def toJson (p : Position) : String :=
  "\x7b\"name\":" ++ quote p.name ++ s!",\"offset\":{p.offset},\"line\":{p.line},\"column\":" ++
    toString p.column ++ "\x7d"

/-- The fields of a position that have been read so far. -/
structure Fields where
  name : Option String := none
  offset : Option UInt64 := none
  line : Option UInt64 := none
  column : Option UInt64 := none

/-- The position of a full set of fields. -/
def Fields.position? (f : Fields) : Option Position := do
  return ⟨⟨← f.offset, ← f.line, ← f.column⟩, ← f.name⟩

/-- Reads the value of one field, which must not have been read before. -/
def Fields.read? (f : Fields) (key : String) (cs : List Char) : Option (Fields × List Char) := do
  match key with
  | "name" =>
    if f.name.isSome then none
    else let (s, rest) ← string? cs; return ({ f with name := some s }, rest)
  | "offset" =>
    if f.offset.isSome then none
    else let (n, rest) ← word? cs; return ({ f with offset := some n }, rest)
  | "line" =>
    if f.line.isSome then none
    else let (n, rest) ← word? cs; return ({ f with line := some n }, rest)
  | "column" =>
    if f.column.isSome then none
    else let (n, rest) ← word? cs; return ({ f with column := some n }, rest)
  | _ => return (f, ← skipValue? (cs.length + 1) cs)

/-- Reads the fields of an object and its closing brace. The first argument bounds the fields. -/
def readFields? : Nat → Fields → List Char → Option (Position × List Char)
  | 0, _, _ => none
  | bound + 1, f, cs => do
    let (key, rest) ← string? cs
    let (f, rest) ← f.read? key (← expect ':' rest)
    match expect ',' rest with
    | some rest => readFields? bound f rest
    | none => return (← f.position?, ← expect '\x7d' rest)

/-- Reads the four values of an array and its closing bracket. -/
def readValues? (cs : List Char) : Option (Position × List Char) := do
  let (name, rest) ← string? cs
  let (offset, rest) ← word? (← expect ',' rest)
  let (line, rest) ← word? (← expect ',' rest)
  let (column, rest) ← word? (← expect ',' rest)
  return (⟨⟨offset, line, column⟩, name⟩, ← expect ']' rest)

/-- The position that a text stands for. -/
def ofJson? (text : String) : Option Position := do
  let (p, rest) ← match skipBlank text.toList with
    | '[' :: rest => readValues? rest
    | '\x7b' :: rest => readFields? (rest.length + 1) {} rest
    | _ => none
  if (skipBlank rest).isEmpty then some p else none

/-- A position with its fields named. -/
def describe (p : Position) : String :=
  let name := Text.Quoted.string p.name.toList
  s!"SourcePos \x7b name: {name}, offset: {p.offset}, line: {p.line}, column: {p.column} \x7d"

end ParserMachine.Position
