import Mathlib.Order.Bounds.Basic
import ParserMachine.Error
import ParserMachine.Fault

/-!
# Errors rendered from bytes

`ParseError.excerpt` counts the lines of a source by its characters. A source lies in memory as bytes, and
there its lines are found faster: a line feed is one byte, which a search for bytes finds without looking at
characters. `ParseError.render` goes that way. The search is anyone's, as long as it is `Exact`; what is
sliced out of the source has to begin and end where characters do. Only that is checked here: a text may be
as long as it has to be.

That both ways come to the same text is proved in `Proofs.Excerpt`.
-/

set_option autoImplicit false

namespace ParserMachine

/-- A search for a byte among bytes. -/
structure ByteSearch where
  /-- The first place of the byte, if it has one. -/
  first? : UInt8 → List UInt8 → Option Nat
  /-- The places of the byte, one after the other. -/
  all : UInt8 → List UInt8 → List Nat

namespace ByteSearch

/-- The search finds what there is: the first place, and all places in ascending order. -/
structure Exact (search : ByteSearch) : Prop where
  first?_eq_some_iff (byte : UInt8) (bytes : List UInt8) (place : Nat) :
    search.first? byte bytes = some place ↔ IsLeast {i | bytes[i]? = some byte} place
  ascending (byte : UInt8) (bytes : List UInt8) : (search.all byte bytes).Pairwise (· < ·)
  mem_all_iff (byte : UInt8) (bytes : List UInt8) (place : Nat) :
    place ∈ search.all byte bytes ↔ bytes[place]? = some byte

/-- The search that looks at byte after byte. -/
def plain : ByteSearch where
  first? byte bytes := (List.range bytes.length).find? fun i => bytes[i]? = some byte
  all byte bytes := (List.range bytes.length).filter fun i => bytes[i]? = some byte

end ByteSearch

/-- The byte of a line feed. -/
def lineFeed : UInt8 := 10

/-- The bytes of a text. -/
def utf8 (text : String) : List UInt8 := text.toUTF8.data.toList

/-- Bytes from a place in them on. -/
def bytesFrom (bytes : List UInt8) (start : Nat) : Except Fault (List UInt8) :=
  if start ≤ bytes.length then .ok (bytes.drop start) else .error .rangeOutside

/-- A text from one byte of it to another. At either there has to be the beginning of a character or the
end of the text. -/
def slice (text : String) (start stop : Nat) : Except Fault String :=
  if start ≤ stop && String.Pos.Raw.isValid text ⟨start⟩ && String.Pos.Raw.isValid text ⟨stop⟩ then
    .ok (String.Pos.Raw.extract text ⟨start⟩ ⟨stop⟩)
  else .error .rangeOutside

/-- The byte that a line starts with, by the number of the line. Lines are numbered from 1; number 0 is
taken for the first line. -/
def lineStart? (search : ByteSearch) (bytes : List UInt8) : Nat → Option Nat
  | 0 | 1 => some 0
  | line + 2 => (search.all lineFeed bytes)[line]?.map (· + 1)

/-- The line of a source with the given number, without carriage returns at its end, found among the bytes
of the source. -/
def findLine (search : ByteSearch) (source : String) (number : Nat) :
    Except Fault (Option (List Char)) :=
  let bytes := utf8 source
  match lineStart? search bytes number with
  | none => return none
  | some start => do
    let rest ← bytesFrom bytes start
    let stop := (search.first? lineFeed rest).elim bytes.length (start + ·)
    return some (ParseError.trimReturns (← slice source start stop).toList)

/-- The error under the line of the source that it points at, as `ParseError.excerpt` has it, with the line
found among the bytes of the source. -/
def ParseError.render {ε τ : Type} [Token τ] [ToString ε] (e : ParseError ε τ) (search : ByteSearch)
    (source : String) : Except Fault String := do
  let header := s!"Error at line {e.position.line}, column {e.position.column}:\n"
  let shown :=
    match ← findLine search source e.position.line.toNat with
    | some line =>
      String.ofList (line ++ '\n' :: List.replicate (e.position.column.toNat - 1) ' ') ++ "^\n"
    | none => ""
  return header ++ shown ++ e.message

end ParserMachine
