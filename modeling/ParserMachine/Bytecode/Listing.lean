import ParserMachine.Bytecode.Opcode
import ParserMachine.Text.Json

/-!
# Listings

A listing shows a program instruction by instruction: the place of each, its opcode and operands,
and after an instruction that wraps blocks the instructions of those blocks, one level deeper.

`Listing.ofCode` decodes a program. Blocks are followed by their stated sizes through the bytes of
the whole program, so a block that runs past its end is found out where its bytes run out.
-/

set_option autoImplicit false

namespace ParserMachine

/-- One decoded instruction. -/
structure Listing.Entry where
  /-- Where the instruction starts. -/
  offset : Nat
  /-- How many blocks the instruction lies in. -/
  depth : Nat
  opcode : Opcode
  /-- The operands, in the order in which they are written. -/
  operands : List (Operand × Nat)
  deriving DecidableEq, Repr

/-- A decoded program. -/
structure Listing where
  /-- The instructions, in the order of their places. -/
  entries : Array Listing.Entry
  deriving DecidableEq

namespace Listing

open Bytecode

mutual

/-- Lists the instructions of the `span` bytes that start at `offset`, where the program reads
`code`, behind the entries listed so far. -/
def walk (code : List UInt8) (offset span depth : Nat) (entries : Array Entry) :
    Except Malformed (Array Entry) :=
  if span = 0 then .ok entries
  else
    match h : opcodeAt code with
    | .error e => .error e
    | .ok op =>
      have : 0 < code.length := List.length_pos_iff.2 (opcodeAt_ne_nil h)
      do
      let sizes ← blockSizes code op
      let operands ← readOperands code op
      let header := op.headerSize
      let size := header + sizes.foldl (· + ·) 0
      let entries := entries.push ⟨offset, depth, op, operands⟩
      let entries ← walkBlocks (code.drop header) (offset + header) (depth + 1) sizes entries
      walk (code.drop size) (offset + size) (span - size) depth entries
termination_by (code.length, 0)
decreasing_by
  all_goals
    have := op.headerSize_pos
    simp only [List.length_drop, Prod.lex_def]
    omega

/-- Lists blocks of the given sizes that follow each other. -/
def walkBlocks (code : List UInt8) (offset depth : Nat) (sizes : List Nat)
    (entries : Array Entry) : Except Malformed (Array Entry) :=
  match sizes with
  | [] => .ok entries
  | size :: sizes => do
    let entries ← walk code offset size depth entries
    walkBlocks (code.drop size) (offset + size) depth sizes entries
termination_by (code.length, sizes.length + 1)
decreasing_by
  · exact Prod.Lex.right _ (by omega)
  · simp only [List.length_drop, List.length_cons, Prod.lex_def]
    omega

end

/-- The listing of a program. -/
def ofCode (code : List UInt8) : Except Malformed Listing :=
  return ⟨← walk code 0 code.length 0 #[]⟩

/-- The number of instructions. -/
def size (l : Listing) : Nat := l.entries.size

/-- Whether the program has no instructions. -/
def isEmpty (l : Listing) : Bool := l.entries.isEmpty

/-- The opcodes, in the order of their places. -/
def opcodes (l : Listing) : List Opcode := l.entries.toList.map Entry.opcode

/-- A number with zeros in front, up to four digits. -/
def fourDigits (n : Nat) : String :=
  let digits := toString n
  "".pushn '0' (4 - digits.length) ++ digits

/-- An instruction on one line. -/
def Entry.line (e : Entry) : String :=
  let operands := e.operands.map fun (o, value) => s!" {o.name}={value}"
  fourDigits e.offset ++ "  " ++ "".pushn ' ' (2 * e.depth) ++ e.opcode.name ++
    String.join operands ++ "\n"

/-- A listing as text, one instruction a line. -/
def text (l : Listing) : String :=
  String.join (l.entries.toList.map Entry.line)

/-- An instruction as a record. -/
def Entry.document (e : Entry) : Text.Json.Document :=
  .object [("offset", .number e.offset), ("depth", .number e.depth),
    ("opcode", .text e.opcode.title),
    ("operands", .array (e.operands.map fun (o, value) =>
      .object [("name", .text o.name), ("value", .number value)]))]

/-- A listing as a record of its instructions. -/
def toJson (l : Listing) : String :=
  Text.Json.Document.pretty 0 (.object [("entries", .array (l.entries.toList.map Entry.document))])

end Listing

end ParserMachine
