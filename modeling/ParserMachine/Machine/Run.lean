import ParserMachine.Machine.Step
import ParserMachine.Outcome

/-!
# Running programs

A block is run instruction by instruction until one fails or its code is used up. A failed block
leaves only its error frame: values that earlier instructions of the block pushed are dropped from
under it.

The machine counts the blocks that run within each other, and stops before there are more than
allowed. The other recursion, on the blocks within each other where no limit is set, is bounded by
the last argument of `runBlock`; within a block it is on the code that is left.
-/

set_option autoImplicit false

namespace ParserMachine.Machine

variable {S : Signature}

/-- Drops the values that a failed block left under its error frame. The block found `base` slots. -/
def dropPartial (base : Nat) (s : Stack (Object S)) : Except Fault (Stack (Object S)) := do
  let frame ← Frame.length s 0
  if s.count < base + frame then .error (.corrupted .poppedForeignValues)
  else s.dropUnder frame (s.count - (base + frame))

/-- Runs the instructions of a block that found `base` slots on the stack. -/
def runSteps (run : BlockRunner S) (rules : Grammar S) (pool : Stack (Object S))
    (offset base : Nat) (code : List UInt8) (s : State S) : Except Stop (Reply × State S) :=
  if code.isEmpty then .ok (.ok, s)
  else
    match step run rules code pool offset s with
    | .error stop => .error stop
    | .ok (.err, ⟨reader, stack, depth⟩) => return (.err, ⟨reader, ← dropPartial base stack, depth⟩)
    | .ok (.ok, s) =>
      match h : Bytecode.instructionSize code with
      | .error cause => .error (.fault (.malformed cause))
      | .ok size =>
        have : 0 < size := Bytecode.instructionSize_pos h
        runSteps run rules pool offset base (code.drop size) s
termination_by code.length
decreasing_by
  have : code ≠ [] := by simpa using ‹¬code.isEmpty = true›
  have := List.length_pos_iff.2 this
  simp only [List.length_drop]
  omega

/-- Runs a block, with at most `maxDepth` blocks within each other; 0 is for no limit. -/
def runBlock (rules : Grammar S) (maxDepth : Nat) : Nat → BlockRunner S
  | 0 => fun _ _ _ _ => .error .endless
  | fuel + 1 => fun code pool offset s =>
    match s with
    | ⟨reader, stack, depth⟩ =>
      if 0 < maxDepth && maxDepth < depth + 1 then .error (.tooDeep (depth + 1))
      else do
        let base := stack.count
        let (reply, s) ←
          runSteps (runBlock rules maxDepth fuel) rules pool offset base code
            ⟨reader, stack, depth + 1⟩
        return (reply, ⟨s.reader, s.stack, s.depth - 1⟩)

/-- The outcome of a run that ended with the given reply: what lies on the stack, which holds nothing
else. -/
def finish (k : Kind S.Base) (reply : Reply) (s : State S) :
    Except Fault (Outcome S.Custom S.Token (S.Val k)) := do
  let position := s.reader.position
  let consumed : Bool := 0 < s.reader.cursor.offset
  let (result, stack) ←
    match reply with
    | .ok => do
      let (v, stack) ← takeValue s.reader.input s.stack k
      pure ((.ok v : Except S.Error (S.Val k)), stack)
    | .err => do
      let (e, stack) ← Frame.popError s.reader s.stack
      pure (.error e, stack)
  if stack.isEmpty then return ⟨consumed, result, position⟩
  else .error (.corrupted .valuesLeft)

end ParserMachine.Machine
