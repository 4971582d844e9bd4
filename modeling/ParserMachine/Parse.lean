import ParserMachine.Machine.Run

/-!
# Parsing

`Program.parseWith` runs a program over an input, under the limits of a `Config`. The stack lies in
scratch memory if some is given, and moves to memory of its own when that runs out.

A run ends in an `Outcome`, unless it is stopped: by a limit of the configuration, or by a fault. The
other ways to parse switch the limits on input and nesting off; they differ in the name of the
source and in the memory they are given.
-/

set_option autoImplicit false

namespace ParserMachine

/-- Limits applied to one parse. -/
structure Config where
  /-- Stack bytes allocated at the start where no scratch memory is given. -/
  stackSize : Nat := 4096
  /-- The most bytes that the stack may grow to. -/
  maxStackSize : Nat := Stack.defaultLimit
  /-- The most tokens that an input may have; 0 for no limit. -/
  maxInputSize : Nat := 100 * 1024 * 1024
  /-- The most blocks that may run within each other; 0 for no limit. -/
  maxRecursionDepth : Nat := 1000
  deriving DecidableEq, Repr

namespace Config

/-- The default sizes, without limits on input and nesting. -/
def unbounded : Config := { maxInputSize := 0, maxRecursionDepth := 0 }

/-- The limits, named. -/
def describe (c : Config) : String :=
  s!"ParserConfig \x7b stack_size: {c.stackSize}, max_stack_size: {c.maxStackSize}, max_input_size: {c.maxInputSize}, max_recursion_depth: {c.maxRecursionDepth} \x7d"

end Config

/-- A limit of the configuration that a parse ran into. -/
inductive LimitError where
  /-- The input has too many tokens. -/
  | inputTooLarge (size limit : Nat)
  /-- Too many blocks run within each other. -/
  | recursionTooDeep (depth limit : Nat)
  deriving DecidableEq, Repr

/-- The wording of a limit that was run into. -/
def LimitError.message : LimitError → String
  | inputTooLarge size limit =>
    s!"Input too large: {size} tokens exceeds limit of {limit} tokens"
  | recursionTooDeep depth limit =>
    s!"Recursion limit exceeded: depth {depth} exceeds limit of {limit}"

/-- Why a parse has no outcome. -/
inductive Halt where
  /-- A limit of the configuration was run into. -/
  | limit (e : LimitError)
  /-- A rule of the library was broken. -/
  | fault (f : Fault)
  /-- Blocks nest without end. -/
  | endless
  deriving DecidableEq, Repr

/-- How many blocks within each other pass for endless where the configuration sets no limit: more than
the memory of any machine has room for. -/
def unlimitedDepth : Nat := UInt64.size / 4

namespace Program

open Machine

variable {S : Signature}

/-- The stack that a parse starts with. -/
def freshStack (scratch : Option (Array UInt8)) (config : Config) : Stack (Object S) :=
  let stack :=
    match scratch with
    | some bytes => Stack.ofScratch bytes
    | none => Stack.withCapacity config.stackSize
  stack.withLimit config.maxStackSize

/-- Runs a program with at most `maxDepth` blocks within each other; 0 is for no limit. -/
def run (p : Program S) (rules : Grammar S) (k : Kind S.Base) (reader : Reader S.Token)
    (stack : Stack (Object S)) (maxDepth : Nat) :
    Except Stop (Outcome S.Custom S.Token (S.Val k)) := do
  let fuel := if maxDepth = 0 then unlimitedDepth else maxDepth + 1
  let (reply, s) ← runBlock rules maxDepth fuel p.code.bytes p.pool 0 ⟨reader, stack, 0⟩
  finish k reply s

/-- Parses an input under the limits of a configuration. -/
def parseWith (p : Program S) (rules : Grammar S) (k : Kind S.Base) (input : Input S.Token)
    (scratch : Option (Array UInt8)) (name : String) (config : Config) :
    Except Halt (Outcome S.Custom S.Token (S.Val k)) :=
  if 0 < config.maxInputSize && config.maxInputSize < input.size then
    .error (.limit (.inputTooLarge input.size config.maxInputSize))
  else
    let stack := freshStack scratch config
    match p.run rules k (.ofInput input name) stack config.maxRecursionDepth with
    | .ok outcome => .ok outcome
    | .error (.tooDeep depth) =>
      .error (.limit (.recursionTooDeep depth config.maxRecursionDepth))
    | .error .endless => .error .endless
    | .error (.unbuilt f) => .error (.fault f)
    | .error (.fault f) => .error (.fault f)

/-- Parses an input in given scratch memory, without limits on input and nesting. -/
def parseIn (p : Program S) (rules : Grammar S) (k : Kind S.Base) (input : Input S.Token)
    (scratch : Array UInt8) (name : String) :
    Except Halt (Outcome S.Custom S.Token (S.Val k)) :=
  p.parseWith rules k input (some scratch) name .unbounded

/-- Parses an input of a named source, without limits on input and nesting. -/
def parseNamed (p : Program S) (rules : Grammar S) (k : Kind S.Base) (input : Input S.Token)
    (name : String) : Except Halt (Outcome S.Custom S.Token (S.Val k)) :=
  p.parseWith rules k input none name .unbounded

/-- Parses an input, without limits on input and nesting. -/
def parse (p : Program S) (rules : Grammar S) (k : Kind S.Base) (input : Input S.Token) :
    Except Halt (Outcome S.Custom S.Token (S.Val k)) :=
  p.parseNamed rules k input ""

/-- Parses several inputs, one after the other, up to the first that has no outcome. -/
def parseBatch (p : Program S) (rules : Grammar S) (k : Kind S.Base)
    (inputs : List (Input S.Token)) :
    Except Halt (List (Outcome S.Custom S.Token (S.Val k))) :=
  inputs.mapM (p.parse rules k)

end Program

/-- How the parses of a batch may be spread over threads. Each parse runs in one thread and shares
nothing with the others, so the settings have no influence on what a batch results in. -/
structure BatchConfig where
  /-- The number of threads; the threads that there are, where none is given. -/
  threads : Option Nat := none
  /-- The least number of inputs that a thread is handed at a time. -/
  chunkSize : Nat := 1
  deriving DecidableEq, Repr

/-- The settings of a batch, named. -/
def BatchConfig.describe (c : BatchConfig) : String :=
  let threads :=
    match c.threads with
    | none => "None"
    | some n => s!"Some({n})"
  s!"ParallelConfig \x7b num_threads: {threads}, min_chunk_size: {c.chunkSize} \x7d"

end ParserMachine
