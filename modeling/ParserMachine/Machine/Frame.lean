import ParserMachine.Machine.Object

/-!
# Error frames

A block that fails leaves a *pending error frame* on top of the stack instead of a value:

```text
  top ->  cursor                (where the error happened)
          mark: expected token  (describes the slot below it)
          'a'                   (payload)
          mark: unexpected token
          'c'
          mark: terminator      (bottom of the frame)
```

A frame is opened, added to, and closed with its cursor. `stripExpected` edits one in place,
`mergeTop` makes one of two, and `popError` turns one into a parse error. Until then payloads stay
what the program and the input had at hand: spans of the input, and constants.
-/

set_option autoImplicit false

namespace ParserMachine.Frame

variable {S : Signature}

/-! ### Building -/

/-- Starts a frame. -/
def start (s : Stack (Object S)) : Except Fault (Stack (Object S)) :=
  s.push Marker.terminator

/-- Adds the end of the input as unexpected. -/
def unexpectedEnd (s : Stack (Object S)) : Except Fault (Stack (Object S)) :=
  s.push (Marker.unexpected .endOfInput)

/-- Adds what was found as unexpected: a token, or the end of the input. -/
def unexpected (s : Stack (Object S)) (found : Option S.Token) :
    Except Fault (Stack (Object S)) :=
  match found with
  | some t => do (← s.push t).push (Marker.unexpected .token)
  | none => unexpectedEnd s

/-- Adds a run of input tokens as unexpected. -/
def unexpectedSpan (s : Stack (Object S)) (span : Span) : Except Fault (Stack (Object S)) := do
  (← s.push span).push (Marker.unexpected .tokens)

/-- Adds the end of the input as expected. -/
def expectedEnd (s : Stack (Object S)) : Except Fault (Stack (Object S)) :=
  s.push (Marker.expected .endOfInput)

/-- Adds a constant as an expected item of the given kind. -/
def expected (s : Stack (Object S)) (kind : ItemKind) (pool : Stack (Object S)) (id : Nat) :
    Except Fault (Stack (Object S)) := do
  (← s.pushFrom pool id).push (Marker.expected kind)

/-- Adds each of some tokens as expected. -/
def expectedEach (s : Stack (Object S)) (tokens : List S.Token) :
    Except Fault (Stack (Object S)) :=
  tokens.foldlM (fun (s : Stack (Object S)) t => do
    (← s.push t).push (Marker.expected .token)) s

/-- Adds a constant as a complaint. -/
def complaint (s : Stack (Object S)) (pool : Stack (Object S)) (id : Nat) :
    Except Fault (Stack (Object S)) := do
  (← s.pushFrom pool id).push Marker.fancy

/-- Closes a frame with the place of its error. -/
def close (s : Stack (Object S)) (place : Cursor) : Except Fault (Stack (Object S)) :=
  s.push place

/-! ### Measuring -/

/-- The place of the frame whose cursor lies at the given depth. -/
def place (s : Stack (Object S)) (depth : Nat) : Except Fault Cursor :=
  match (s.peekAt? depth : Option Cursor) with
  | some place => .ok place
  | none => .error (.corrupted .noFrame)

/-- The depth of the terminator that is found by going down from mark to mark. -/
def terminatorDepth (s : Stack (Object S)) (depth : Nat) : Except Fault Nat :=
  if depth < s.count then
    match (s.peekAt? depth : Option Marker) with
    | none => .error (.corrupted .unterminatedFrame)
    | some .terminator => .ok depth
    | some mark => terminatorDepth s (depth + 1 + mark.payloadSlots)
  else .error (.corrupted .unterminatedFrame)
termination_by s.count - depth

/-- The number of slots of the frame whose cursor lies at the given depth, inline or boxed. -/
def length (s : Stack (Object S)) (depth : Nat) : Except Fault Nat := do
  if s.holds Cursor depth then return (← terminatorDepth s (depth + 1)) - depth + 1
  else throw (.corrupted .noFrame)

/-! ### Editing -/

/-- Drops the frame on top. -/
def discard (s : Stack (Object S)) : Except Fault (Stack (Object S)) := do
  s.popAll (← length s 0)

/-- Drops the frame that lies beneath the top `keep` slots. -/
def discardUnder (s : Stack (Object S)) (keep : Nat) : Except Fault (Stack (Object S)) := do
  s.dropUnder keep (← length s keep)

/-- Makes one frame of the two on top: the one further into the input, or at the same place one with
the items of both. -/
def mergeTop (s : Stack (Object S)) : Except Fault (Stack (Object S)) := do
  let rightLength ← length s 0
  let leftLength ← length s rightLength
  let right ← place s 0
  let left ← place s rightLength
  match compare right.offset left.offset with
  | .gt => s.dropUnder rightLength leftLength
  | .lt => s.popAll rightLength
  | .eq => s.dropUnder (rightLength - 1) 2

/-- Drops every expected item from the mark at the given depth down to the terminator. The first
argument bounds the steps; the number of slots is enough. -/
def stripFrom : Nat → Stack (Object S) → Nat → Except Fault (Stack (Object S))
  | 0, _, _ => .error (.corrupted .unterminatedFrame)
  | bound + 1, s, depth =>
    match (s.peekAt? depth : Option Marker) with
    | none => .error (.corrupted .unterminatedFrame)
    | some .terminator => .ok s
    | some (.expected kind) => do
      stripFrom bound (← s.dropUnder depth (1 + kind.payloadSlots)) depth
    | some mark => stripFrom bound s (depth + 1 + mark.payloadSlots)

/-- Drops every expected item from the frame on top. -/
def stripExpected (s : Stack (Object S)) : Except Fault (Stack (Object S)) :=
  stripFrom s.count s 1

/-- Adds a name to the frame on top as what was expected. -/
def relabel (s : Stack (Object S)) (pool : Stack (Object S)) (id : Nat) :
    Except Fault (Stack (Object S)) := do
  match ← s.popValue? with
  | none => .error (.corrupted .noFrameToReopen)
  | some (place, s) => close (← expected s .label pool id) place

/-! ### Reading -/

/-- Pops the payload of an item. -/
def popItem (input : Input S.Token) (s : Stack (Object S)) (kind : ItemKind) :
    Except Fault (Item S.Token × Stack (Object S)) := do
  match kind with
  | .token =>
    match ← s.popValue? with
    | some (t, s) => return (.token t, s)
    | none => .error (.corrupted .wrongItemPayload)
  | .tokens =>
    match ← s.popValue? with
    | some (span, s) => return (.tokens (← Span.of span input), s)
    | none =>
      match ← s.takeObject? with
      | some (run, s) => return (.tokens run, s)
      | none => .error (.corrupted .wrongItemPayload)
  | .label =>
    match ← s.takeObject? with
    | some (name, s) => return (.label name, s)
    | none => .error (.corrupted .wrongItemPayload)
  | .endOfInput => return (.endOfInput, s)

/-- What has been read of a frame: the greatest unexpected item, the expected ones, and the
complaints, oldest first. -/
structure Contents (S : Signature) where
  unexpected : Option (Item S.Token) := none
  expected : SortedSet (Item S.Token) := ∅
  complaints : List (Complaint S.Custom) := []

/-- Pops marks and payloads down to the terminator. The first argument bounds the steps; the number
of slots is enough. -/
def popContents (input : Input S.Token) :
    Nat → Contents S → Stack (Object S) → Except Fault (Contents S × Stack (Object S))
  | 0, _, _ => .error (.corrupted .unterminatedFrame)
  | bound + 1, c, s => do
    match ← s.popValue? with
    | none => .error (.corrupted .unterminatedFrame)
    | some (Marker.terminator, s) => return (c, s)
    | some (.expected kind, s) =>
      let (item, s) ← popItem input s kind
      popContents input bound { c with expected := c.expected.insert item } s
    | some (.unexpected kind, s) =>
      let (item, s) ← popItem input s kind
      popContents input bound { c with unexpected := Item.greater? c.unexpected (some item) } s
    | some (.fancy, s) =>
      match ← s.takeObject? with
      | none => .error (.corrupted .wrongFancyPayload)
      | some (complaint, s) =>
        popContents input bound { c with complaints := complaint :: c.complaints } s

/-- Pops the frame on top as the parse error that it stands for. Complaints outweigh items, and of
like complaints the oldest is kept. -/
def popError (reader : Reader S.Token) (s : Stack (Object S)) :
    Except Fault (S.Error × Stack (Object S)) := do
  match ← s.popValue? with
  | none => .error (.corrupted .noFrame)
  | some (place, s) =>
    let position := reader.positionOf place
    let (c, s) ← popContents reader.input s.count {} s
    if c.complaints.isEmpty then return (.trivial position c.unexpected c.expected, s)
    else return (.fancy position (Complaint.pool [] c.complaints), s)

end ParserMachine.Frame
