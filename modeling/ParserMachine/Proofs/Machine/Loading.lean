import ParserMachine.Machine.Program
import ParserMachine.Proofs.Bytecode.Decoding
import ParserMachine.Proofs.Stack.Operations

/-!
# Code that is loaded for a parser

`Loads rules pool p code offset` says that `code` does the parser `p`, with the constants that it
names in `pool` and their indices counted from `offset`. It goes by the expression and does not
mention how programs are built; the bytes of an instruction and the cells that its operands lead to
are all there is to it. So it does not matter where in a larger pool the constants lie
(`Loads.relocate`).

`yields_compile` says that a parser is compiled into a program that is loaded for it, or refused
because it is too large.
-/

set_option autoImplicit false

namespace ParserMachine

variable {S : Signature}

namespace Parser

section Loads

variable (pool : List (Cell (Object S)))

/-- The code is one instruction that names the constant. -/
def LoadsConstant (op : Opcode) (c : Cell (Object S)) (code : List UInt8) (offset : Nat) : Prop :=
  ∃ id : UInt16, code = op.byte :: Code.idBytes id ∧ pool[id.toNat + offset]? = some c

/-- The code is one instruction that names a routine and a function. -/
def LoadsInvoke (op : Opcode) (routine : Dispatcher) (function : Object S) (code : List UInt8)
    (offset : Nat) : Prop :=
  ∃ first second : UInt16, code = op.byte :: (Code.idBytes first ++ Code.idBytes second) ∧
    pool[first.toNat + offset]? = some (.ofValue routine) ∧
    pool[second.toNat + offset]? = some (.object function)

/-- The code is one instruction around a block. -/
def Wraps (op : Opcode) (body code : List UInt8) : Prop :=
  ∃ size : UInt32, size.toNat = body.length ∧ code = op.byte :: Code.wordBytes size ++ body

/-- The code is one instruction around a block that names a constant. -/
def WrapsConstant (op : Opcode) (c : Cell (Object S)) (body code : List UInt8) (offset : Nat) :
    Prop :=
  ∃ (id : UInt16) (size : UInt32), size.toNat = body.length ∧
    code = op.byte :: (Code.idBytes id ++ Code.wordBytes size) ++ body ∧
    pool[id.toNat + offset]? = some c

/-- The code is one instruction around two blocks, which tells how far the constants of the second one
are moved. -/
def Chooses (left right : List UInt8) (shift : Nat) (code : List UInt8) : Prop :=
  ∃ (leftSize rightSize : UInt32) (id : UInt16), leftSize.toNat = left.length ∧
    rightSize.toNat = right.length ∧ id.toNat = shift ∧
    code = Opcode.or.byte ::
      (Code.wordBytes leftSize ++ (Code.wordBytes rightSize ++ Code.idBytes id)) ++ left ++ right

/-- The code does the parser, with its constants in the pool from the offset on. -/
def Loads (rules : Grammar S) :
    {k : Kind S.Base} → Parser S k → List UInt8 → Nat → Prop
  | _, .pure v, code, offset => LoadsConstant pool .pure (.object (.datum (.ofVal v))) code offset
  | _, .error c, code, offset => LoadsConstant pool .error (.object (.complaint c)) code offset
  | _, .token t, code, offset => LoadsConstant pool .token (.ofValue t) code offset
  | _, .tokens ts, code, offset =>
    LoadsConstant pool .tokens (.object (.datum (.run ts))) code offset
  | _, .satisfy p, code, offset => LoadsConstant pool .satisfy (.object (.predicate p)) code offset
  | _, .oneOf ts, code, offset =>
    LoadsConstant pool .oneOf (.object (.datum (.run ts))) code offset
  | _, .noneOf ts, code, offset =>
    LoadsConstant pool .noneOf (.object (.datum (.run ts))) code offset
  | _, .take n, code, _ =>
    ∃ count : UInt32, count.toNat = n ∧ code = Opcode.takeN.byte :: Code.wordBytes count
  | _, .take1, code, _ => code = [Opcode.take1.byte]
  | _, .takeWhile p, code, offset =>
    LoadsConstant pool .takeWhile (.object (.predicate p)) code offset
  | _, .takeWhile1 p, code, offset =>
    LoadsConstant pool .takeWhile1 (.object (.predicate p)) code offset
  | _, .eof, code, _ => code = [Opcode.eof.byte]
  | _, .newline, code, offset =>
    LoadsConstant pool .newline (.object (.label "newline")) code offset
  | _, .map p f, code, offset =>
    ∃ first last, code = first ++ last ∧ Loads rules p first offset ∧
      LoadsInvoke pool .invoke .map (.mapping f) last offset
  | _, .bind p f, code, offset =>
    ∃ first last, code = first ++ last ∧ Loads rules p first offset ∧
      LoadsInvoke pool .invokeM .bind (.binder f) last offset
  | _, .selectMany p f project, code, offset =>
    ∃ first middle last, code = first ++ (middle ++ last) ∧ Loads rules p first offset ∧
      LoadsInvoke pool .invokeM .select (.binder f) middle offset ∧
      LoadsInvoke pool .invoke .project (.projection project) last offset
  | _, .or p q, code, offset =>
    ∃ left right shift, Chooses left right shift code ∧ Loads rules p left offset ∧
      Loads rules q right (offset + shift)
  | _, .try p, code, offset => ∃ body, Wraps .try body code ∧ Loads rules p body offset
  | _, .label name p, code, offset =>
    ∃ body, WrapsConstant pool .label (.object (.label name)) body code offset ∧
      Loads rules p body offset
  | _, .hidden p, code, offset => ∃ body, Wraps .hidden body code ∧ Loads rules p body offset
  | _, .lookAhead p, code, offset => ∃ body, Wraps .lookAhead body code ∧ Loads rules p body offset
  | _, .notFollowedBy p, code, offset =>
    ∃ body, Wraps .notFollowedBy body code ∧ Loads rules p body offset
  | _, .observing p, code, offset =>
    ∃ body, WrapsConstant pool .observing (.ofValue Observer.observe) body code offset ∧
      Loads rules p body offset
  | _, .rule r, code, offset =>
    ∃ first last, code = first ++ last ∧
      LoadsConstant pool .pure (.object (.datum .unit)) first offset ∧
      LoadsInvoke pool .invokeM .bind (.binder fun _ : S.Val .unit => rules r) last offset

end Loads

/-! ### Where the constants lie -/

/-- Each cell that the one pool has at an index, the other has at that index too, each index counted
from its own offset. -/
def Relocates (pool pool' : List (Cell (Object S))) (offset offset' : Nat) : Prop :=
  ∀ index c, pool[index + offset]? = some c → pool'[index + offset']? = some c

section Relocation

variable {rules : Grammar S} {pool pool' : List (Cell (Object S))} {offset offset' : Nat}
  {code : List UInt8} {k : Kind S.Base}

/-- Where a pool is relocated, so are the blocks in it whose constants are moved further. -/
theorem Relocates.shifted (h : Relocates pool pool' offset offset') (shift : Nat) :
    Relocates pool pool' (offset + shift) (offset' + shift) := by
  intro index c hc
  have place : index + (offset + shift) = index + shift + offset := by omega
  have place' : index + (offset' + shift) = index + shift + offset' := by omega
  rw [place'] at *
  exact h (index + shift) c (by rwa [place] at hc)

/-- A pool between others, entered at its place. -/
theorem relocates_append (before pool after : List (Cell (Object S))) :
    Relocates pool (before ++ pool ++ after) 0 before.length := by
  intro index c hc
  have inside : index < pool.length := (List.getElem?_eq_some_iff.1 hc).1
  rw [Nat.add_comm, List.append_assoc, List.getElem?_append_right (by omega),
    Nat.add_sub_cancel_left, List.getElem?_append_left inside]
  exact hc

/-- An instruction that names a constant is loaded in any pool that has the constant there. -/
theorem LoadsConstant.relocate (h : Relocates pool pool' offset offset') {op : Opcode}
    {c : Cell (Object S)} (hl : LoadsConstant pool op c code offset) :
    LoadsConstant pool' op c code offset' := by
  obtain ⟨id, hcode, hc⟩ := hl
  exact ⟨id, hcode, h _ _ hc⟩

/-- An applied function is loaded in any pool that has its routine and the function there. -/
theorem LoadsInvoke.relocate (h : Relocates pool pool' offset offset') {op : Opcode}
    {routine : Dispatcher} {function : Object S}
    (hl : LoadsInvoke pool op routine function code offset) :
    LoadsInvoke pool' op routine function code offset' := by
  obtain ⟨first, second, hcode, hroutine, hfunction⟩ := hl
  exact ⟨first, second, hcode, h _ _ hroutine, h _ _ hfunction⟩

/-- An instruction that wraps a block beside a constant is loaded in any pool that has the constant
there. -/
theorem WrapsConstant.relocate (h : Relocates pool pool' offset offset') {op : Opcode}
    {c : Cell (Object S)} {body : List UInt8} (hl : WrapsConstant pool op c body code offset) :
    WrapsConstant pool' op c body code offset' := by
  obtain ⟨id, size, hsize, hcode, hc⟩ := hl
  exact ⟨id, size, hsize, hcode, h _ _ hc⟩

/-- Loaded code stays loaded where its constants are found elsewhere. -/
theorem Loads.relocate {p : Parser S k} (h : Relocates pool pool' offset offset')
    (hl : Loads pool rules p code offset) : Loads pool' rules p code offset' := by
  induction p generalizing code offset offset' with
  | pure | error | token | tokens | satisfy | oneOf | noneOf | takeWhile | takeWhile1 | newline =>
    exact LoadsConstant.relocate h hl
  | take | take1 | eof => exact hl
  | map p f ih =>
    obtain ⟨first, last, hcode, hfirst, hlast⟩ := hl
    exact ⟨first, last, hcode, ih h hfirst, hlast.relocate h⟩
  | bind p f ih =>
    obtain ⟨first, last, hcode, hfirst, hlast⟩ := hl
    exact ⟨first, last, hcode, ih h hfirst, hlast.relocate h⟩
  | selectMany p f project ih =>
    obtain ⟨first, middle, last, hcode, hfirst, hmiddle, hlast⟩ := hl
    exact ⟨first, middle, last, hcode, ih h hfirst, hmiddle.relocate h, hlast.relocate h⟩
  | or p q ihp ihq =>
    obtain ⟨left, right, shift, hcode, hp, hq⟩ := hl
    -- The constants of the right side are counted from the shift on.
    exact ⟨left, right, shift, hcode, ihp h hp, ihq (h.shifted shift) hq⟩
  | «try» p ih | hidden p ih | lookAhead p ih | notFollowedBy p ih =>
    obtain ⟨body, hbody, hp⟩ := hl
    exact ⟨body, hbody, ih h hp⟩
  | label name p ih =>
    obtain ⟨body, hbody, hp⟩ := hl
    exact ⟨body, hbody.relocate h, ih h hp⟩
  | observing p ih =>
    obtain ⟨body, hbody, hp⟩ := hl
    exact ⟨body, hbody.relocate h, ih h hp⟩
  | rule r =>
    obtain ⟨first, last, hcode, hfirst, hlast⟩ := hl
    exact ⟨first, last, hcode, hfirst.relocate h, hlast.relocate h⟩

end Relocation

end Parser

/-! ### Building programs -/

namespace Program

/-- The program has the given bytes and the given constants. -/
structure Has (p : Program S) (bytes : List UInt8) (cells : List (Cell (Object S))) : Prop where
  code : p.code.Emits bytes
  pool : p.pool.Represents cells

variable {p q : Program S} {bytes bytes' : List UInt8} {cells cells' : List (Cell (Object S))}

/-- The empty program has no bytes and no constants. -/
theorem has_empty : (empty : Program S).Has [] [] := ⟨Code.emits_empty, Stack.represents_new⟩

/-- A refusal by the code is a reason why a program cannot be built. -/
theorem yields_refusal {α : Type} {x : Except Fault α} {post : α → Prop}
    (h : Yields Fault.IsRefusal x post) : Yields Fault.IsUnbuildable x post := by
  cases x with
  | ok a => exact h
  | error f => exact .inr h

/-- An overflow of the pool is a reason why a program cannot be built. -/
theorem yields_fits {α : Type} {x : Except Fault α} {post : α → Prop} (h : Fits x post) :
    Yields Fault.IsUnbuildable x post := by
  cases x with
  | ok a => exact h
  | error f => exact .inl h

namespace Has

/-- Emitted code comes behind the code that there is, and needs no constants of its own. -/
theorem emit (h : p.Has bytes cells) {code : Code} (hc : code.Emits bytes') :
    (p.emit code).Has (bytes ++ bytes') cells :=
  ⟨h.code.append hc, h.pool⟩

/-- The next constant gets the number of those that there are, if that fits into an index. -/
theorem yields_constantId (h : p.Has bytes cells) :
    Yields Fault.IsUnbuildable (Code.constantId p.pool.count) (·.toNat = cells.length) := by
  rw [← h.pool.count_eq]
  exact yields_refusal (Code.yields_constantId _)

/-- A value that is added is the last constant, and its index is told. -/
theorem addValue {α : Type} [Inline α] (h : p.Has bytes cells) (a : α) :
    Yields Fault.IsUnbuildable (p.addValue a) fun r =>
      r.1.toNat = cells.length ∧ r.2.Has bytes (cells ++ [.ofValue a]) :=
  h.yields_constantId.bind fun _ hid => (yields_fits (h.pool.push a)).bind fun _ hpool =>
    ⟨hid, h.code, hpool⟩

/-- An object that is added is the last constant, and its index is told. -/
theorem addObject (h : p.Has bytes cells) (o : Object S) :
    Yields Fault.IsUnbuildable (p.addObject o) fun r =>
      r.1.toNat = cells.length ∧ r.2.Has bytes (cells ++ [.object o]) :=
  h.yields_constantId.bind fun _ hid => (yields_fits (h.pool.pushObject o)).bind fun _ hpool =>
    ⟨hid, h.code, hpool⟩

/-- The application of a function is put behind the program, its constants behind the others. -/
theorem invoke (h : p.Has bytes cells) (op : Opcode) (routine : Dispatcher) (function : Object S) :
    Yields Fault.IsUnbuildable (p.invoke op routine function) fun q => ∃ last more,
      q.Has (bytes ++ last) (cells ++ more) ∧
        Parser.LoadsInvoke (cells ++ more) op routine function last 0 := by
  refine (h.addValue routine).bind ?_
  rintro ⟨first, p⟩ ⟨hfirst, hp⟩
  refine (hp.addObject function).bind ?_
  rintro ⟨second, p⟩ ⟨hsecond, hp⟩
  refine ⟨_, [.ofValue routine, .object function], ?_, first, second, rfl, ?_, ?_⟩
  · rw [show cells ++ [Cell.ofValue routine, .object function] =
      cells ++ [.ofValue routine] ++ [.object function] by simp]
    exact hp.emit (Code.emits_ofList _)
  · rw [Nat.add_zero, hfirst, List.getElem?_append_right (Nat.le_refl _), Nat.sub_self]
    rfl
  · rw [Nat.add_zero, hsecond, List.length_append, List.length_singleton,
      List.getElem?_append_right (Nat.le_add_right _ _), Nat.add_sub_cancel_left]
    rfl

/-- A program that is wrapped becomes the block of one instruction, with the same constants. -/
theorem wrap (h : p.Has bytes cells) (op : Opcode) :
    Yields Fault.IsUnbuildable (p.wrap op) fun q => ∃ code,
      q.Has code cells ∧ Parser.Wraps op bytes code :=
  (yields_refusal (h.code.framed op)).bind fun _ ⟨size, hsize, hcode⟩ =>
    ⟨_, ⟨hcode, h.pool⟩, size, hsize, rfl⟩

/-- The code becomes a block, wrapped with the constant that was added last. -/
theorem wrapWith {c : Cell (Object S)} (h : p.Has bytes (cells ++ [c])) (op : Opcode) {id : UInt16}
    (hid : id.toNat = cells.length) :
    Yields Fault.IsUnbuildable (p.wrapWith op id) fun q => ∃ code,
      q.Has code (cells ++ [c]) ∧ Parser.WrapsConstant (cells ++ [c]) op c bytes code 0 := by
  have last : (cells ++ [c])[id.toNat]? = some c := by
    rw [hid]
    exact List.getElem?_concat_length
  exact (yields_refusal (h.code.framedWith op id)).bind fun _ ⟨size, hsize, hcode⟩ =>
    ⟨_, ⟨hcode, h.pool⟩, id, size, hsize, rfl, last⟩

/-- The pools are joined, and the choice tells where the second one starts. -/
theorem or (h : p.Has bytes cells) (h' : q.Has bytes' cells') :
    Yields Fault.IsUnbuildable (p.or q) fun r => ∃ code,
      r.Has code (cells ++ cells') ∧ Parser.Chooses bytes bytes' cells.length code := by
  refine h.yields_constantId.bind ?_
  intro shift hshift
  refine (yields_fits (h.pool.append h'.pool)).bind ?_
  intro pool hpool
  refine (yields_refusal (h.code.or h'.code shift)).bind ?_
  intro code
  rintro ⟨left, right, hleft, hright, hcode⟩
  exact ⟨_, ⟨hcode, hpool⟩, left, right, shift, hleft, hright, hshift, rfl⟩

end Has

/-- An instruction with an inline constant has that constant alone in its pool, at the index that it
names. -/
theorem yields_ofValue {α : Type} [Inline α] (op : Opcode) (a : α) :
    Yields Fault.IsUnbuildable (ofValue op a : Except Fault (Program S)) fun p => ∃ code pool,
      p.Has code pool ∧ Parser.LoadsConstant pool op (.ofValue a) code 0 :=
  (has_empty.addValue a).bind fun ⟨id, _⟩ ⟨hid, hp⟩ =>
    ⟨_, _, hp.emit (Code.emits_ofList _), id, rfl, by rw [hid]; rfl⟩

/-- An instruction with an object constant has that constant alone in its pool, at the index that it
names. -/
theorem yields_ofObject (op : Opcode) (o : Object S) :
    Yields Fault.IsUnbuildable (ofObject op o) fun p => ∃ code pool,
      p.Has code pool ∧ Parser.LoadsConstant pool op (.object o) code 0 :=
  (has_empty.addObject o).bind fun ⟨id, _⟩ ⟨hid, hp⟩ =>
    ⟨_, _, hp.emit (Code.emits_ofList _), id, rfl, by rw [hid]; rfl⟩

/-- An instruction without operands is its opcode, and has no constants. -/
theorem has_ofOp (op : Opcode) : (ofOp op : Program S).Has [op.byte] [] :=
  has_empty.emit (Code.emits_ofList _)

end Program

namespace Parser

open Program

variable {rules : Grammar S} {k : Kind S.Base} {pool : List (Cell (Object S))}
  {code : List UInt8}

/-- The program is loaded for the parser. -/
def LoadedIn (program : Program S) (rules : Grammar S) (p : Parser S k) : Prop :=
  ∃ code pool, program.Has code pool ∧ p.Loads pool rules code 0

/-- More constants behind the others do not matter. -/
theorem Loads.extend {p : Parser S k} (h : p.Loads pool rules code 0)
    (more : List (Cell (Object S))) : p.Loads (pool ++ more) rules code 0 :=
  h.relocate (relocates_append [] pool more)

/-- A parser is compiled into a program that is loaded for it, or it is too large to be built. -/
theorem yields_compile (p : Parser S k) :
    Yields Fault.IsUnbuildable (p.compile rules) (p.LoadedIn · rules) := by
  -- Blocks are built first, and then added to: what was loaded of them stays loaded, because constants
  -- are only ever put behind the others.
  induction p with
  | pure | error | tokens | satisfy | oneOf | noneOf | takeWhile | takeWhile1 | newline =>
    exact yields_ofObject _ _
  | token t => exact yields_ofValue _ _
  | take n =>
    exact (yields_refusal (Code.yields_takeCount n)).bind fun count hcount =>
      ⟨_, [], has_empty.emit (Code.emits_ofList _), count, hcount, rfl⟩
  | take1 | eof => exact ⟨_, [], has_ofOp _, rfl⟩
  | map p f ih | bind p f ih =>
    refine ih.bind ?_
    rintro program ⟨first, pool, hp, hfirst⟩
    refine (hp.invoke _ _ _).mono ?_
    rintro program ⟨last, more, hp, hlast⟩
    exact ⟨_, _, hp, first, last, rfl, hfirst.extend more, hlast⟩
  | selectMany p f project ih =>
    refine ih.bind ?_
    rintro program ⟨first, pool, hp, hfirst⟩
    refine (hp.invoke _ _ _).bind ?_
    rintro program ⟨middle, more, hp, hmiddle⟩
    refine (hp.invoke _ _ _).mono ?_
    rintro program ⟨last, rest, hp, hlast⟩
    -- Two functions were added since the first block was loaded, one since the second step was.
    refine ⟨_, _, hp, first, middle, last, by rw [List.append_assoc], ?_, ?_, hlast⟩
    · exact (hfirst.extend more).extend rest
    · exact hmiddle.relocate (relocates_append [] _ rest)
  | or p q ihp ihq =>
    refine ihp.bind ?_
    rintro program ⟨left, pool, hp, hleft⟩
    refine ihq.bind ?_
    rintro other ⟨right, pool', hq, hright⟩
    refine (hp.or hq).mono ?_
    rintro program ⟨code, hp, hcode⟩
    -- The right block keeps the ids that it was compiled with: its code is entered at an offset.
    refine ⟨_, _, hp, left, right, pool.length, hcode, hleft.extend pool', ?_⟩
    rw [Nat.zero_add]
    exact hright.relocate (by simpa using relocates_append pool pool' [])
  | «try» p ih | hidden p ih | lookAhead p ih | notFollowedBy p ih =>
    refine ih.bind ?_
    rintro program ⟨body, pool, hp, hbody⟩
    refine (hp.wrap _).mono ?_
    rintro program ⟨code, hp, hcode⟩
    exact ⟨code, pool, hp, body, hcode, hbody⟩
  | label name p ih =>
    refine ih.bind ?_
    rintro program ⟨body, pool, hp, hbody⟩
    refine (hp.addObject _).bind ?_
    rintro ⟨id, program⟩ ⟨hid, hp⟩
    refine (hp.wrapWith .label hid).mono ?_
    rintro program ⟨code, hp, hcode⟩
    exact ⟨code, _, hp, body, hcode, hbody.extend _⟩
  | observing p ih =>
    refine ih.bind ?_
    rintro program ⟨body, pool, hp, hbody⟩
    refine (hp.addValue _).bind ?_
    rintro ⟨id, program⟩ ⟨hid, hp⟩
    refine (hp.wrapWith .observing hid).mono ?_
    rintro program ⟨code, hp, hcode⟩
    exact ⟨code, _, hp, body, hcode, hbody.extend _⟩
  | rule r =>
    refine (yields_ofObject _ _).bind ?_
    rintro program ⟨first, pool, hp, hfirst⟩
    refine (hp.invoke _ _ _).mono ?_
    rintro program ⟨last, more, hp, hlast⟩
    exact ⟨_, _, hp, first, last, rfl, hfirst.relocate (relocates_append [] pool more), hlast⟩

end Parser

end ParserMachine
