import ParserMachine.Proofs.Machine.Lockstep
import ParserMachine.Proofs.Machine.Naming

/-!
# Constants in a larger pool

The code of a compiled program may be run with its constants anywhere in a larger pool: entered at the
place where they start, it does what it does with the pool of its own (`runBlock_relocated`). That is what
lets a choice put the constants of its second side behind those of the first and leave the code as it is.

It rests on each index leading to the constant that was added for it (`Program.exists_visits`), for which
all indices must be told whole. One that does not fit its operand is never written: the parser is not
compiled then (`compile_crowded`, `compile_or_full`). There are parsers for which this happens
(`compile_labelled_full`).
-/

set_option autoImplicit false

namespace ParserMachine

open Machine

variable {S : Signature} {rules : Grammar S} {a k : Kind S.Base}

/-! ### Running in a larger pool -/

/-- With its constants between those of others, each block of a program does what it does where they are
alone. -/
theorem Program.runBlock_relocated {p : Parser S k} {program : Program S}
    (h : p.compile rules = .ok program) {block : List UInt8} {offset : Nat}
    (hblock : program.HasBlock block offset) {before after joined : Stack (Object S)}
    {cellsBefore cellsAfter cells : List (Cell (Object S))} (hbefore : before.Represents cellsBefore)
    (hafter : after.Represents cellsAfter)
    (hjoined : (do (← before.append program.pool).append after) = Except.ok joined)
    (maxDepth fuel : Nat) {st : State S} (hst : st.stack.Holds cells) :
    runBlock rules maxDepth fuel block joined (before.count + offset) st =
      runBlock rules maxDepth fuel block program.pool offset st := by
  obtain ⟨bytes, own, hprogram, hcode⟩ := (p.yields_compile).post_of_eq_ok h
  obtain ⟨k', q, hq⟩ := hblock.loads hprogram hcode
  have pools : Fits (do (← before.append program.pool).append after)
      (·.Represents (cellsBefore ++ own ++ cellsAfter)) :=
    (hbefore.append hprogram.pool).bind fun _ hfront => hfront.append hafter
  have hpool := pools.post_of_eq_ok hjoined
  have moved := (Parser.relocates_append cellsBefore own cellsAfter).shifted offset
  rw [Nat.zero_add] at moved
  rw [hbefore.count_eq]
  -- On one stack no fault is excused, so nothing can set the two runs apart.
  rcases runBlock_eq_or_cut hprogram.pool hpool hq moved
    (Outlasts.refl (fun _ => False) maxDepth fuel st.depth) hst with same | ⟨_, _, impossible⟩
  · exact same
  · exact impossible.elim

/-! ### Indices that do not fit -/

/-- The parser is a combinator applied to another one, behind whose constants it adds so many of its own. -/
inductive Parser.AddsTo (p : Parser S a) : {k : Kind S.Base} → Parser S k → Nat → Prop where
  | map {b : Kind S.Base} (f : S.Val a → S.Val b) : AddsTo p (.map p f) 2
  | bind {b : Kind S.Base} (f : S.Val a → Parser S b) : AddsTo p (.bind p f) 2
  | selectMany {b c : Kind S.Base} (f : S.Val a → Parser S b) (project : S.Val a → S.Val b → S.Val c) :
    AddsTo p (.selectMany p f project) 4
  | label (name : String) : AddsTo p (.label name p) 1
  | observing : AddsTo p (.observing p) 1

/-- The fault of a pool that has no room for one more constant, or of an operand that can tell no more. -/
def Fault.IsCrowding (f : Fault) : Prop := f.IsOverflow ∨ f = .tooManyConstants (UInt16.size + 1)

namespace Program

variable {program : Program S}

/-- An index that does not fit its operand is not told. -/
theorem constantId_of_le {n : Nat} (hn : UInt16.size ≤ n) :
    Code.constantId n = .error (.tooManyConstants (n + 1)) :=
  if_neg (Nat.not_lt.2 hn)

section Full

variable (full : UInt16.size ≤ program.pool.count)
include full

/-- Where operands can tell no more, a value is refused as one constant too many. -/
theorem addValue_full {α : Type} [Inline α] (a : α) :
    program.addValue a = .error (.tooManyConstants (program.pool.count + 1)) := by
  rw [addValue, constantId_of_le full]
  rfl

/-- Where operands can tell no more, an object is refused as one constant too many. -/
theorem addObject_full (o : Object S) :
    program.addObject o = .error (.tooManyConstants (program.pool.count + 1)) := by
  rw [addObject, constantId_of_le full]
  rfl

/-- Where operands can tell no more, a call is refused for the first of its two constants. -/
theorem invoke_full (op : Opcode) (routine : Dispatcher) (function : Object S) :
    program.invoke op routine function = .error (.tooManyConstants (program.pool.count + 1)) := by
  rw [invoke, addValue_full full]
  rfl

/-- Where operands can tell no more, a choice is refused for the place of its second side. -/
theorem or_full (other : Program S) :
    program.or other = .error (.tooManyConstants (program.pool.count + 1)) := by
  rw [or, constantId_of_le full]
  rfl

end Full

namespace Has

variable {bytes : List UInt8} {cells : List (Cell (Object S))}

/-- The next index is told if it fits, and otherwise it is one constant too many. -/
theorem crowds_constantId (h : program.Has bytes cells) (room : cells.length ≤ UInt16.size) :
    Yields Fault.IsCrowding (Code.constantId program.pool.count) fun _ =>
      cells.length < UInt16.size := by
  rw [h.pool.count_eq, Code.constantId]
  split
  · next fits => exact fits
  · next full =>
    have exactly : cells.length = UInt16.size := by omega
    rw [exactly]
    exact .inr rfl

/-- A constant is added to one less than operands can tell, or there is no room for it. -/
theorem crowds_addValue {α : Type} [Inline α] (h : program.Has bytes cells)
    (room : cells.length ≤ UInt16.size) (a : α) :
    Yields Fault.IsCrowding (program.addValue a) fun r =>
      r.2.Has bytes (cells ++ [.ofValue a]) ∧ cells.length < UInt16.size :=
  (h.crowds_constantId room).bind fun _ hroom =>
    ((h.pool.push a).weaken fun _ overflow => .inl overflow).bind fun _ hpool =>
      ⟨⟨h.code, hpool⟩, hroom⟩

/-- An object is added to less than operands can tell, or there is no room for it. -/
theorem crowds_addObject (h : program.Has bytes cells) (room : cells.length ≤ UInt16.size)
    (o : Object S) :
    Yields Fault.IsCrowding (program.addObject o) fun r =>
      r.2.Has bytes (cells ++ [.object o]) ∧ cells.length < UInt16.size :=
  (h.crowds_constantId room).bind fun _ hroom =>
    ((h.pool.pushObject o).weaken fun _ overflow => .inl overflow).bind fun _ hpool =>
      ⟨⟨h.code, hpool⟩, hroom⟩

/-- Both constants of a call are told by operands, or there is no room for them. -/
theorem crowds_invoke (h : program.Has bytes cells) (room : cells.length ≤ UInt16.size)
    (op : Opcode) (routine : Dispatcher) (function : Object S) :
    Yields Fault.IsCrowding (program.invoke op routine function) fun made =>
      ∃ bytes' cells', made.Has bytes' cells' ∧ cells'.length = cells.length + 2 ∧
        cells'.length ≤ UInt16.size := by
  refine (h.crowds_addValue room routine).bind ?_
  rintro ⟨first, program⟩ ⟨h, hfirst⟩
  have room : (cells ++ [Cell.ofValue routine]).length ≤ UInt16.size := by
    rwa [List.length_append]
  refine (h.crowds_addObject room function).bind ?_
  rintro ⟨second, program⟩ ⟨h, hsecond⟩
  refine ⟨_, _, h.emit (Code.emits_ofList _), ?_, ?_⟩
  · simp
  · simp only [List.length_append, List.length_singleton] at hsecond ⊢
    omega

end Has

end Program

namespace Parser

variable {p : Parser S a} {q : Parser S k} {program : Program S} {own : Nat}

/-- Where operands can tell of no constant behind those of the inner parser, the combinator is refused. -/
theorem compile_full (h : p.compile rules = .ok program) (hq : p.AddsTo q own)
    (full : UInt16.size ≤ program.pool.count) :
    q.compile rules = .error (.tooManyConstants (program.pool.count + 1)) := by
  cases hq with
  | map f =>
    rw [compile, h]
    exact Program.invoke_full full _ _ _
  | bind f =>
    rw [compile, h]
    exact Program.invoke_full full _ _ _
  | selectMany f project =>
    rw [compile, h]
    show program.invoke _ _ _ >>= _ = _
    rw [Program.invoke_full full]
    rfl
  | label name =>
    rw [compile, h]
    show program.addObject _ >>= _ = _
    rw [Program.addObject_full full]
    rfl
  | observing =>
    rw [compile, h]
    show program.addValue _ >>= _ = _
    rw [Program.addValue_full full]
    rfl

/-- What the combinator adds to a pool with room for at least its first constant is all told by operands, or
there is no room for it. -/
theorem crowds_compile (h : p.compile rules = .ok program) (hq : p.AddsTo q own)
    (room : program.pool.count < UInt16.size) (crowded : UInt16.size < program.pool.count + own) :
    ∃ f, q.compile rules = .error f ∧ f.IsCrowding := by
  obtain ⟨bytes, cells, hprogram, -⟩ := (p.yields_compile).post_of_eq_ok h
  rw [hprogram.pool.count_eq] at room crowded
  have compiled : Yields Fault.IsCrowding (q.compile rules) fun _ => False := by
    -- Had all constants been added, operands would tell them all.
    cases hq with
    | map f | bind f =>
      rw [compile, h]
      refine (hprogram.crowds_invoke (Nat.le_of_lt room) _ _ _).mono ?_
      rintro made ⟨-, cells', -, hlength, hroom⟩
      omega
    | selectMany f project =>
      rw [compile, h]
      refine (hprogram.crowds_invoke (Nat.le_of_lt room) _ _ _).bind ?_
      rintro made ⟨_, cells', hmade, hlength, hroom⟩
      refine (hmade.crowds_invoke hroom _ _ _).mono ?_
      rintro made ⟨-, cells₂, -, hlength₂, hroom₂⟩
      omega
    | label | observing => omega
  cases hcompile : q.compile rules with
  | ok made => exact (compiled.post_of_eq_ok hcompile).elim
  | error f => exact ⟨f, rfl, compiled.allowed_of_eq_error hcompile⟩

/-- A combinator with a constant whose index does not fit its operand is refused: as one constant too many
at the first such index, unless there was no room even for its constants before that. -/
theorem compile_crowded (h : p.compile rules = .ok program) (hq : p.AddsTo q own)
    (crowded : UInt16.size < program.pool.count + own) :
    ∃ f, q.compile rules = .error f ∧
      (f = .tooManyConstants (max program.pool.count UInt16.size + 1) ∨
        program.pool.count < UInt16.size ∧ f.IsOverflow) := by
  by_cases room : program.pool.count < UInt16.size
  · obtain ⟨f, hf, crowding⟩ := crowds_compile h hq room crowded
    refine ⟨f, hf, ?_⟩
    rw [Nat.max_eq_right (Nat.le_of_lt room)]
    exact crowding.symm.imp_right fun overflow => ⟨room, overflow⟩
  · have full := Nat.le_of_not_lt room
    refine ⟨_, compile_full h hq full, .inl ?_⟩
    rw [Nat.max_eq_left full]

/-- A choice is refused whose left side has more constants than operands can tell. -/
theorem compile_or_full {q r : Parser S k} {left right : Program S}
    (hq : q.compile rules = .ok left) (hr : r.compile rules = .ok right)
    (full : UInt16.size ≤ left.pool.count) :
    (Parser.or q r).compile rules = .error (.tooManyConstants (left.pool.count + 1)) := by
  rw [compile, hq, hr]
  exact Program.or_full full right

end Parser

/-! ### As many constants as operands can tell -/

/-- Any letter under so many labels. -/
def labelled : Nat → Parser .characters .token
  | 0 => .satisfy fun _ => true
  | n + 1 => .label "letter" (labelled n)

namespace Program

/-- The constants are objects, of which a pool keeps no bytes but those of its index. -/
structure HasObjects (program : Program S) (bytes : List UInt8) (cells : List (Cell (Object S))) : Prop
    extends program.Has bytes cells where
  arena : Cell.arenaOf cells = []
  limit : program.pool.limit = Stack.defaultLimit

variable {program : Program S} {bytes : List UInt8} {cells : List (Cell (Object S))}

/-- The empty program has no constants. -/
theorem hasObjects_empty : (empty : Program S).HasObjects [] [] where
  toHas := has_empty
  arena := rfl
  limit := rfl

/-- A pool has room for as many objects as operands can tell. -/
theorem HasObjects.exists_addObject (h : program.HasObjects bytes cells)
    (room : cells.length < UInt16.size) (o : Object S) : ∃ id made,
      program.addObject o = .ok (id, made) ∧ made.HasObjects bytes (cells ++ [.object o]) := by
  have objects : (Cell.objectsOf cells).length ≤ cells.length := List.length_filterMap_le _ _
  have bound : UInt16.size = 65536 := rfl
  have pushed : ∃ pool, program.pool.pushCell (.object o) = .ok pool := by
    rw [Stack.Represents.exists_pushCell_iff h.pool]
    constructor
    · rw [h.pool.top_eq, h.arena, Stack.bottom, h.pool.count_eq, h.limit]
      simp only [Cell.payload, List.length_nil, Stack.entrySize, Stack.defaultLimit]
      omega
    · simp only [Cell.slot, Slot.Encodable, objectFlag, h.pool.objects_size]
      omega
  obtain ⟨pool, hpool⟩ := pushed
  have holds := (h.pool.pushCell (Cell.sized_object o)).post_of_eq_ok hpool
  refine ⟨UInt16.ofNat program.pool.count, ⟨program.code, pool⟩, ?_, ⟨⟨h.code, holds⟩, ?_, ?_⟩⟩
  · rw [addObject, Code.constantId, if_pos (by rwa [h.pool.count_eq]), Stack.pushObject_eq, hpool]
    rfl
  · rw [Cell.arenaOf_append, h.arena]
    rfl
  · rw [Stack.limit_of_pushCell hpool, h.limit]

/-- The code becomes a block where a frame can tell its size. -/
theorem HasObjects.exists_wrapWith (h : program.HasObjects bytes cells)
    (short : bytes.length < UInt32.size) (op : Opcode) (id : UInt16) : ∃ made bytes',
      program.wrapWith op id = .ok made ∧ made.HasObjects bytes' cells ∧
        bytes'.length = bytes.length + 7 := by
  have length : Code.blockLength program.code.size = .ok (UInt32.ofNat program.code.size) :=
    if_pos (by rwa [h.code.size_eq])
  refine ⟨⟨_, program.pool⟩, _, ?_, ⟨⟨Buffer.Stores.extendFront h.code
    (op.byte :: (Code.idBytes id ++ Code.wordBytes (UInt32.ofNat program.code.size))), h.pool⟩, h.arena,
      h.limit⟩, ?_⟩
  · rw [wrapWith, Code.framedWith, length]
    rfl
  · simp
    omega

/-- Labels can be put around a letter until there are as many constants as operands can tell. -/
theorem exists_compile_labelled {n : Nat} (hn : n < UInt16.size) : ∃ program bytes cells,
    (labelled n).compile noRules = .ok program ∧ program.HasObjects bytes cells ∧
      bytes.length = 3 + 7 * n ∧ cells.length = n + 1 := by
  have operands : UInt16.size = 65536 := rfl
  have words : UInt32.size = 4294967296 := rfl
  induction n with
  | zero =>
    obtain ⟨id, program, hadd, h⟩ :=
      hasObjects_empty.exists_addObject (by decide) (Object.predicate (S := .characters) fun _ => true)
    have emitted : (program.emit (.constant .satisfy id)).Has _ _ :=
      h.toHas.emit (Code.emits_ofList (Opcode.satisfy.byte :: Code.idBytes id))
    refine ⟨_, _, _, ?_, ⟨emitted, h.arena, h.limit⟩, by simp, rfl⟩
    rw [labelled, Parser.compile, ofObject, hadd]
    rfl
  | succ n ih =>
    obtain ⟨program, bytes, cells, hcompile, h, hbytes, hcells⟩ := ih (by omega)
    obtain ⟨id, added, hadd, hadded⟩ := h.exists_addObject (by omega) (.label "letter")
    obtain ⟨made, bytes', hwrap, hmade, hbytes'⟩ := hadded.exists_wrapWith (by omega) .label id
    refine ⟨made, bytes', _, ?_, hmade, by omega, by simp [hcells]⟩
    rw [labelled, Parser.compile, hcompile]
    show program.addObject _ >>= _ = _
    rw [hadd]
    exact hwrap

/-- A letter under as many labels as operands can tell constants is refused. -/
theorem compile_labelled_full :
    (labelled UInt16.size).compile noRules = .error (.tooManyConstants (UInt16.size + 1)) := by
  obtain ⟨program, bytes, cells, hcompile, h, -, hcells⟩ :=
    exists_compile_labelled (n := UInt16.size - 1) (by decide)
  have count : program.pool.count = UInt16.size := by
    rw [h.pool.count_eq, hcells]
    rfl
  have refused := Parser.compile_full hcompile (.label "letter") (by omega)
  rwa [count] at refused

end Program

/-! ### Constants of compiled programs -/

/-- The constants of a compiled program. Its code may be run with them anywhere in a larger pool, entered
at the place where they start, and does what it does with them alone. Each index that the code names,
in whatever block, is counted to the constant that was added for it. And around the program no
combinator is compiled that has to tell of a constant, or of a place for constants, that its operand cannot
tell of. -/
theorem Program.compiled_relocatable {p : Parser S a} {program : Program S}
    (h : p.compile rules = .ok program) :
    (∀ (before after joined : Stack (Object S))
        (cellsBefore cellsAfter cells : List (Cell (Object S))),
      before.Represents cellsBefore → after.Represents cellsAfter →
      (do (← before.append program.pool).append after) = Except.ok joined →
      ∀ (maxDepth fuel : Nat) (st : State S), st.stack.Holds cells →
        runBlock rules maxDepth fuel program.code.bytes joined before.count st =
          runBlock rules maxDepth fuel program.code.bytes program.pool 0 st) ∧
    (∃ named, Visits [(program.code.bytes, 0)] named ∧
      List.Forall₂ (Resolves program.pool) named (p.instructions rules) ∧
      ∀ (block rest : List UInt8) (offset : Nat) (op : Opcode), program.HasBlock block offset →
        Remains block rest → Bytecode.opcodeAt rest = .ok op →
          ∃ indices constants, Bytecode.namedConstants rest op offset = .ok indices ∧
            (op, indices) ∈ named ∧ (op, constants) ∈ p.instructions rules ∧
            Resolves program.pool (op, indices) (op, constants)) ∧
    (∀ {k : Kind S.Base} (q : Parser S k) (own : Nat), p.AddsTo q own →
      UInt16.size < program.pool.count + own →
        ∃ f, q.compile rules = .error f ∧
          (f = .tooManyConstants (max program.pool.count UInt16.size + 1) ∨
            program.pool.count < UInt16.size ∧ f.IsOverflow)) ∧
    ∀ (q : Parser S a) (other : Program S), q.compile rules = .ok other →
      UInt16.size ≤ program.pool.count →
        (Parser.or p q).compile rules = .error (.tooManyConstants (program.pool.count + 1)) := by
  refine ⟨?_, ?_, ?_, ?_⟩
  · intro before after joined cellsBefore cellsAfter cells hbefore hafter hjoined maxDepth fuel st hst
    exact runBlock_relocated h .whole hbefore hafter hjoined maxDepth fuel hst
  · obtain ⟨named, visits, hnamed⟩ := exists_visits h
    refine ⟨named, visits, hnamed, ?_⟩
    intro block rest offset op hblock hrest hop
    obtain ⟨indices, hindices, hmem⟩ :=
      ((visits.comesTo_block hblock).remains hrest).exists_named hop
    obtain ⟨constants, hconstants, resolves⟩ := exists_resolves hnamed hmem
    exact ⟨indices, constants, hindices, hmem, hconstants, resolves⟩
  · intro k q own hq crowded
    exact Parser.compile_crowded h hq crowded
  · intro q other hq full
    exact Parser.compile_or_full h hq full

/-- The choice with its constants between two copies of them. -/
theorem Program.compiled_relocatable_of_letter : ∃ program joined,
    letter.compile noRules = .ok program ∧
      (do (← program.pool.append program.pool).append program.pool) = Except.ok joined ∧
      runBlock noRules 0 3 program.code.bytes joined program.pool.count
          ⟨.ofInput letterInput "text", .new, 0⟩ =
        runBlock noRules 0 3 program.code.bytes program.pool 0
          ⟨.ofInput letterInput "text", .new, 0⟩ ∧
      ∃ named, Visits [(program.code.bytes, 0)] named ∧
        List.Forall₂ (Resolves program.pool) named
          [(.or, []), (.token, [.ofValue 'a']), (.token, [.ofValue 'b'])] := by
  have joins : (letter.compile noRules).toOption.map (fun program =>
      (do (← program.pool.append program.pool).append program.pool : Except Fault _).isOk) =
        some true := by
    decide +kernel
  obtain ⟨program, h⟩ := exists_compile_letter
  obtain ⟨bytes, cells, hprogram, -⟩ := (letter.yields_compile).post_of_eq_ok h
  rw [h] at joins
  obtain ⟨joined, hjoined⟩ := exists_of_isOk (Option.some.inj joins)
  obtain ⟨relocated, ⟨named, visits, hnamed, -⟩, -⟩ := compiled_relocatable h
  refine ⟨program, joined, h, hjoined, ?_, named, visits, hnamed⟩
  exact relocated _ _ _ _ _ [] hprogram.pool hprogram.pool hjoined 0 3 _ Stack.represents_new

end ParserMachine
