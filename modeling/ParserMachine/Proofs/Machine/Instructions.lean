import ParserMachine.Proofs.Machine.Blocks
import ParserMachine.Proofs.Machine.Fetching
import ParserMachine.Proofs.Parser.Nesting

/-!
# Loaded instructions at work

`simulates_step` says that a loaded instruction ends as `Parser.within` says of its parser, for every
parser that is one instruction. It is given that the blocks within end as told (`Implements`); the
machine may be anywhere in its input, with anything on its stack.

`simulates_map`, `simulates_bind`, `simulates_select` and `simulates_project` are the instructions that
follow another one and find its value on the stack.
-/

set_option autoImplicit false

namespace ParserMachine

open Machine

variable {S : Signature}

/-- The parser is one instruction, not a sequence of them. -/
def Parser.IsInstruction : {k : Kind S.Base} → Parser S k → Prop
  | _, .map .. | _, .bind .. | _, .selectMany .. | _, .rule _ => False
  | _, _ => True

/-- The code of a parser that is one instruction is as long as the bytes of that instruction tell,
whatever follows. -/
theorem Parser.instructionSize_eq {rules : Grammar S} {poolCells : List (Cell (Object S))}
    {code : List UInt8} {offset : Nat} {k : Kind S.Base} {p : Parser S k} (hp : p.IsInstruction)
    (hl : p.Loads poolCells rules code offset) (rest : List UInt8) :
    Bytecode.instructionSize (code ++ rest) = .ok code.length := by
  cases p with
  | pure | error | token | tokens | satisfy | oneOf | noneOf | takeWhile | takeWhile1 | newline =>
    exact LoadsConstant.size hl rest rfl
  | take n =>
    obtain ⟨count, -, rfl⟩ := hl
    rw [List.cons_append, Bytecode.instructionSize_of_no_block (by decide), List.length_cons,
      length_wordBytes]
    rfl
  | take1 | eof =>
    obtain rfl := hl
    exact Bytecode.instructionSize_of_no_block (by decide) rest
  | «try» | hidden | lookAhead | notFollowedBy =>
    obtain ⟨body, hbody, -⟩ := hl
    exact hbody.size rest rfl
  | label | observing =>
    obtain ⟨body, hbody, -⟩ := hl
    exact hbody.size rest rfl rfl rfl
  | or =>
    obtain ⟨left, right, shift, hchoice, -⟩ := hl
    exact hchoice.size rest
  | map | bind | selectMany | rule => exact hp.elim

/-- A program that was built of a parser has the parser's code and constants. -/
theorem Parser.loadedIn_of_build {rules : Grammar S} {k : Kind S.Base} {p : Parser S k}
    {program : Program S} (h : build rules p = .ok program) : p.LoadedIn program rules := by
  rw [build] at h
  cases hcompile : p.compile rules with
  | ok made =>
    rw [hcompile] at h
    cases h
    exact (yields_compile p).post_of_eq_ok hcompile
  | error f =>
    rw [hcompile] at h
    cases h

namespace Machine

/-- The runner of blocks does what is told of the parsers that the blocks are loaded for. -/
def Implements (run : BlockRunner S) (rules : Grammar S) (depth : Nat) (block : Parser.Attempt S) :
    Prop :=
  ∀ {k : Kind S.Base} (p : Parser S k) {code : List UInt8} {pool s : Stack (Object S)} {offset : Nat}
    {w : Reader S.Token} {poolCells cells : List (Cell (Object S))}, pool.Represents poolCells →
    p.Loads poolCells rules code offset → s.Holds cells → w.Inside →
    Simulates (Ended w.input cells depth) (run code pool offset ⟨w, s, depth⟩) (block p w)

/-- What is told of parsers keeps to the input and goes back no further than the start. -/
def Follows (block : Parser.Attempt S) : Prop :=
  ∀ {k : Kind S.Base} (p : Parser S k) {w : Reader S.Token} {e : Ending S k}, w.Inside →
    block p w = .ok e → e.reader.Follows w

variable {rules : Grammar S} {run : BlockRunner S} {block : Parser.Attempt S}
  {pool s : Stack (Object S)} {poolCells cells : List (Cell (Object S))} {w : Reader S.Token}
  {depth offset : Nat} {code : List UInt8} {k : Kind S.Base}

/-- An instruction with a constant goes on with it. -/
theorem simulates_constant {α β : Type} {R : α → β → Prop} {y : Except Stop β} {op : Opcode}
    {c : Cell (Object S)} (hl : Parser.LoadsConstant poolCells op c code offset) (rest : List UInt8)
    {f : Nat → Except Stop α} (h : ∀ id, poolCells[id]? = some c → Simulates R (f id) y) :
    Simulates R ((liftM (liftM (Bytecode.constantAt (code ++ rest) 1 offset) : Except Fault Nat) :
      Except Stop Nat) >>= f) y := by
  obtain ⟨id, hid, hc⟩ := hl.constant rest
  exact .answers hid (h id hc)

section Step

variable (hp : pool.Represents poolCells) (hs : s.Holds cells) (hw : w.Inside) (rest : List UInt8)
include hp hs hw

/-- A loaded instruction ends as its parser. -/
theorem simulates_step (hrun : Implements run rules depth block) (hblock : Follows block)
    {p : Parser S k} (hone : p.IsInstruction) (hl : p.Loads poolCells rules code offset) :
    Simulates (Ended w.input cells depth) (step run rules (code ++ rest) pool offset ⟨w, s, depth⟩)
      (p.within rules block w) := by
  rw [step]
  cases p with
  -- Instructions without blocks: the constant is fetched, and the primitive does the rest.
  | pure v =>
    exact .answers (Parser.LoadsConstant.opcode hl rest) <| simulates_constant hl rest fun id hc =>
      .fits (hs.pushFrom hp hc) fun t ht => .ok (.value (.boxed v) ht)
  | error c =>
    exact .answers (Parser.LoadsConstant.opcode hl rest) <| simulates_constant hl rest fun id hc =>
      .ofFits (fits_error hp hs hc)
  | token t =>
    exact .answers (Parser.LoadsConstant.opcode hl rest) <| simulates_constant hl rest fun id hc =>
      .ofFits (fits_token hp hs hc)
  | tokens ts =>
    exact .answers (Parser.LoadsConstant.opcode hl rest) <| simulates_constant hl rest fun id hc =>
      .ofFits (fits_tokens hp hs hw hc)
  | satisfy p =>
    exact .answers (Parser.LoadsConstant.opcode hl rest) <| simulates_constant hl rest fun id hc =>
      .ofFits (fits_satisfy hp hs hc)
  | oneOf ts =>
    exact .answers (Parser.LoadsConstant.opcode hl rest) <| simulates_constant hl rest fun id hc =>
      .ofFits (fits_oneOf hp hs hc)
  | noneOf ts =>
    exact .answers (Parser.LoadsConstant.opcode hl rest) <| simulates_constant hl rest fun id hc =>
      .ofFits (fits_noneOf hp hs hc)
  | takeWhile p =>
    exact .answers (Parser.LoadsConstant.opcode hl rest) <| simulates_constant hl rest fun id hc =>
      .ofFits (fits_takeWhile hp hs hw hc)
  | takeWhile1 p =>
    exact .answers (Parser.LoadsConstant.opcode hl rest) <| simulates_constant hl rest fun id hc =>
      .ofFits (fits_takeWhile1 hp hs hw hc)
  | newline =>
    exact .answers (Parser.LoadsConstant.opcode hl rest) <| simulates_constant hl rest fun id hc =>
      .ofFits (fits_newline hp hs hc)
  | take n =>
    obtain ⟨count, rfl, rfl⟩ := hl
    exact .answers (Parser.fetch_opcode .takeN _) <|
      .answers (Parser.fetch_word [Opcode.takeN.byte] 1 rfl count rest) <|
        .ofFits (fits_takeCount hs hw count.toNat)
  | take1 =>
    obtain rfl := hl
    exact .answers (Parser.fetch_opcode .take1 rest) (.ofFits (fits_take1 hs))
  | eof =>
    obtain rfl := hl
    exact .answers (Parser.fetch_opcode .eof rest) (.ofFits (fits_eof hs))
  -- Instructions around blocks: `hrun` tells what each of their blocks leaves. The right side of a
  -- choice runs on whatever the left side has left, so its cells are not known here.
  | or p q =>
    obtain ⟨left, right, shift, hcode, hleft, hright⟩ := hl
    obtain ⟨leftSize, rightSize, rightShift, leftBlock, rightBlock⟩ := hcode.blocks rest
    refine .answers (hcode.opcode rest) <| .answers leftSize <| .answers rightSize <|
      .answers rightShift <| .answers leftBlock <| .answers rightBlock ?_
    refine simulates_choice (hrun p hp hleft hs hw) (fun e => hblock p hw) fun w' s' cells' hw' hs' => ?_
    rw [← hw'.input_eq]
    exact hrun q hp hright hs' hw'.inside
  | «try» p =>
    obtain ⟨body, hcode, hbody⟩ := hl
    exact .answers (hcode.opcode rest) <| .answers (hcode.block rest) <|
      simulates_tryBlock (hrun p hp hbody hs hw) fun e => hblock p hw
  | hidden p =>
    obtain ⟨body, hcode, hbody⟩ := hl
    exact .answers (hcode.opcode rest) <| .answers (hcode.block rest) <|
      simulates_labelled (hrun p hp hbody hs hw) hp .none
  | lookAhead p =>
    obtain ⟨body, hcode, hbody⟩ := hl
    exact .answers (hcode.opcode rest) <| .answers (hcode.block rest) <|
      simulates_lookAhead (hrun p hp hbody hs hw) fun e => hblock p hw
  | notFollowedBy p =>
    obtain ⟨body, hcode, hbody⟩ := hl
    exact .answers (hcode.opcode rest) <| .answers (hcode.block rest) <|
      simulates_notFollowedBy (hrun p hp hbody hs hw) fun e => hblock p hw
  | label name p =>
    obtain ⟨body, hcode, hbody⟩ := hl
    obtain ⟨id, hid, hc⟩ := hcode.constant rest
    exact .answers (hcode.opcode rest) <| .answers (hcode.block rest) <| .answers hid <|
      simulates_labelled (hrun p hp hbody hs hw) hp (.some hc)
  | observing p =>
    obtain ⟨body, hcode, hbody⟩ := hl
    obtain ⟨id, hid, hc⟩ := hcode.constant rest
    exact .answers (hcode.opcode rest) <| .answers (hcode.block rest) <| .answers hid <|
      .answers (constantValue_eq hp hc) <|
        simulates_observing (hrun p hp hbody hs hw) fun e => hblock p hw
  -- Sequences are no single instructions.
  | map | bind | selectMany | rule => exact hone.elim

end Step

/-! ### Instructions that apply functions -/

section Functions

variable {op : Opcode} {routine : Dispatcher} {function : Object S} {a b : Kind S.Base}
  {c c' : Cell (Object S)} {v : S.Val a} {v' : S.Val b} (hp : pool.Represents poolCells)
  (rest : List UInt8)
include hp

/-- The function is pushed, and its routine applies it. -/
theorem simulates_invoke {β : Type} {y : Except Stop β} {R : State S → β → Prop}
    (hl : Parser.LoadsInvoke poolCells op routine function code offset) (hs : s.Holds cells)
    (h : ∀ t, t.Holds (.object function :: cells) →
      Simulates (fun t z => R ⟨w, t, depth⟩ z) (dispatch rules w.input routine t) y) :
    Simulates R (invoke rules (code ++ rest) pool offset ⟨w, s, depth⟩) y := by
  obtain ⟨first, second, hfirst, hroutine, hsecond, hfunction⟩ := hl.constants rest
  refine .answers hfirst <| .answers (constantValue_eq hp hroutine) <| .answers hsecond <|
    .fits (hs.pushFrom hp hfunction) fun t ht => ?_
  exact (h t ht).map fun t z hz => hz

omit hp in
/-- The value that a function made is what the instruction leaves. -/
theorem simulates_applied {e : Ending S b}
    (h : Simulates (fun s' e => Ended w.input cells depth (.ok, s') e)
      (invoke rules (code ++ rest) pool offset ⟨w, s, depth⟩) (.ok e))
    (hl : Parser.LoadsInvoke poolCells .invoke routine function code offset) :
    Simulates (Ended w.input cells depth) (step run rules (code ++ rest) pool offset ⟨w, s, depth⟩)
      (.ok e) := by
  rw [step]
  exact .answers (hl.opcode rest) (h.map fun _ _ h => h)

/-- A function that maps is applied to the value on top, and its result takes the place of that. -/
theorem simulates_map {f : S.Val a → S.Val b}
    (hl : Parser.LoadsInvoke poolCells .invoke .map (.mapping f) code offset)
    (hc : Reads w.input a c v) (hs : s.Holds (c :: cells)) :
    Simulates (Ended w.input cells depth) (step run rules (code ++ rest) pool offset ⟨w, s, depth⟩)
      (.ok (⟨.ok (f v), w⟩ : Ending S b)) := by
  refine simulates_applied rest (simulates_invoke hp rest hl hs fun t ht => ?_) hl
  exact simulates_dispatch_map hc ht

/-- A function that combines two values is applied to those on top, the one below first, and its result
takes their place. -/
theorem simulates_project {f : S.Val a → S.Val b → S.Val k}
    (hl : Parser.LoadsInvoke poolCells .invoke .project (.projection f) code offset)
    (hc : Reads w.input a c v) (hc' : Reads w.input b c' v') (hs : s.Holds (c' :: c :: cells)) :
    Simulates (Ended w.input cells depth) (step run rules (code ++ rest) pool offset ⟨w, s, depth⟩)
      (.ok (⟨.ok (f v v'), w⟩ : Ending S k)) := by
  refine simulates_applied rest (simulates_invoke hp rest hl hs fun t ht => ?_) hl
  exact simulates_dispatch_project hc hc' ht

variable (hrun : Implements run rules depth block) (hw : w.Inside)
include hrun hw

omit hp in
/-- The program that a function made ends as its parser. -/
theorem simulates_made {p : Parser S b} {below : List (Cell (Object S))}
    (h : Simulates (fun s' program => ∃ t, s' = ⟨w, t, depth⟩ ∧
      t.Holds (.object (.program program.code program.pool) :: below))
      (invoke rules (code ++ rest) pool offset ⟨w, s, depth⟩) (build rules p))
    (hl : Parser.LoadsInvoke poolCells .invokeM routine function code offset) :
    Simulates (Ended w.input below depth) (step run rules (code ++ rest) pool offset ⟨w, s, depth⟩)
      (do let _ ← build rules p; block p w) := by
  rw [step]
  refine .answers (hl.opcode rest) (h.bind ?_)
  rintro _ program hbuild ⟨t, rfl, ht⟩
  obtain ⟨u, hmade, hu⟩ := runMade_eq run w depth ht
  obtain ⟨code, cells, hprogram, hcode⟩ := Parser.loadedIn_of_build hbuild
  rw [hmade, hprogram.code.bytes_eq]
  exact hrun p hprogram.pool hcode hu hw

/-- A function that makes a parser is applied to the value on top, and the parser is run in the place of
that. -/
theorem simulates_bind {f : S.Val a → Parser S b}
    (hl : Parser.LoadsInvoke poolCells .invokeM .bind (.binder f) code offset)
    (hc : Reads w.input a c v) (hs : s.Holds (c :: cells)) :
    Simulates (Ended w.input cells depth) (step run rules (code ++ rest) pool offset ⟨w, s, depth⟩)
      (do let _ ← build rules (f v); block (f v) w) := by
  refine simulates_made rest hrun hw (simulates_invoke hp rest hl hs fun t ht => ?_) hl
  exact (simulates_dispatch_bind hc ht).mono fun u program _ hu => ⟨u, rfl, hu⟩

/-- A function that makes a parser is applied to the value on top, which stays, and the parser is run
above it. -/
theorem simulates_select {f : S.Val a → Parser S b}
    (hl : Parser.LoadsInvoke poolCells .invokeM .select (.binder f) code offset)
    (hc : Reads w.input a c v) (hs : s.Holds (c :: cells)) :
    Simulates (Ended w.input (c :: cells) depth)
      (step run rules (code ++ rest) pool offset ⟨w, s, depth⟩)
      (do let _ ← build rules (f v); block (f v) w) := by
  refine simulates_made rest hrun hw (simulates_invoke hp rest hl hs fun t ht => ?_) hl
  exact (simulates_dispatch_select hc ht).mono fun u program _ hu => ⟨u, rfl, hu⟩

end Functions

end Machine

end ParserMachine
