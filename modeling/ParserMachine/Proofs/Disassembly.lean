import ParserMachine.Proofs.Bytecode.Listing
import ParserMachine.Proofs.Parse

/-!
# Listings of compiled programs

The listing of a compiled program loses nothing. Its entries cover the bytes of the program without
gaps, they write back to these bytes, and their depths are those of the combinators: `Parser.outline`
tells the opcodes that an expression stands for, each with the number of combinators around it that
have made a block of it. What follows something else, as a function does, lies beside it.

There is a lemma for each form that an instruction has, and `lists_of_loads` puts them together by
induction on the parser. `Program.ofCode_compiled` is what that says of programs.
-/

set_option autoImplicit false

namespace ParserMachine

open Bytecode Listing

variable {S : Signature} {rules : Grammar S} {pool : List (Cell (Object S))} {k : Kind S.Base}
  {code body : List UInt8} {offset : Nat} {op : Opcode} {c : Cell (Object S)}
  {inner : Nat → List (Nat × Opcode)}

/-- The opcodes of a parser that lies in the given number of blocks, each with the number of blocks that
it lies in. -/
def Parser.outline : {k : Kind S.Base} → Parser S k → Nat → List (Nat × Opcode)
  | _, .pure _, depth => [(depth, .pure)]
  | _, .error _, depth => [(depth, .error)]
  | _, .token _, depth => [(depth, .token)]
  | _, .tokens _, depth => [(depth, .tokens)]
  | _, .satisfy _, depth => [(depth, .satisfy)]
  | _, .oneOf _, depth => [(depth, .oneOf)]
  | _, .noneOf _, depth => [(depth, .noneOf)]
  | _, .take _, depth => [(depth, .takeN)]
  | _, .take1, depth => [(depth, .take1)]
  | _, .takeWhile _, depth => [(depth, .takeWhile)]
  | _, .takeWhile1 _, depth => [(depth, .takeWhile1)]
  | _, .eof, depth => [(depth, .eof)]
  | _, .newline, depth => [(depth, .newline)]
  | _, .map p _, depth => p.outline depth ++ [(depth, .invoke)]
  | _, .bind p _, depth => p.outline depth ++ [(depth, .invokeM)]
  | _, .selectMany p _ _, depth => p.outline depth ++ [(depth, .invokeM), (depth, .invoke)]
  | _, .or p q, depth => (depth, .or) :: (p.outline (depth + 1) ++ q.outline (depth + 1))
  | _, .try p, depth => (depth, .try) :: p.outline (depth + 1)
  | _, .label _ p, depth => (depth, .label) :: p.outline (depth + 1)
  | _, .hidden p, depth => (depth, .hidden) :: p.outline (depth + 1)
  | _, .lookAhead p, depth => (depth, .lookAhead) :: p.outline (depth + 1)
  | _, .notFollowedBy p, depth => (depth, .notFollowedBy) :: p.outline (depth + 1)
  | _, .observing p, depth => (depth, .observing) :: p.outline (depth + 1)
  | _, .rule _, depth => [(depth, .pure), (depth, .invokeM)]

/-- Every parser has an instruction. -/
theorem Parser.outline_ne_nil (p : Parser S k) (depth : Nat) : p.outline depth ≠ [] := by
  cases p <;> simp [outline]

/-! ### Instructions, by their form -/

section Forms

variable {operands : List (Operand × Nat)}

/-- The index of a constant can be written by two bytes. -/
theorem fits_id {o : Operand} (h : o.width = 2) (id : UInt16) :
    id.toNat < LittleEndian.bound o.width := by
  rw [h]
  exact id.toNat_lt

/-- A size can be written by four bytes. -/
theorem fits_word {o : Operand} (h : o.width = 4) (word : UInt32) :
    word.toNat < LittleEndian.bound o.width := by
  rw [h]
  exact word.toNat_lt

/-- An instruction without blocks. -/
theorem lists_plain (hoperands : Operates op operands)
    (hnone : operands.filter (·.1.isBlockSize) = []) (hcode : code = op.byte :: operandBytes operands) :
    Lists code fun depth => [(depth, op)] := by
  have whole := Lists.instruction [] hoperands (by rw [hnone]; rfl) .nil
  simpa [hcode] using whole

/-- An instruction with one block. -/
theorem lists_wrapping (hoperands : Operates op operands)
    (hsize : (operands.filter (·.1.isBlockSize)).map Prod.snd = [body.length])
    (hbody : Lists body inner) (hcode : code = op.byte :: operandBytes operands ++ body) :
    Lists code fun depth => (depth, op) :: inner (depth + 1) := by
  have whole := Lists.instruction [body] hoperands hsize (.cons hbody .nil)
  simpa [hcode] using whole

/-- An instruction with a constant is listed alone. -/
theorem Parser.LoadsConstant.lists (h : Parser.LoadsConstant pool op c code offset)
    (hop : op.operands = [.constant]) : Lists code fun depth => [(depth, op)] := by
  obtain ⟨id, hcode, -⟩ := h
  have operates : Operates op [(.constant, id.toNat)] :=
    ⟨hop.symm, List.forall_mem_singleton.2 (fits_id rfl id)⟩
  refine lists_plain operates rfl ?_
  simpa [Code.idBytes, Operand.width] using hcode

/-- An instruction with a routine and a function is listed alone. -/
theorem Parser.LoadsInvoke.lists {routine : Dispatcher} {function : Object S}
    (h : Parser.LoadsInvoke pool op routine function code offset)
    (hop : op.operands = [.dispatcher, .function]) : Lists code fun depth => [(depth, op)] := by
  obtain ⟨first, second, hcode, -⟩ := h
  have operates : Operates op [(.dispatcher, first.toNat), (.function, second.toNat)] :=
    ⟨hop.symm, List.forall_mem_cons.2
      ⟨fits_id rfl first, List.forall_mem_singleton.2 (fits_id rfl second)⟩⟩
  refine lists_plain operates rfl ?_
  simpa [Code.idBytes, Operand.width] using hcode

/-- An instruction around a block is listed before the block, which lies one deeper. -/
theorem Parser.Wraps.lists (h : Parser.Wraps op body code) (hop : op.operands = [.length])
    (hbody : Lists body inner) : Lists code fun depth => (depth, op) :: inner (depth + 1) := by
  obtain ⟨size, hsize, hcode⟩ := h
  have operates : Operates op [(.length, size.toNat)] :=
    ⟨hop.symm, List.forall_mem_singleton.2 (fits_word rfl size)⟩
  refine lists_wrapping operates ?_ hbody ?_
  · rw [← hsize]
    rfl
  · simpa [Code.wordBytes, Operand.width] using hcode

/-- The operand before the size is that of a constant, whatever the constant is for. -/
theorem Parser.WrapsConstant.lists {o : Operand}
    (h : Parser.WrapsConstant pool op c body code offset) (hop : op.operands = [o, .length])
    (hwidth : o.width = 2) (hconstant : o.isBlockSize = false) (hbody : Lists body inner) :
    Lists code fun depth => (depth, op) :: inner (depth + 1) := by
  obtain ⟨id, size, hsize, hcode, -⟩ := h
  have operates : Operates op [(o, id.toNat), (.length, size.toNat)] :=
    ⟨hop.symm, List.forall_mem_cons.2
      ⟨fits_id hwidth id, List.forall_mem_singleton.2 (fits_word rfl size)⟩⟩
  refine lists_wrapping operates ?_ hbody ?_
  · rw [← hsize, List.filter_cons, if_neg (by simp [hconstant])]
    rfl
  · have size : Operand.length.width = 4 := rfl
    simpa [Code.idBytes, Code.wordBytes, hwidth, size] using hcode

/-- A choice is listed before its sides, which lie one deeper. -/
theorem Parser.Chooses.lists {left right : List UInt8} {shift : Nat}
    {first second : Nat → List (Nat × Opcode)} (h : Parser.Chooses left right shift code)
    (hleft : Lists left first) (hright : Lists right second) :
    Lists code fun depth => (depth, .or) :: (first (depth + 1) ++ second (depth + 1)) := by
  obtain ⟨leftSize, rightSize, id, hleftSize, hrightSize, -, hcode⟩ := h
  have operates : Operates .or
      [(.leftLength, leftSize.toNat), (.rightLength, rightSize.toNat), (.rightOffset, id.toNat)] :=
    ⟨rfl, List.forall_mem_cons.2 ⟨fits_word rfl leftSize, List.forall_mem_cons.2
      ⟨fits_word rfl rightSize, List.forall_mem_singleton.2 (fits_id rfl id)⟩⟩⟩
  have whole := Lists.instruction [left, right] operates
    (by rw [hleftSize, hrightSize]; rfl) (.cons hleft (.cons hright .nil))
  simpa [hcode, Code.idBytes, Code.wordBytes, Operand.width] using whole

end Forms

/-- The code of a loaded parser is listed as its outline tells. -/
theorem lists_of_loads {p : Parser S k} (hl : p.Loads pool rules code offset) :
    Lists code p.outline := by
  -- By induction on the parser, as its code was put together.
  induction p generalizing code offset with
  | pure | error | token | tokens | satisfy | oneOf | noneOf | takeWhile | takeWhile1 | newline =>
    exact Parser.LoadsConstant.lists hl rfl
  | take n =>
    obtain ⟨count, -, hcode⟩ := hl
    have operates : Operates .takeN [(.count, count.toNat)] :=
      ⟨rfl, List.forall_mem_singleton.2 (fits_word rfl count)⟩
    refine lists_plain operates rfl ?_
    simpa [Code.wordBytes, Operand.width] using hcode
  | take1 =>
    have operates : Operates .take1 [] := ⟨rfl, List.forall_mem_nil _⟩
    exact lists_plain operates rfl hl
  | eof =>
    have operates : Operates .eof [] := ⟨rfl, List.forall_mem_nil _⟩
    exact lists_plain operates rfl hl
  | map p f ih | bind p f ih =>
    obtain ⟨first, last, rfl, hfirst, hlast⟩ := hl
    exact (ih hfirst).append (hlast.lists rfl)
  | selectMany p f project ih =>
    obtain ⟨first, middle, last, rfl, hfirst, hmiddle, hlast⟩ := hl
    exact (ih hfirst).append ((hmiddle.lists rfl).append (hlast.lists rfl))
  | or p q ihp ihq =>
    obtain ⟨left, right, shift, hcode, hleft, hright⟩ := hl
    exact hcode.lists (ihp hleft) (ihq hright)
  | «try» p ih | hidden p ih | lookAhead p ih | notFollowedBy p ih =>
    obtain ⟨body, hcode, hbody⟩ := hl
    exact hcode.lists rfl (ih hbody)
  | label name p ih | observing p ih =>
    obtain ⟨body, hcode, hbody⟩ := hl
    exact hcode.lists rfl rfl rfl (ih hbody)
  | rule r =>
    obtain ⟨first, last, rfl, hfirst, hlast⟩ := hl
    exact (hfirst.lists rfl).append (hlast.lists rfl)

/-- The listing of a compiled program has entries that lie side by side from its beginning to its end,
that write back to its bytes, and whose depths are those of the combinators. -/
theorem Program.ofCode_compiled {p : Parser S k} {program : Program S}
    (h : p.compile rules = .ok program) :
    ∃ l, Listing.ofCode program.code.bytes = .ok l ∧ l.isEmpty = false ∧
      Tile 0 l.entries.toList program.code.size ∧
      l.entries.toList.flatMap Entry.bytes = program.code.bytes ∧
      l.entries.toList.map (fun e => (e.depth, e.opcode)) = p.outline 0 := by
  obtain ⟨bytes, cells, hprogram, hcode⟩ := (p.yields_compile).post_of_eq_ok h
  obtain ⟨entries, listed, tell⟩ := (lists_of_loads hcode).exists_ofCode
  have nonempty : entries ≠ [] := by
    rintro rfl
    exact p.outline_ne_nil 0 tell.depths.symm
  have tile := tell.tile
  rw [Nat.zero_add] at tile
  rw [hprogram.code.bytes_eq, hprogram.code.size_eq]
  refine ⟨⟨entries.toArray⟩, listed, ?_, tile, tell.bytes, tell.depths⟩
  simpa [Listing.isEmpty] using nonempty

/-- The choice has its two letters in blocks of their own. -/
theorem Program.ofCode_compiled_of_letter : ∃ program l, letter.compile noRules = .ok program ∧
    Listing.ofCode program.code.bytes = .ok l ∧ l.isEmpty = false ∧
    Tile 0 l.entries.toList program.code.size ∧
    l.entries.toList.flatMap Entry.bytes = program.code.bytes ∧
    l.entries.toList.map (fun e => (e.depth, e.opcode)) = [(0, .or), (1, .token), (1, .token)] := by
  obtain ⟨program, h⟩ := exists_compile_letter
  obtain ⟨l, listed⟩ := ofCode_compiled h
  exact ⟨program, l, h, listed⟩

end ParserMachine
