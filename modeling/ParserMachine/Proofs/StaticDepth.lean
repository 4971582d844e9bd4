import Mathlib.Order.Bounds.Basic
import ParserMachine.Proofs.DepthLimit
import ParserMachine.Proofs.Disassembly

/-!
# Depths of listings and of runs

A parser is static if nothing in it makes a parser while it runs. All the blocks that its run can enter
then stand in its code, and the listing shows each of them a level deeper than the block around it. So no
run, whatever it reads and whichever branches it takes, nests more blocks than the deepest entry of the
listing has around it, and the one of the whole program.

`Parser.nesting` ties the two walks together. It is the greatest depth in the outline of the parser, and
so in the listing (`isGreatest_depth_outline`), and it is enough for the run: at any depth, blocks come to
their end on fuel for one more (`exists_nested`), and under every limit that has room for it.
-/

set_option autoImplicit false

namespace ParserMachine

open Machine Bytecode

variable {S : Signature} {rules : Grammar S} {k : Kind S.Base} {p : Parser S k} {program : Program S}

namespace Parser

/-- Whether nothing in the parser makes another one while it runs. -/
def isStatic : {k : Kind S.Base} → Parser S k → Bool
  | _, .map p _ | _, .try p | _, .label _ p | _, .hidden p | _, .lookAhead p | _, .notFollowedBy p
  | _, .observing p => p.isStatic
  | _, .or p q => p.isStatic && q.isStatic
  | _, .bind _ _ | _, .selectMany _ _ _ | _, .rule _ => false
  | _, _ => true

/-- How many blocks of the parser's own lie within each other at most. Blocks of parsers that it makes do
not count. -/
def nesting : {k : Kind S.Base} → Parser S k → Nat
  | _, .map p _ | _, .bind p _ | _, .selectMany p _ _ => p.nesting
  | _, .or p q => max p.nesting q.nesting + 1
  | _, .try p | _, .label _ p | _, .hidden p | _, .lookAhead p | _, .notFollowedBy p
  | _, .observing p => p.nesting + 1
  | _, _ => 0

/-! ### In the listing -/

/-- Parsers are made by one instruction only. -/
theorem isStatic_iff_forall_outline (p : Parser S k) (depth : Nat) :
    p.isStatic ↔ ∀ entry ∈ p.outline depth, entry.2 ≠ .invokeM := by
  induction p generalizing depth with
  | pure | error | token | tokens | satisfy | oneOf | noneOf | take | take1 | takeWhile | takeWhile1
  | eof | newline | bind | selectMany | rule => simp [isStatic, outline]
  | map p f ih => simp [isStatic, outline, or_imp, forall_and, ih depth]
  | or p q ihp ihq =>
    simp only [isStatic, outline, Bool.and_eq_true, ihp (depth + 1), ihq (depth + 1),
      List.forall_mem_cons, List.forall_mem_append, ne_eq, reduceCtorEq, not_false_eq_true, true_and]
  | «try» p ih | label name p ih | hidden p ih | lookAhead p ih | notFollowedBy p ih
  | observing p ih =>
    simp only [isStatic, outline, ih (depth + 1), List.forall_mem_cons, ne_eq, reduceCtorEq,
      not_false_eq_true, true_and]

/-- No entry lies deeper than the blocks nest. -/
theorem forall_outline_le (p : Parser S k) (depth : Nat) :
    ∀ entry ∈ p.outline depth, entry.1 ≤ depth + p.nesting := by
  induction p generalizing depth with
  | pure | error | token | tokens | satisfy | oneOf | noneOf | take | take1 | takeWhile | takeWhile1
  | eof | newline | rule => simp [outline]
  | map p f ih | bind p f ih | selectMany p f project ih =>
    rw [outline, List.forall_mem_append]
    exact ⟨ih depth, by simp⟩
  | or p q ihp ihq =>
    rw [outline, List.forall_mem_cons, List.forall_mem_append, nesting]
    refine ⟨Nat.le_add_right _ _, ?_, ?_⟩
    · intro entry hentry
      have := ihp (depth + 1) entry hentry
      omega
    · intro entry hentry
      have := ihq (depth + 1) entry hentry
      omega
  | «try» p ih | label name p ih | hidden p ih | lookAhead p ih | notFollowedBy p ih
  | observing p ih =>
    rw [outline, List.forall_mem_cons, nesting]
    refine ⟨Nat.le_add_right _ _, ?_⟩
    intro entry hentry
    have := ih (depth + 1) entry hentry
    omega

/-- Some entry lies as deep as the blocks nest. -/
theorem exists_outline_eq (p : Parser S k) (depth : Nat) :
    ∃ entry ∈ p.outline depth, entry.1 = depth + p.nesting := by
  induction p generalizing depth with
  | pure | error | token | tokens | satisfy | oneOf | noneOf | take | take1 | takeWhile | takeWhile1
  | eof | newline | rule => simp [outline, nesting]
  | map p f ih | bind p f ih | selectMany p f project ih =>
    obtain ⟨entry, hentry, deepest⟩ := ih depth
    exact ⟨entry, List.mem_append_left _ hentry, deepest⟩
  | or p q ihp ihq =>
    -- The side that nests deeper has it.
    rcases Nat.le_total q.nesting p.nesting with hle | hle
    · obtain ⟨entry, hentry, deepest⟩ := ihp (depth + 1)
      refine ⟨entry, List.mem_cons_of_mem _ (List.mem_append_left _ hentry), ?_⟩
      rw [deepest, nesting]
      omega
    · obtain ⟨entry, hentry, deepest⟩ := ihq (depth + 1)
      refine ⟨entry, List.mem_cons_of_mem _ (List.mem_append_right _ hentry), ?_⟩
      rw [deepest, nesting]
      omega
  | «try» p ih | label name p ih | hidden p ih | lookAhead p ih | notFollowedBy p ih
  | observing p ih =>
    obtain ⟨entry, hentry, deepest⟩ := ih (depth + 1)
    refine ⟨entry, List.mem_cons_of_mem _ hentry, ?_⟩
    rw [deepest, nesting]
    omega

/-! ### In the code

Blocks cannot nest deeper than their code has bytes, and the size of a block is a word. -/

section Code

variable {pool : List (Cell (Object S))} {code : List UInt8} {offset : Nat}

/-- Each block within another takes a byte at least. -/
theorem nesting_lt_length (hl : p.Loads pool rules code offset) : p.nesting < code.length := by
  induction p generalizing code offset with
  | pure | error | token | tokens | satisfy | oneOf | noneOf | takeWhile | takeWhile1 | newline =>
    obtain ⟨id, rfl, -⟩ := hl
    exact Nat.succ_pos _
  | take n =>
    obtain ⟨count, -, rfl⟩ := hl
    exact Nat.succ_pos _
  | take1 | eof =>
    obtain rfl := hl
    exact Nat.succ_pos _
  | map p f ih | bind p f ih =>
    obtain ⟨first, last, rfl, hfirst, -⟩ := hl
    rw [List.length_append, nesting]
    exact Nat.lt_add_right _ (ih hfirst)
  | selectMany p f project ih =>
    obtain ⟨first, middle, last, rfl, hfirst, -⟩ := hl
    rw [List.length_append, nesting]
    exact Nat.lt_add_right _ (ih hfirst)
  | or p q ihp ihq =>
    obtain ⟨left, right, shift, ⟨leftSize, rightSize, id, -, -, -, rfl⟩, hleft, hright⟩ := hl
    have := ihp hleft
    have := ihq hright
    simp only [nesting, List.length_append, List.length_cons]
    omega
  | «try» p ih | hidden p ih | lookAhead p ih | notFollowedBy p ih =>
    obtain ⟨body, ⟨size, -, rfl⟩, hbody⟩ := hl
    have := ih hbody
    simp only [nesting, List.length_append, List.length_cons]
    omega
  | label name p ih | observing p ih =>
    obtain ⟨body, ⟨id, size, -, rfl, -⟩, hbody⟩ := hl
    have := ih hbody
    simp only [nesting, List.length_append, List.length_cons]
    omega
  | rule r =>
    obtain ⟨first, last, rfl, ⟨id, rfl, -⟩, -⟩ := hl
    exact Nat.succ_pos _

/-- A loaded parser nests fewer blocks than a word can tell. -/
theorem nesting_lt_size (hl : p.Loads pool rules code offset) : p.nesting < UInt32.size := by
  have positive : 0 < UInt32.size := by decide
  induction p generalizing code offset with
  | pure | error | token | tokens | satisfy | oneOf | noneOf | take | take1 | takeWhile | takeWhile1
  | eof | newline | rule => exact positive
  | map p f ih | bind p f ih =>
    obtain ⟨first, last, -, hfirst, -⟩ := hl
    exact ih hfirst
  | selectMany p f project ih =>
    obtain ⟨first, middle, last, -, hfirst, -⟩ := hl
    exact ih hfirst
  | or p q =>
    -- A side nests less than it has bytes, and its size tells these.
    obtain ⟨left, right, shift, ⟨leftSize, rightSize, id, hleftSize, hrightSize, -⟩, hleft, hright⟩ := hl
    have := nesting_lt_length hleft
    have := nesting_lt_length hright
    have := leftSize.toNat_lt_size
    have := rightSize.toNat_lt_size
    rw [nesting]
    omega
  | «try» p | hidden p | lookAhead p | notFollowedBy p =>
    obtain ⟨body, ⟨size, hsize, -⟩, hbody⟩ := hl
    have := nesting_lt_length hbody
    have := size.toNat_lt_size
    rw [nesting]
    omega
  | label name p | observing p =>
    obtain ⟨body, ⟨id, size, hsize, -⟩, hbody⟩ := hl
    have := nesting_lt_length hbody
    have := size.toNat_lt_size
    rw [nesting]
    omega

end Code

/-! ### In the run -/

/-- The instructions of a static parser come to their end if the blocks in it do. -/
theorem exists_within {block : Attempt S} (hp : p.isStatic)
    (h : ∀ {k : Kind S.Base} (q : Parser S k) (w : Reader S.Token), q.isStatic → q.nesting < p.nesting →
      ∃ e, block q w = .ok e) (w : Reader S.Token) : ∃ e, p.within rules block w = .ok e := by
  induction p generalizing w with
  | pure | error | token | tokens | satisfy | oneOf | noneOf | take | take1 | takeWhile | takeWhile1
  | eof | newline => exact ⟨_, rfl⟩
  | map p f ih =>
    obtain ⟨e, he⟩ := ih hp h w
    rw [within, he]
    obtain ⟨f | v, w'⟩ := e <;> exact ⟨_, rfl⟩
  | bind | selectMany | rule => cases hp
  | or p q =>
    rw [isStatic, Bool.and_eq_true] at hp
    obtain ⟨e, he⟩ := h p w hp.1 (by rw [nesting]; omega)
    rw [within, he]
    obtain ⟨f | v, w'⟩ := e
    · -- The second side is a block that may run, or not.
      obtain ⟨e', he'⟩ := h q w' hp.2 (by rw [nesting]; omega)
      show ∃ e, (if w'.cursor.offset = w.cursor.offset then
        (do return (← block q w').mapFailure f.merge) else .ok ⟨.error f, w'⟩) = .ok e
      rw [he']
      split <;> exact ⟨_, rfl⟩
    · exact ⟨_, rfl⟩
  | «try» p | label name p | hidden p | lookAhead p | notFollowedBy p | observing p =>
    obtain ⟨e, he⟩ := h p w hp (by rw [nesting]; omega)
    rw [within, he]
    exact ⟨_, rfl⟩

/-- A static parser comes to its end as a block at any depth, on fuel for its nesting, if the limit has
room for that. -/
theorem exists_nested {maxDepth fuel depth : Nat} (hp : p.isStatic) (hfuel : p.nesting < fuel)
    (room : 0 < maxDepth → depth + p.nesting < maxDepth) (w : Reader S.Token) :
    ∃ e, nested rules maxDepth fuel depth p w = .ok e := by
  -- By induction on the fuel: the blocks within nest less.
  induction fuel generalizing k depth w with
  | zero => exact absurd hfuel (Nat.not_lt_zero _)
  | succ fuel ih =>
    rw [nested]
    split
    · next deep =>
      rw [Bool.and_eq_true, decide_eq_true_iff, decide_eq_true_iff] at deep
      have := room deep.1
      omega
    · refine exists_within hp ?_ w
      intro k q w hq hlt
      refine ih hq (by omega) ?_ w
      intro limited
      have := room limited
      omega

end Parser

namespace Program

/-- The listing of a compiled program shows the opcodes of the parser, at the depths of its blocks. -/
theorem exists_listing (h : p.compile rules = .ok program) :
    ∃ l, Listing.ofCode program.code.bytes = .ok l ∧
      l.entries.toList.map (fun e => (e.depth, e.opcode)) = p.outline 0 := by
  obtain ⟨bytes, cells, hprogram, hcode⟩ := (p.yields_compile).post_of_eq_ok h
  obtain ⟨entries, listed, tell⟩ := (lists_of_loads hcode).exists_ofCode
  rw [hprogram.code.bytes_eq]
  exact ⟨⟨entries.toArray⟩, listed, tell.depths⟩

/-- The deepest entry of the listing lies as deep as the blocks of the parser nest. -/
theorem isGreatest_nesting {l : Listing}
    (hl : l.entries.toList.map (fun e => (e.depth, e.opcode)) = p.outline 0) :
    IsGreatest {n | ∃ e ∈ l.entries, e.depth = n} p.nesting := by
  constructor
  · obtain ⟨entry, hentry, deepest⟩ := p.exists_outline_eq 0
    rw [← hl, List.mem_map] at hentry
    obtain ⟨e, he, rfl⟩ := hentry
    rw [Nat.zero_add] at deepest
    exact ⟨e, Array.mem_toList_iff.1 he, deepest⟩
  · rintro n ⟨e, he, rfl⟩
    have shown : (e.depth, e.opcode) ∈ p.outline 0 := by
      rw [← hl]
      exact List.mem_map_of_mem (Array.mem_toList_iff.2 he)
    have bound := p.forall_outline_le 0 _ shown
    rwa [Nat.zero_add] at bound

/-- A parser is static if and only if the listing of its program shows no instruction that makes one. -/
theorem isStatic_iff_forall_entries {l : Listing}
    (hl : l.entries.toList.map (fun e => (e.depth, e.opcode)) = p.outline 0) :
    p.isStatic ↔ ∀ e ∈ l.entries, e.opcode ≠ .invokeM := by
  rw [p.isStatic_iff_forall_outline 0, ← hl, List.forall_mem_map]
  simp only [Array.mem_toList_iff]

section Runs

variable (h : p.compile rules = .ok program) (hp : p.isStatic) {stack : Stack (Object S)}
  (hs : stack.Holds []) (input : Input S.Token) (name : String) {d fuel : Nat}
include h hp hs

/-- On fuel for the nesting of a static parser, under a limit with room for it, only the stack can stop
the outermost block. -/
theorem runBlock_static (hfuel : p.nesting < fuel) (room : 0 < d → p.nesting < d) :
    Yields Stop.IsOverflow
      (runBlock rules d fuel program.code.bytes program.pool 0 ⟨.ofInput input name, stack, 0⟩)
      fun _ => True := by
  obtain ⟨bytes, cells, hprogram, hcode⟩ := (p.yields_compile).post_of_eq_ok h
  obtain ⟨e, he⟩ : ∃ e, p.nested rules d fuel 0 (.ofInput input name) = .ok e :=
    Parser.exists_nested hp hfuel (by rwa [Nat.zero_add]) _
  have runs := runBlock_loaded rules d fuel 0 p hprogram.pool hcode hs
    (Reader.inside_ofInput input name)
  rw [hprogram.code.bytes_eq]
  exact (runs.overflows he).mono fun _ _ => trivial

/-- The run of a static parser without a limit does the same on any fuel for its nesting. -/
theorem runBlock_static_eq (hfuel : p.nesting < fuel) :
    runBlock rules 0 fuel program.code.bytes program.pool 0 ⟨.ofInput input name, stack, 0⟩ =
      runBlock rules 0 (p.nesting + 1) program.code.bytes program.pool 0
        ⟨.ofInput input name, stack, 0⟩ := by
  have ends := runBlock_static h hp hs input name (Nat.lt_succ_self p.nesting)
    (fun limited => absurd limited (Nat.lt_irrefl 0))
  obtain ⟨bytes, cells, hprogram, hcode⟩ := (p.yields_compile).post_of_eq_ok h
  rw [hprogram.code.bytes_eq] at ends ⊢
  have hst : (⟨.ofInput input name, stack, 0⟩ : State S).stack.Holds [] := hs
  have more : Outlasts (· = .endless) 0 0 (p.nesting + 1) fuel 0 := ⟨.inr ⟨rfl, hfuel⟩, .inl rfl⟩
  rcases runBlock_eq_or_cut hprogram.pool hprogram.pool hcode (fun _ _ hc => hc) more hst with
    same | ⟨_, hstop, rfl⟩
  · exact same
  · exact (ends.allowed_of_eq_error hstop).elim

/-- Only the stack can stop the run of a static parser, if there is a limit with room for its nesting or
none at all. -/
theorem run_static (room : 0 < d → p.nesting < d) :
    Yields Stop.IsOverflow (program.run rules k (.ofInput input name) stack d) fun _ => True := by
  obtain ⟨bytes, cells, -, hcode⟩ := (p.yields_compile).post_of_eq_ok h
  have short := Parser.nesting_lt_size hcode
  have beyond : UInt32.size ≤ unlimitedDepth := by decide
  have fuelled : p.nesting < if d = 0 then unlimitedDepth else d + 1 := by split <;> omega
  obtain ⟨e, he⟩ : ∃ e, p.nested rules d (if d = 0 then unlimitedDepth else d + 1) 0
      (.ofInput input name) = .ok e :=
    Parser.exists_nested hp fuelled (by rwa [Nat.zero_add]) _
  exact ((simulates_run h hs d input name).overflows he).mono fun _ _ => trivial

/-- Limits with room for the nesting of a static parser make no difference to its run. -/
theorem run_static_eq (room : p.nesting < d) :
    program.run rules k (.ofInput input name) stack d =
      program.run rules k (.ofInput input name) stack 0 := by
  have unlimited := run_static (d := 0) h hp hs input name fun limited =>
    absurd limited (Nat.lt_irrefl 0)
  have ends : program.run rules k (.ofInput input name) stack 0 ≠ .error .endless :=
    fun endless => (unlimited.allowed_of_eq_error endless).elim
  obtain ⟨least, -, reached, stopped⟩ := run_depthLimit h hs input name ends
  -- A limit that makes a difference is below the least one that makes none, and stops the run.
  rcases Nat.lt_or_ge d least with below | above
  · have stop := stopped d (Nat.zero_lt_of_lt room) below
    exact ((run_static h hp hs input name fun _ => room).allowed_of_eq_error stop).elim
  · exact reached d above

end Runs

section Parses

variable (h : p.compile rules = .ok program) (hp : p.isStatic) (input : Input S.Token)
  (scratch : Option (Array UInt8)) (name : String) (config : Config) {d : Nat}
include h hp

/-- What stops the parse of a static parser is not how deep its blocks nest. -/
theorem yields_parseWith_static (room : 0 < d → p.nesting < d) :
    Yields (fun halt => halt ≠ .endless ∧ ∀ depth limit, halt ≠ .limit (.recursionTooDeep depth limit))
      (program.parseWith rules k input scratch name (config.nesting d)) fun _ => True := by
  rw [parseWith_eq]
  split
  · exact ⟨by simp, by simp⟩
  · refine (run_static h hp (holds_freshStack scratch _) input name room).mapError ?_
    intro stop overflow
    cases stop with
    | fault f => exact ⟨by simp [Halt.ofStop], by simp [Halt.ofStop]⟩
    | tooDeep | endless | unbuilt => exact overflow.elim

/-- Under a limit with room for all its blocks, a static parser does what it does without one. -/
theorem parseWith_static_eq (room : p.nesting < d) :
    program.parseWith rules k input scratch name (config.nesting d) =
      program.parseWith rules k input scratch name (config.nesting 0) := by
  have hs : (freshStack scratch config : Stack (Object S)).Holds [] := holds_freshStack scratch config
  rcases parseWith_nesting program rules k input scratch name config with ⟨e, same⟩ | parse
  · rw [same, same]
  · rw [parse, parse, run_static_eq h hp hs input name room]
    refine mapError_ofStop_eq ?_ d 0
    intro depth deep
    exact Nat.lt_irrefl 0 (eq_of_tooDeep h hs input name deep).1

end Parses

/-- A parse of a static parser comes to an end without any limit on nesting: a run with no limit that is
given fuel for the blocks that the listing shows within each other ends, and on more fuel in the same
way. Under every limit with room for one block more than the deepest entry of the listing lies in, the
parse is the one without a limit, and is not stopped for its depth. -/
theorem parseWith_static (h : p.compile rules = .ok program) (hp : p.isStatic)
    (input : Input S.Token) (scratch : Option (Array UInt8)) (name : String) (config : Config) :
    ∃ l deepest, Listing.ofCode program.code.bytes = .ok l ∧
      (∀ e ∈ l.entries, e.opcode ≠ .invokeM) ∧
      IsGreatest {n | ∃ e ∈ l.entries, e.depth = n} deepest ∧
      (∀ fuel, 1 + deepest ≤ fuel →
        runBlock rules 0 fuel program.code.bytes program.pool 0
            ⟨.ofInput input name, freshStack scratch config, 0⟩ ≠ .error .endless ∧
          runBlock rules 0 fuel program.code.bytes program.pool 0
              ⟨.ofInput input name, freshStack scratch config, 0⟩ =
            runBlock rules 0 (1 + deepest) program.code.bytes program.pool 0
              ⟨.ofInput input name, freshStack scratch config, 0⟩) ∧
      program.parseWith rules k input scratch name (config.nesting 0) ≠ .error .endless ∧
      ∀ d, 1 + deepest ≤ d →
        program.parseWith rules k input scratch name (config.nesting d) =
            program.parseWith rules k input scratch name (config.nesting 0) ∧
          ∀ depth limit, program.parseWith rules k input scratch name (config.nesting d) ≠
            .error (.limit (.recursionTooDeep depth limit)) := by
  obtain ⟨l, listed, shown⟩ := exists_listing h
  have hs : (freshStack scratch config : Stack (Object S)).Holds [] := holds_freshStack scratch config
  -- Where no limit is set, nothing is asked of the nesting.
  have unlimited : 0 < 0 → p.nesting < 0 := fun limited => absurd limited (Nat.lt_irrefl 0)
  refine ⟨l, p.nesting, listed, (isStatic_iff_forall_entries shown).1 hp, isGreatest_nesting shown,
    ?_, ?_, ?_⟩
  · intro fuel hfuel
    rw [Nat.add_comm] at hfuel ⊢
    refine ⟨?_, runBlock_static_eq h hp hs input name hfuel⟩
    intro endless
    exact (runBlock_static h hp hs input name hfuel unlimited).allowed_of_eq_error endless
  · intro endless
    have ends := yields_parseWith_static h hp input scratch name config unlimited
    exact (ends.allowed_of_eq_error endless).1 rfl
  · intro d hd
    have room : p.nesting < d := by omega
    refine ⟨parseWith_static_eq h hp input scratch name config room, ?_⟩
    intro depth limit deep
    have ends := yields_parseWith_static h hp input scratch name config fun _ => room
    exact (ends.allowed_of_eq_error deep).2 depth limit rfl

/-- The sides of a choice between letters lie one block deep, so two blocks within each other are room
for it. -/
theorem parseWith_static_of_letter : ∃ program l, letter.compile noRules = .ok program ∧
    Listing.ofCode program.code.bytes = .ok l ∧ IsGreatest {n | ∃ e ∈ l.entries, e.depth = n} 1 ∧
    ∀ d, 2 ≤ d →
      program.parseWith noRules .token letterInput none "text" (({} : Config).nesting d) =
          program.parseWith noRules .token letterInput none "text" (({} : Config).nesting 0) ∧
        ∀ depth limit,
          program.parseWith noRules .token letterInput none "text" (({} : Config).nesting d) ≠
            .error (.limit (.recursionTooDeep depth limit)) := by
  obtain ⟨program, h⟩ := exists_compile_letter
  obtain ⟨l, deepest, listed, -, greatest, -, -, limited⟩ :=
    parseWith_static h rfl letterInput none "text" {}
  obtain ⟨l', listed', shown⟩ := exists_listing h
  rw [listed] at listed'
  cases listed'
  -- The outline tells how deep the sides lie.
  obtain rfl : deepest = 1 := greatest.unique (isGreatest_nesting shown)
  exact ⟨program, l, h, listed, greatest, limited⟩

end Program

end ParserMachine
