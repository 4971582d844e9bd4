import ParserMachine.Proofs.Interchange
import ParserMachine.Proofs.Parser.Locality
import ParserMachine.Proofs.Stack.Room

/-!
# Parsing a suffix

To skip the first tokens of an input and parse the rest is to parse the rest as an input of its own:
`Program.parseWith_suffix`. The programs differ in what they have on the stack and in how deep their
blocks nest, and each place that the one stores is further on than the other's, but what a caller sees
is the same up to the coordinates of positions. `Outcome.Behind` says how those are related: offsets
differ by the number of tokens that were skipped, lines not at all, and columns by that number on the
first line.
-/

set_option autoImplicit false

namespace ParserMachine

/-! ### Outcomes -/

/-- The positions are in one source, the first behind the second. -/
def Position.Behind (n : Nat) (p p' : Position) : Prop :=
  p.name = p'.name ∧ p.toCursor.Behind n p'.toCursor

/-- The errors tell the same, the first at a position behind that of the second. -/
def ParseError.Behind {ε τ : Type} [Ord τ] (n : Nat) : ParseError ε τ → ParseError ε τ → Prop
  | trivial p u x, trivial p' u' x' => p.Behind n p' ∧ u = u' ∧ x = x'
  | fancy p cs, fancy p' cs' => p.Behind n p' ∧ cs = cs'
  | _, _ => False

/-- The outcomes have the same value, or errors that tell the same, the first at positions behind those
of the second. -/
structure Outcome.Behind {ε τ α : Type} [Ord τ] (n : Nat) (o o' : Outcome ε τ α) : Prop where
  consumed : o.consumed = (decide (0 < n) || o'.consumed)
  result : match o.result, o'.result with
    | .ok v, .ok v' => v = v'
    | .error e, .error e' => e.Behind n e'
    | _, _ => False
  position : o.position.Behind n o'.position

variable {S : Signature} {k : Kind S.Base} {n : Nat}

/-- Related failures have related errors. -/
theorem Failure.Behind.error {f f' : Failure S} (h : f.Behind n f') (name : String) :
    (f.error name).Behind n (f'.error name) := by
  have position : (Position.ofCursor name f.place).Behind n (.ofCursor name f'.place) := ⟨rfl, h.place⟩
  rw [Failure.error, Failure.error, h.complaints_eq, h.unexpected_eq, h.expected_eq]
  cases f'.complaints with
  | nil => exact ⟨position, rfl, rfl⟩
  | cons c more => exact ⟨position, rfl⟩

/-- Related endings have related outcomes. -/
theorem Ending.Behind.outcome {e e' : Ending S k} (h : e.Behind n e') :
    e.outcome.Behind n e'.outcome where
  consumed := by
    have offset := h.reader.cursor.offset_eq
    simp only [Ending.outcome, UInt64.lt_iff_toNat_lt, offset, ← Bool.decide_or, decide_eq_decide]
    show 0 < _ ↔ 0 < n ∨ 0 < _
    omega
  result := by
    cases h with
    | ok v hw => rfl
    | error hf hw =>
      show ParseError.Behind n (Failure.error _ _) (Failure.error _ _)
      rw [hw.name_eq]
      exact hf.error _
  position := ⟨h.reader.name_eq, h.reader.cursor⟩

/-! ### Programs -/

/-- A program without constants has room for a function. -/
theorem Program.exists_invoke (code : Code) (op : Opcode) (dispatcher : Dispatcher)
    (function : Object S) : ∃ made, (⟨code, .new⟩ : Program S).invoke op dispatcher function =
      .ok made := by
  have empty : (Stack.new : Stack (Object S)).Represents [] := Stack.represents_new
  have payload : (Cell.ofValue dispatcher : Cell (Object S)).payload.length = 16 := by
    have size : (Inline.encode dispatcher).length = 8 := Inline.length_encode dispatcher
    rw [Cell.payload_ofValue]
    simp [Stack.payload, size]
  -- Two constants are pushed, one after the other, and a new pool has room for both.
  obtain ⟨pool, hpool⟩ : ∃ pool, (Stack.new : Stack (Object S)).pushCell (.ofValue dispatcher) =
      .ok pool := by
    refine empty.exists_pushCell (Nat.le_refl _) ?_
    rw [payload]
    simp [Stack.entrySize, Stack.defaultLimit]
  have holds := (empty.pushCell (Cell.sized_ofValue dispatcher)).post_of_eq_ok hpool
  obtain ⟨pool', hpool'⟩ : ∃ pool', pool.pushCell (.object function) = .ok pool' := by
    refine holds.exists_pushCell (Nat.le_of_eq (Stack.limit_of_pushCell hpool).symm) ?_
    rw [Cell.arenaOf_append, List.length_append, Cell.arenaOf_cons, List.length_append, payload]
    simp [Stack.entrySize, Stack.defaultLimit, Cell.payload]
  have first : (⟨code, .new⟩ : Program S).addValue dispatcher = .ok (0, ⟨code, pool⟩) := by
    rw [addValue, Stack.push_eq, hpool]
    rfl
  have second : (⟨code, pool⟩ : Program S).addObject function = .ok (1, ⟨code, pool'⟩) := by
    rw [addObject, Stack.pushObject_eq, hpool', holds.count_eq]
    rfl
  rw [invoke, first]
  show ∃ made, (⟨code, pool⟩ : Program S).addObject function >>= _ = .ok made
  rw [second]
  exact ⟨_, rfl⟩

namespace Parser

variable {rules : Grammar S} {p : Parser S k} {input : Input S.Token} {name : String}

/-- The parser makes no value of an error, whatever the rules that it comes to. -/
def NeverObserves (rules : Grammar S) (p : Parser S k) : Prop :=
  ∃ quiet : S.Rule → Prop, (∀ r, quiet r → (rules r).Unobserving quiet) ∧ p.Unobserving quiet

/-- The parser behind the given number of tokens. -/
def after (n : Nat) (p : Parser S k) : Parser S k := .bind (.take n) fun _ => p

/-- Skipping tokens can be put in front of any parser, if their number is a word. -/
theorem exists_compile_after (rules : Grammar S) (p : Parser S k) (fits : n < UInt32.size) :
    ∃ skipping, (p.after n).compile rules = .ok skipping := by
  rw [after, compile, compile, Code.takeCount, if_pos fits]
  exact Program.exists_invoke _ .invokeM .bind (.binder _)

/-- Skipping tokens that are there succeeds. -/
theorem evaluate_after (p : Parser S k) (hn : n ≤ input.size) (depth : Nat) :
    (p.after n).evaluate rules depth (.ofInput input name) =
      p.evaluate rules depth ((Reader.ofInput input name).next n) := by
  have enough : ¬(Reader.ofInput input name).remaining.length < n := by
    rw [Reader.length_remaining]
    exact Nat.not_lt.2 hn
  rw [evaluate_eq, evaluate_eq]
  show (takeCount n _ : Ending S .run).andThen _ = _
  rw [takeCount, if_neg enough]
  rfl

/-- Behind the first tokens of an input a parser does what it does on the rest. -/
theorem evaluate_after_behind (hp : p.NeverObserves rules) (hn : n ≤ input.size) (depth : Nat) :
    Ending.BehindOrNone n ((p.after n).evaluate rules depth (.ofInput input name))
      (p.evaluate rules depth (.ofInput (input.drop n) name)) := by
  obtain ⟨quiet, hrules, hp⟩ := hp
  rw [evaluate_after p hn]
  exact evaluate_behind hrules depth p hp (Reader.behind_ofInput name hn)

/-- What a parser does behind skipped tokens, it does on the rest alone. -/
theorem Ends.of_after (hp : p.NeverObserves rules) (hn : n ≤ input.size) {e : Ending S k}
    (h : (p.after n).Ends rules (.ofInput input name) e) :
    ∃ e', p.Ends rules (.ofInput (input.drop n) name) e' ∧ e.Behind n e' := by
  obtain ⟨depth, he⟩ := h
  obtain ⟨e', he', related⟩ := (evaluate_after_behind hp hn depth).exists_right he
  exact ⟨e', ⟨depth, he'⟩, related⟩

/-- What a parser does on the rest alone, it does behind skipped tokens. -/
theorem Ends.after (hp : p.NeverObserves rules) (hn : n ≤ input.size) {e' : Ending S k}
    (h : p.Ends rules (.ofInput (input.drop n) name) e') :
    ∃ e, (p.after n).Ends rules (.ofInput input name) e ∧ e.Behind n e' := by
  obtain ⟨depth, he'⟩ := h
  obtain ⟨e, he, related⟩ := (evaluate_after_behind hp hn depth).exists_left he'
  exact ⟨e, ⟨depth, he⟩, related⟩

end Parser

/-- A parser that makes no values of errors sees only what remains of the input: behind `n` tokens
that are skipped it has the outcome that it has on an input without them, at positions that count them. -/
theorem Program.parseWith_suffix {rules : Grammar S} {p : Parser S k} {program : Program S}
    {input : Input S.Token} (hp : p.NeverObserves rules) (h : p.compile rules = .ok program)
    (hn : n ≤ input.size) (fits : n < UInt32.size) :
    ∃ skipping, (Parser.bind (.take n) fun _ => p).compile rules = .ok skipping ∧
      ∀ (name : String) (scratch : Option (Array UInt8)) (config : Config)
        (o : Outcome S.Custom S.Token (S.Val k)),
        (skipping.parseWith rules k input scratch name config = .ok o →
          program.Delivers rules p (input.drop n) name fun o' => o.Behind n o') ∧
        (program.parseWith rules k (input.drop n) scratch name config = .ok o →
          skipping.Delivers rules (.bind (.take n) fun _ => p) input name fun o' => o'.Behind n o) := by
  obtain ⟨skipping, hskipping⟩ := Parser.exists_compile_after rules p fits
  refine ⟨skipping, hskipping, ?_⟩
  intro name scratch config o
  constructor
  · intro ho
    refine delivers_of_outcome hskipping h ?_ ho
    intro e he
    obtain ⟨e', he', related⟩ := he.of_after hp hn
    exact ⟨e', he', related.outcome⟩
  · intro ho
    refine delivers_of_outcome (R := fun o o' => o'.Behind n o) h hskipping ?_ ho
    intro e' he'
    obtain ⟨e, he, related⟩ := he'.after hp hn
    exact ⟨e, he, related.outcome⟩

/-! ### A letter behind another -/

/-- A letter that is skipped, and one that is not. -/
def skippedInput : Input Char := ⟨#['c', 'b'], by decide⟩

/-- The parser of one letter makes no value of an error. -/
theorem Parser.neverObserves_letter : letter.NeverObserves noRules :=
  ⟨fun _ => True, fun r => r.elim, trivial, trivial⟩

/-- The letter is found behind the one that is skipped as it is found alone. -/
theorem Program.parseWith_suffix_of_letter : ∃ program skipping o,
    letter.compile noRules = .ok program ∧
      (Parser.bind (.take 1) fun _ => letter).compile noRules = .ok skipping ∧
      program.parseWith noRules .token (skippedInput.drop 1) (some #[7, 7, 7]) "text"
        { Config.unbounded with maxStackSize := 128 } = .ok o ∧
      skipping.Delivers noRules (.bind (.take 1) fun _ => letter) skippedInput "text" fun o' =>
        o'.Behind 1 o := by
  have ok : (letter.compile noRules).toOption.map (fun program =>
      (program.parseWith noRules .token (skippedInput.drop 1) (some #[7, 7, 7]) "text"
        { Config.unbounded with maxStackSize := 128 }).isOk) = some true := by
    decide +kernel
  obtain ⟨program, h⟩ := exists_compile_letter
  rw [h] at ok
  obtain ⟨o, ho⟩ := exists_of_isOk (Option.some.inj ok)
  have inside : 1 ≤ skippedInput.size := by decide
  obtain ⟨skipping, hskipping, suffix⟩ :=
    parseWith_suffix Parser.neverObserves_letter h inside (by decide)
  exact ⟨program, skipping, o, h, hskipping, ho, (suffix "text" _ _ o).2 ho⟩

end ParserMachine
