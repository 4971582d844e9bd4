import ParserMachine.Proofs.Machine.Loading
import ParserMachine.Proofs.Machine.Primitives

/-!
# Wrapped blocks and applied functions

What the instructions around blocks make of the way a block ended is what the evaluator makes of its
ending: `Ending.retried`, `orElse`, `relabelled`, `peeked`, `negated` and `reified`. A block is given
here as any computation that simulates one of the evaluator's.

An applied function is a constant that is pushed and taken off again. `simulates_invoke` says what the
routines `map` and `project` leave, and which program `bind` and `select` do.
-/

set_option autoImplicit false

namespace ParserMachine.Machine

variable {S : Signature} {w : Reader S.Token} {s pool : Stack (Object S)}
  {cells poolCells : List (Cell (Object S))} {depth : Nat} {k : Kind S.Base}

/-- Runs a block and pushes what it ended in, as `observing` does, where the value has to be of the given
kind. -/
def observingAs (k : Kind S.Base) (run : State S → Except Stop (Reply × State S)) (s : State S) :
    Except Stop (Reply × State S) := do
  let (reply, s) ← run s
  match reply with
  | .ok =>
    let (v, stack) ← takeValue s.reader.input s.stack k
    return (.ok, ⟨s.reader, ← stack.pushObject (.datum (.success (.ofVal v))), s.depth⟩)
  | .err =>
    let (e, stack) ← Frame.popError s.reader s.stack
    return (.ok, ⟨s.reader, ← stack.pushObject (.datum (.failure e)), s.depth⟩)

/-! ### What was matched -/

/-- How far a reader has come from another one is told by words as by numbers. -/
theorem toNat_sub_offset {w' : Reader S.Token} (follows : w'.Follows w) :
    (w'.cursor.offset - w.cursor.offset).toNat = w'.offset - w.offset :=
  UInt64.toNat_sub_of_le _ _ (UInt64.le_iff_toNat_le.2 follows.offset_le)

/-- The tokens between two readers, as a span. -/
theorem span_between {w' : Reader S.Token} (follows : w'.Follows w) :
    (⟨w.cursor.offset, w'.cursor.offset - w.cursor.offset⟩ : Span).of w.input =
      .ok (w.remaining.take (w'.offset - w.offset)) := by
  have before := follows.offset_le
  have inside : w'.offset ≤ w.input.size := by
    rw [← follows.input_eq]
    exact follows.inside
  -- Offsets are words; between two readers of one input their difference does not wrap.
  have size : UInt64.ofNat (w'.offset - w.offset) = w'.cursor.offset - w.cursor.offset := by
    rw [← toNat_sub_offset follows, UInt64.ofNat_toNat]
  have span := Reader.of_span (r := w) (n := w'.offset - w.offset) (Nat.le_trans before inside)
    (Nat.sub_le_sub_right inside _)
  rwa [Reader.span, size] at span

/-! ### Blocks -/

section Blocks

variable {run : State S → Except Stop (Reply × State S)} {x : Except Stop (Ending S k)}
  (h : Simulates (Ended w.input cells depth) (run ⟨w, s, depth⟩) x)
  (hx : ∀ e, x = .ok e → e.reader.Follows w)
include h

/-- The frame of a failure at the start is stripped of what was expected, and tells a name instead if there
is one. -/
theorem simulates_labelled (hp : pool.Represents poolCells) {label : Option Nat} {name : Option String}
    (hlabel : Option.Rel (fun id name => poolCells[id]? = some (.object (.label name))) label name) :
    Simulates (Ended w.input cells depth)
      (labelled run pool label ⟨w, s, depth⟩) (return (← x).relabelled w name) := by
  refine h.bind ?_
  rintro ⟨reply, s⟩ e he ended
  cases ended with
  | value hc hs => exact .ok (.value hc hs)
  | @failure w' s top f hf hs =>
    simp only [Ending.relabelled, Ending.failedAt, decide_true, Bool.true_and]
    by_cases hplace : w'.cursor.offset = w.cursor.offset
    · simp only [hplace, decide_true, if_true]
      obtain ⟨t, top, hstrip, hf, ht⟩ := Frame.stripExpected_shows hf hs
      refine .answers hstrip ?_
      cases hlabel with
      | none => exact .ok (.failure hf ht)
      | some hc =>
        refine .fits (Frame.relabel_shows hf ht hp hc) ?_
        rintro v ⟨top, hf, hv⟩
        exact .ok (.failure hf hv)
    · simp only [hplace, decide_false, Bool.false_eq_true, if_false]
      exact .ok (.failure hf hs)

include hx

/-- A block that is tried goes back to its start where it fails, as the evaluator says. -/
theorem simulates_tryBlock : Simulates (Ended w.input cells depth)
    (tryBlock run ⟨w, s, depth⟩) (return (← x).retried w) := by
  refine h.bind ?_
  rintro ⟨reply, s⟩ e he ended
  cases ended with
  | value hc hs => exact .ok (.value hc hs)
  | @failure w' s top f hf hs =>
    have follows : w'.Follows w := hx _ he
    simp only [decide_true, Bool.true_and]
    by_cases hplace : w'.cursor.offset = w.cursor.offset
    -- A failure at the start has nothing to restore.
    · simp only [ne_eq, not_true, decide_false, Bool.false_eq_true, if_false,
        follows.eq_of_offset_eq hplace]
      exact .ok (.failure hf hs)
    · simp only [hplace, ne_eq, not_false_eq_true, decide_true, if_true, follows.restore]
      exact .ok (.failure hf hs)

/-- A block that is looked at goes back to its start where it succeeds, as the evaluator says. -/
theorem simulates_lookAhead : Simulates (Ended w.input cells depth)
    (lookAhead run ⟨w, s, depth⟩) (return (← x).peeked w) := by
  refine h.bind ?_
  rintro ⟨reply, s⟩ e he ended
  cases ended with
  | @value w' s c v hc hs =>
    have follows : w'.Follows w := hx _ he
    simp only [if_true, follows.restore]
    exact .ok (.value hc hs)
  | failure hf hs => exact .ok (.failure hf hs)

/-- A block that is observed leaves the value or the error that it ended in, as the evaluator says. -/
theorem simulates_observing : Simulates (Ended w.input cells depth)
    (observing run ⟨w, s, depth⟩) (return (← x).reified) := by
  refine h.bind ?_
  rintro ⟨reply, s⟩ e he ended
  cases ended with
  | @value w' s c v hc hs =>
    have follows : w'.Follows w := hx _ he
    obtain ⟨t, hpop, ht⟩ := hs.pop
    rw [← follows.input_eq] at hc
    refine .answers (topDatum?_eq hc hs) (.answers hpop ?_)
    exact .fits (ht.pushObject _) fun u hu =>
      .ok (.value (.boxed (show S.Val (.observed k) from .ok v)) hu)
  | @failure w' s top f hf hs =>
    have follows : w'.Follows w := hx _ he
    rw [← follows.input_eq] at hf
    obtain ⟨t, hpop, ht⟩ := Frame.popError_shows hf hs
    refine .answers hpop ?_
    exact .fits (ht.pushObject _) fun u hu =>
      .ok (.value (.boxed (show S.Val (.observed k) from .error (f.error w'.name))) hu)

/-- `observing` takes any value, and so does without the kind that its routine belongs to. Taking the value
as one of the block's kind comes to the same. -/
theorem observing_eq_observingAs :
    observing run ⟨w, s, depth⟩ = observingAs k run ⟨w, s, depth⟩ := by
  simp only [observing, observingAs]
  cases hrun : run ⟨w, s, depth⟩ with
  | error stop => rfl
  | ok r =>
    rw [hrun] at h
    obtain ⟨e, he, ended⟩ := h
    cases ended with
    | @value w' s c v hc hs =>
      have follows : w'.Follows w := hx _ he
      obtain ⟨t, hpop, -⟩ := hs.pop
      rw [← follows.input_eq] at hc
      -- The value is read as one of its own kind, and put back as it was.
      simp only [bind, Except.bind, takeValue, peekValue_eq hc hs, topDatum?_eq hc hs, hpop]
      rfl
    | failure hf hs => rfl

/-- The right side runs on top of the frame that the left side left. -/
theorem simulates_choice {right : State S → Except Stop (Reply × State S)}
    {y : Reader S.Token → Except Stop (Ending S k)}
    (hy : ∀ w' s' cells', w'.Follows w → s'.Holds cells' →
      Simulates (Ended w.input cells' depth) (right ⟨w', s', depth⟩) (y w')) :
    Simulates (Ended w.input cells depth) (choice run right ⟨w, s, depth⟩)
      (do (← x).orElse w y) := by
  refine h.bind ?_
  rintro ⟨reply, s⟩ e he ended
  cases ended with
  | value hc hs => exact .ok (.value hc hs)
  | @failure w' s lower f hf hs =>
    simp only [Ending.orElse, reduceCtorEq, if_false]
    by_cases hplace : w'.cursor.offset = w.cursor.offset
    · simp only [hplace, ne_eq, not_true, if_false, if_true]
      -- The left side's frame is discarded under a value, and merged with a frame.
      refine (hy w' s _ (hx _ he) hs).bind ?_
      rintro ⟨reply, s⟩ e₂ _ ended
      cases ended with
      | @value w'' s c v hc hs =>
        obtain ⟨t, hdiscard, ht⟩ :=
          Frame.discardUnder_shows hf (show s.Holds ([c] ++ (lower ++ cells)) from hs)
        exact .answers hdiscard (.ok (.value hc ht))
      | failure hg hs =>
        obtain ⟨t, top, hmerge, hfg, ht⟩ := Frame.mergeTop_shows hf hg hs
        exact .answers hmerge (.ok (.failure hfg ht))
    · simp only [hplace, ne_eq, not_false_eq_true, if_false, if_true]
      exact .ok (.failure hf hs)

/-- A block that is not to follow fails where it succeeds and succeeds where it fails, at its start in
either case, as the evaluator says. -/
theorem simulates_notFollowedBy : Simulates (Ended w.input cells depth)
    (notFollowedBy run ⟨w, s, depth⟩) (return (← x).negated w) := by
  refine h.bind ?_
  rintro ⟨reply, s⟩ e he ended
  cases ended with
  | @value w' s c v hc hs =>
    have follows : w'.Follows w := hx _ he
    obtain ⟨t, hpop, ht⟩ := hs.pop
    -- One token is told by itself, a longer match by its span.
    have longer : 1 < w'.cursor.offset - w.cursor.offset ↔ 1 < w'.offset - w.offset := by
      rw [UInt64.lt_iff_toNat_lt, toNat_sub_offset follows]
      rfl
    refine .answers hpop ?_
    simp only [follows.restore]
    refine .ofFits (fits_refuse ht [] ?_)
    intro u hu
    by_cases hmany : 1 < w'.offset - w.offset
    · rw [if_pos hmany, if_pos (longer.2 hmany)]
      exact hu.unexpectedSpan (span_between follows)
    · rw [if_neg hmany, if_neg (mt longer.1 hmany)]
      exact hu.unexpected w
  | @failure w' s top f hf hs =>
    have follows : w'.Follows w := hx _ he
    obtain ⟨t, hdiscard, ht⟩ := Frame.discard_shows hf hs
    refine .answers hdiscard ?_
    simp only [follows.restore]
    exact .fits (ht.push ()) fun u hu => .ok (.value .unit hu)

end Blocks

/-! ### Functions -/

section Functions

variable {rules : Grammar S} {input : Input S.Token} {a b : Kind S.Base} {c c' : Cell (Object S)}

/-- A function on top is taken off, of whatever form it is. -/
theorem takeFunction_eq {function : Object S} (h : s.Holds (.object function :: cells)) :
    ∃ t, takeFunction s = .ok (function, t) ∧ t.Holds cells := by
  obtain ⟨t, hpop, ht⟩ := h.pop
  refine ⟨t, ?_, ht⟩
  rw [takeFunction, h.topObject?_cons, Cell.object?_object]
  simp only [hpop]
  rfl

/-- The value on top makes room for what the function makes of it. -/
theorem simulates_dispatch_map {f : S.Val a → S.Val b} {v : S.Val a} (hc : Reads input a c v)
    (h : s.Holds (.object (.mapping f) :: c :: cells)) :
    Simulates (fun t e => Ended input cells depth (.ok, ⟨w, t, depth⟩) e)
      (dispatch rules input .map s) (.ok (⟨.ok (f v), w⟩ : Ending S b)) := by
  obtain ⟨t, htake, ht⟩ := takeFunction_eq h
  obtain ⟨u, hvalue, hu⟩ := takeValue_eq hc ht
  refine .answers htake (.answers hvalue ?_)
  exact .ofFits ((hu.pushObject _).mono fun _ ht => .value (.boxed (f v)) ht)

/-- The two values on top make room for what the function makes of them. -/
theorem simulates_dispatch_project {k : Kind S.Base} {f : S.Val a → S.Val b → S.Val k} {v : S.Val a}
    {v' : S.Val b} (hc : Reads input a c v) (hc' : Reads input b c' v')
    (h : s.Holds (.object (.projection f) :: c' :: c :: cells)) :
    Simulates (fun t e => Ended input cells depth (.ok, ⟨w, t, depth⟩) e)
      (dispatch rules input .project s) (.ok (⟨.ok (f v v'), w⟩ : Ending S k)) := by
  obtain ⟨t, htake, ht⟩ := takeFunction_eq h
  obtain ⟨u, hsecond, hu⟩ := takeValue_eq hc' ht
  obtain ⟨r, hfirst, hr⟩ := takeValue_eq hc hu
  refine .answers htake (.answers hsecond (.answers hfirst ?_))
  exact .ofFits ((hr.pushObject _).mono fun _ ht => .value (.boxed (f v v')) ht)

/-- The value on top makes room for the program that the function makes of it. -/
theorem simulates_dispatch_bind {f : S.Val a → Parser S b} {v : S.Val a} (hc : Reads input a c v)
    (h : s.Holds (.object (.binder f) :: c :: cells)) :
    Simulates (fun t program => t.Holds (.object (.program program.code program.pool) :: cells))
      (dispatch rules input .bind s) (build rules (f v)) := by
  obtain ⟨t, htake, ht⟩ := takeFunction_eq h
  obtain ⟨u, hvalue, hu⟩ := takeValue_eq hc ht
  exact .answers htake (.answers hvalue (.after fun program _ => hu.pushObject _))

/-- The program that the function makes of the value on top comes on top of it. -/
theorem simulates_dispatch_select {f : S.Val a → Parser S b} {v : S.Val a} (hc : Reads input a c v)
    (h : s.Holds (.object (.binder f) :: c :: cells)) :
    Simulates (fun t program => t.Holds (.object (.program program.code program.pool) :: c :: cells))
      (dispatch rules input .select s) (build rules (f v)) := by
  obtain ⟨t, htake, ht⟩ := takeFunction_eq h
  exact .answers htake (.answers (peekValue_eq hc ht) (.after fun program _ => ht.pushObject _))

/-- A program on top is taken off and run with its own constants from the first on. -/
theorem runMade_eq (run : BlockRunner S) (w : Reader S.Token) (depth : Nat) {program : Program S}
    (h : s.Holds (.object (.program program.code program.pool) :: cells)) :
    ∃ t, runMade run ⟨w, s, depth⟩ = run program.code.bytes program.pool 0 ⟨w, t, depth⟩ ∧
      t.Holds cells := by
  obtain ⟨t, htake, ht⟩ := Stack.Holds.takeObject? h
    (rfl : (Cell.object (Object.program program.code program.pool)).boxed? = some program)
  exact ⟨t, by simp only [runMade, htake]; rfl, ht⟩

end Functions

end ParserMachine.Machine
