import ParserMachine.Proofs.Machine.Values
import ParserMachine.Proofs.Parser.Evaluation

/-!
# Primitives on the stack

Each primitive instruction ends as the evaluator says of the primitive parser, unless the stack
overflows: it pushes the value that the parser takes, or a frame for its failure. `Fits` is the form of
all theorems here; the constants of an instruction are given as cells of its pool.
-/

set_option autoImplicit false

namespace ParserMachine.Machine

open ParserMachine.Frame (Open failureOf Tells)

variable {S : Signature} {w : Reader S.Token} {s pool : Stack (Object S)}
  {cells poolCells : List (Cell (Object S))} {depth id : Nat}

/-! ### Values and frames -/

/-- An accepted token is the value, and the reader goes on by one. -/
theorem fits_accept (hs : s.Holds cells) (t : S.Token) :
    Fits (accept ⟨w, s, depth⟩ t)
      (Ended w.input cells depth · (⟨.ok t, w.next 1⟩ : Ending S .token)) :=
  (hs.push t).bind fun _ ht => .value (.token t) ht

/-- An accepted run is the value, told by its span, and the reader goes on by its size. -/
theorem fits_acceptRun (hs : s.Holds cells) (hw : w.Inside) {size : Nat}
    (h : size ≤ w.remainingSize) :
    Fits (acceptRun ⟨w, s, depth⟩ size) (Ended w.input cells depth · (Parser.takeRun w size)) :=
  (hs.push (w.span size)).bind fun _ ht => .value (.span (Reader.of_span hw h)) ht

/-- Recording expected items one after the other adds all of them to those of the failure. -/
theorem foldl_record_expected (items : List (Item S.Token)) (f : Failure S) :
    items.foldl (fun f item => f.record (.expected item)) f =
      { f with expected := f.expected.insertMany items } := by
  induction items generalizing f with
  | nil => rfl
  | cons item items ih => exact ih _

/-- The frame of an unexpected item and some expected ones tells a refusal. -/
theorem failureOf_refused (place : Cursor) (unexpected : Item S.Token) (items : List (Item S.Token)) :
    failureOf place ((items.map Note.expected).reverse ++ [.unexpected unexpected]) =
      { place, unexpected := some unexpected, expected := .ofList items } := by
  rw [failureOf, List.foldr_append, List.foldr_reverse, List.foldl_map, foldl_record_expected]
  rfl

/-- A refusal leaves the frame whose notes were added in between. The reader stays where it is. -/
theorem fits_frame (hs : s.Holds cells) {k : Kind S.Base} {notes : List (Note S)}
    {items : Stack (Object S) → Except Fault (Stack (Object S))}
    (h : ∀ t, Open w.input t [] cells → Fits (items t) (Open w.input · notes cells)) :
    Fits (refuse ⟨w, s, depth⟩ items)
      (Ended w.input cells depth · (⟨.error (failureOf w.cursor notes), w⟩ : Ending S k)) := by
  have started : Fits (Frame.start s) (Open w.input · [] cells) := Open.start hs
  refine started.bind ?_
  intro t ht
  refine (h t ht).bind ?_
  intro u hu
  refine (hu.close w.cursor).bind ?_
  rintro v ⟨top, hf, hv⟩
  exact .failure hf hv

/-- A refusal with one unexpected item and some expected ones ends as the evaluator's does. -/
theorem fits_refuse (hs : s.Holds cells) {k : Kind S.Base} {unexpected : Item S.Token}
    (expected : List (Item S.Token)) {items : Stack (Object S) → Except Fault (Stack (Object S))}
    (h : ∀ t, Open w.input t [] cells → Fits (items t)
      (Open w.input · ((expected.map Note.expected).reverse ++ [.unexpected unexpected]) cells)) :
    Fits (refuse ⟨w, s, depth⟩ items)
      (Ended w.input cells depth · (.refused w unexpected expected : Ending S k)) := by
  rw [Ending.refused, ← failureOf_refused]
  exact fits_frame hs h

/-- What is found where a run is wanted is told by a span, or as the end of the input. -/
theorem fits_found {t : Stack (Object S)} (ht : Open w.input t [] cells) (hw : w.Inside) (wanted : Nat) :
    Fits (if min w.remainingSize wanted = 0 then Frame.unexpectedEnd t
        else Frame.unexpectedSpan t (w.span (min w.remainingSize wanted)))
      (Open w.input · [.unexpected (Parser.nextItems w wanted)] cells) := by
  -- Fewer tokens than wanted may be left. The span is as long as those that are.
  have found : w.remaining.take wanted = w.remaining.take (min w.remainingSize wanted) := by
    rw [List.take_eq_take_min, w.length_remaining, Nat.min_comm]
  have size : (w.remaining.take wanted).length = min w.remainingSize wanted := by
    rw [List.length_take, w.length_remaining, Nat.min_comm]
  have span := Reader.of_span hw (Nat.min_le_left w.remainingSize wanted)
  rw [← found] at span
  rw [Parser.nextItems, ← size] at *
  cases hrun : w.remaining.take wanted with
  | nil => exact ht.unexpectedEnd
  | cons a run =>
    rw [hrun] at span
    exact ht.unexpectedSpan span

/-! ### The instructions -/

section Instructions

variable (hp : pool.Represents poolCells) (hs : s.Holds cells)
include hs

/-- The next token is taken if it passes the test, and otherwise is unexpected while the given items are
expected. -/
theorem fits_takeIf (test : S.Token → Bool) (expected : List (Item S.Token))
    {wanted : Stack (Object S) → Except Fault (Stack (Object S))}
    (h : ∀ (t : Stack (Object S)) notes, Open w.input t notes cells → Fits (wanted t)
      (Open w.input · ((expected.map Note.expected).reverse ++ notes) cells)) :
    Fits (takeIf test wanted ⟨w, s, depth⟩)
      (Ended w.input cells depth · (Parser.takeIf test expected w)) := by
  cases found : w.peek?.filter test with
  | some t =>
    simp only [takeIf, Parser.takeIf, found]
    exact fits_accept hs t
  | none =>
    simp only [takeIf, Parser.takeIf, found]
    refine fits_refuse hs expected ?_
    intro t ht
    exact (ht.unexpected w).bind fun u hu => h u _ hu

include hp

/-- An instruction that raises a complaint ends in a failure with this complaint alone, at the reader's
place. -/
theorem fits_error {k : Kind S.Base} {c : Complaint S.Custom}
    (hc : poolCells[id]? = some (.object (.complaint c))) :
    Fits (refuse ⟨w, s, depth⟩ (Frame.complaint · pool id)) (Ended w.input cells depth ·
      (⟨.error { place := w.cursor, complaints := [c] }, w⟩ : Ending S k)) := by
  have told : failureOf w.cursor [.complaint c] = { place := w.cursor, complaints := [c] } := rfl
  rw [← told]
  exact fits_frame hs fun _ ht => ht.complaint hp hc

/-- The token that the constant gives is taken, or is the one expected item. -/
theorem fits_token {t : S.Token} (hc : poolCells[id]? = some (.ofValue t)) :
    Fits (token pool id ⟨w, s, depth⟩)
      (Ended w.input cells depth · (Parser.takeIf (· = t) [.token t] w)) := by
  simp only [token, constantValue_eq hp hc, bind, Except.bind]
  exact fits_takeIf hs _ _ fun u notes hu => hu.expected hp hc (.token t)

/-- The run that the constant gives is taken as a whole. Where it does not match, what did match of it
is consumed, and the frame is at the start. -/
theorem fits_tokens {ts : List S.Token} (hw : w.Inside)
    (hc : poolCells[id]? = some (.object (.datum (.run ts)))) :
    Fits (tokens pool id ⟨w, s, depth⟩) (Ended w.input cells depth · (Parser.takeTokens ts w)) := by
  have constant : (constantObject pool id : Except Fault (List S.Token)) = .ok ts :=
    constantObject_eq hp hc rfl
  simp only [tokens, constant, bind, Except.bind, w.countCommon_eq]
  rw [Parser.takeTokens]
  by_cases hall : Parser.commonLength ts w.remaining = ts.length
  · rw [if_pos hall, if_pos hall]
    refine fits_acceptRun hs hw ?_
    rw [← w.length_remaining]
    exact Parser.commonLength_le_right _ _
  · rw [if_neg hall, if_neg hall]
    -- The frame is made at the start; only then is consumed what did match.
    have frame : Fits (refuse ⟨w, s, depth⟩ fun stack => do
          let stack ←
            if min w.remainingSize ts.length = 0 then Frame.unexpectedEnd stack
            else Frame.unexpectedSpan stack (w.span (min w.remainingSize ts.length))
          Frame.expected stack .tokens pool id)
        (Ended w.input cells depth ·
          (.refused w (Parser.nextItems w ts.length) [.tokens ts] : Ending S .run)) := by
      refine fits_refuse hs [.tokens ts] ?_
      intro t ht
      have found := fits_found ht hw ts.length
      by_cases hend : min w.remainingSize ts.length = 0
      · rw [if_pos hend] at found ⊢
        exact found.bind fun u hu => hu.expected hp hc (.run ts)
      · rw [if_neg hend] at found ⊢
        exact found.bind fun u hu => hu.expected hp hc (.run ts)
    refine frame.bind ?_
    rintro ⟨reply, s⟩ ended
    cases ended with
    | failure hf h => exact .failure hf h

/-- A token that satisfies the predicate is taken. Where there is none, nothing is named as expected. -/
theorem fits_satisfy {p : S.Token → Bool} (hc : poolCells[id]? = some (.object (.predicate p))) :
    Fits (satisfy pool id ⟨w, s, depth⟩) (Ended w.input cells depth · (Parser.takeIf p [] w)) := by
  have constant : (constantObject pool id : Except Fault (S.Token → Bool)) = .ok p :=
    constantObject_eq hp hc rfl
  simp only [satisfy, constant, bind, Except.bind]
  exact fits_takeIf hs p [] fun _ _ h => h

/-- A token of the set is taken. Where there is none, all of the set are expected. -/
theorem fits_oneOf {ts : List S.Token} (hc : poolCells[id]? = some (.object (.datum (.run ts)))) :
    Fits (oneOf pool id ⟨w, s, depth⟩)
      (Ended w.input cells depth · (Parser.takeIf (· ∈ ts) (ts.map .token) w)) := by
  have constant : (constantObject pool id : Except Fault (List S.Token)) = .ok ts :=
    constantObject_eq hp hc rfl
  simp only [oneOf, constant, bind, Except.bind]
  refine fits_takeIf hs _ _ ?_
  intro u notes hu
  rw [List.map_map]
  exact hu.expectedEach ts

/-- A token outside of the set is taken. Where there is none, nothing is named as expected. -/
theorem fits_noneOf {ts : List S.Token} (hc : poolCells[id]? = some (.object (.datum (.run ts)))) :
    Fits (noneOf pool id ⟨w, s, depth⟩)
      (Ended w.input cells depth · (Parser.takeIf (· ∉ ts) [] w)) := by
  have constant : (constantObject pool id : Except Fault (List S.Token)) = .ok ts :=
    constantObject_eq hp hc rfl
  simp only [noneOf, constant, bind, Except.bind]
  exact fits_takeIf hs _ [] fun _ _ h => h

/-- A token that ends its line is taken, and the reader goes to the next line. Where there is none, the
name of a line break is expected. -/
theorem fits_newline (hc : poolCells[id]? = some (.object (.label "newline"))) :
    Fits (newline pool id ⟨w, s, depth⟩)
      (Ended w.input cells depth · (Parser.takeLineBreak w)) := by
  cases found : w.peek?.filter Token.isLineBreak with
  | some t =>
    simp only [newline, Parser.takeLineBreak, found]
    exact (hs.push t).bind fun _ ht => .value (.token t) ht
  | none =>
    simp only [newline, Parser.takeLineBreak, found]
    refine fits_refuse hs [.label "newline"] ?_
    intro t ht
    refine (ht.unexpected w).bind ?_
    intro u hu
    exact hu.expected hp hc (.label "newline")

/-- All tokens up to the first that does not satisfy the predicate are taken, also where these are none. -/
theorem fits_takeWhile {p : S.Token → Bool} (hw : w.Inside)
    (hc : poolCells[id]? = some (.object (.predicate p))) :
    Fits (takeWhile pool id false ⟨w, s, depth⟩) (Ended w.input cells depth ·
      (Parser.takeRun w (w.remaining.takeWhile p).length)) := by
  have constant : (constantObject pool id : Except Fault (S.Token → Bool)) = .ok p :=
    constantObject_eq hp hc rfl
  simp only [takeWhile, constant, bind, Except.bind, w.countWhile_eq]
  exact fits_acceptRun hs hw (Parser.length_takeWhile_le w p)

/-- All tokens up to the first that does not satisfy the predicate are taken. Where these are none, the
next token is unexpected. -/
theorem fits_takeWhile1 {p : S.Token → Bool} (hw : w.Inside)
    (hc : poolCells[id]? = some (.object (.predicate p))) :
    Fits (takeWhile pool id true ⟨w, s, depth⟩)
      (Ended w.input cells depth · (Parser.takeSome p w)) := by
  have constant : (constantObject pool id : Except Fault (S.Token → Bool)) = .ok p :=
    constantObject_eq hp hc rfl
  have inside := Parser.length_takeWhile_le w p
  simp only [takeWhile, constant, bind, Except.bind, w.countWhile_eq, Parser.takeSome]
  cases hrun : w.remaining.takeWhile p with
  | nil => exact fits_refuse hs [] fun t ht => ht.unexpected w
  | cons t run =>
    rw [hrun] at inside
    exact fits_acceptRun hs hw inside

omit hp

/-- So many tokens are taken as a run. Where fewer are left, the end of the input is unexpected, and
nothing is taken. -/
theorem fits_takeCount (hw : w.Inside) (n : Nat) :
    Fits (takeN n ⟨w, s, depth⟩) (Ended w.input cells depth · (Parser.takeCount n w)) := by
  rw [takeN, Parser.takeCount, w.length_remaining]
  show Fits (if w.remainingSize < n then _ else _) _
  split
  · exact fits_refuse hs [] fun t ht => ht.unexpectedEnd
  · next enough => exact fits_acceptRun hs hw (Nat.le_of_not_lt enough)

/-- Whatever token is next is taken. Only the end of the input is refused. -/
theorem fits_take1 : Fits (take1 ⟨w, s, depth⟩)
    (Ended w.input cells depth · (Parser.takeIf (fun _ => true) [] w)) := by
  cases found : w.peek? with
  | some t =>
    simp only [take1, Parser.takeIf, found, Option.filter_some, if_true]
    exact fits_accept hs t
  | none =>
    simp only [take1, Parser.takeIf, Parser.nextItem, found, Option.filter_none]
    exact fits_refuse hs [] fun t ht => ht.unexpectedEnd

/-- The end of the input is where there is no next token. Where there is one, it is unexpected. -/
theorem fits_eof : Fits (eof ⟨w, s, depth⟩) (Ended w.input cells depth · (Parser.takeEnd w)) := by
  cases found : w.peek? with
  | none =>
    simp only [eof, Parser.takeEnd, found]
    exact (hs.push ()).bind fun _ ht => .value .unit ht
  | some t =>
    have frame : Fits (refuse ⟨w, s, depth⟩ fun stack => do
          Frame.expectedEnd (← Frame.unexpected stack w.peek?))
        (Ended w.input cells depth ·
          (.refused w (Parser.nextItem w) [.endOfInput] : Ending S .unit)) :=
      fits_refuse hs [.endOfInput] fun u hu => (hu.unexpected w).bind fun v hv => hv.expectedEnd
    simp only [eof, Parser.takeEnd, found]
    rw [Parser.nextItem, found] at frame
    exact frame

end Instructions

end ParserMachine.Machine
