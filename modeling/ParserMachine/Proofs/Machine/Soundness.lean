import ParserMachine.Machine.Run
import ParserMachine.Proofs.Placement
import ParserMachine.Proofs.Stack.Each
import ParserMachine.Proofs.Machine.Values

/-!
# Sound stacks

A stack is sound for an input if every span on it lies in the input and every cursor on it is placed there
(`Cell.Sound`). Constants are neither, and stay sound for every input (`Cell.IsPlain`). What instructions
push besides are spans of tokens that the reader has, and cursors that it had.

The theorems here are about parts of instructions: error frames, and primitives. An instruction is
`Onward` if it leaves the machine sound and does not go back. Nothing is asked of the order in which cells
lie, so these theorems hold of frames that are not well formed, too.
-/

set_option autoImplicit false

namespace ParserMachine

open Machine

/-- What is ensured of an operation on the stack is ensured of the machine that does it. -/
theorem Ensures.lift {α : Type} {x : Except Fault α} {post : α → Prop} (h : Ensures x post) :
    Ensures (liftM x : Except Stop α) post :=
  h.mapError fun _ _ => trivial

variable {S : Signature} {input : Input S.Token}

/-! ### Cells -/

/-- The cell holds neither a span nor a cursor. -/
structure Cell.IsPlain (c : Cell (Object S)) : Prop where
  span : (c.value? : Option Span) = none
  cursor : (c.value? : Option Cursor) = none

/-- The cell holds a span only if that lies in the input, and a cursor only if that is placed there. -/
structure Cell.Sound (input : Input S.Token) (c : Cell (Object S)) : Prop where
  span {span : Span} : c.value? = some span → span.stop ≤ input.size
  cursor {place : Cursor} : c.value? = some place → place.Placed input

namespace Cell

/-- A cell with neither a span nor a cursor is sound for every input. -/
theorem IsPlain.sound {c : Cell (Object S)} (h : c.IsPlain) : c.Sound input where
  span hspan := by
    rw [h.span] at hspan
    cases hspan
  cursor hcursor := by
    rw [h.cursor] at hcursor
    cases hcursor

/-- Objects are plain: spans and cursors are kept as values in the bytes of a stack. -/
theorem isPlain_object (o : Object S) : (.object o : Cell (Object S)).IsPlain := ⟨rfl, rfl⟩

/-- Tokens are plain, since no type of tokens has the tag of a span or a cursor. -/
theorem isPlain_token (t : S.Token) : (.ofValue t : Cell (Object S)).IsPlain where
  span := value?_ofValue_of_ne t (tag_token_ne rfl)
  cursor := value?_ofValue_of_ne t (tag_token_ne rfl)

/-- A value in the bytes is plain if its tag is not that of a span or a cursor. -/
theorem isPlain_ofValue {α : Type} [Inline α] (a : α) (hspan : Inline.tag α ≠ Inline.tag Span)
    (hcursor : Inline.tag α ≠ Inline.tag Cursor) : (.ofValue a : Cell (Object S)).IsPlain where
  span := value?_ofValue_of_ne a hspan
  cursor := value?_ofValue_of_ne a hcursor

/-- A span that ends in the input is sound. -/
theorem sound_span {span : Span} (h : span.stop ≤ input.size) :
    (.ofValue span : Cell (Object S)).Sound input where
  span hspan := by
    rw [value?_ofValue] at hspan
    cases hspan
    exact h
  cursor hcursor := by
    rw [value?_ofValue_of_ne span (by decide)] at hcursor
    cases hcursor

/-- A cursor that is placed in the input is sound. -/
theorem sound_cursor {place : Cursor} (h : place.Placed input) :
    (.ofValue place : Cell (Object S)).Sound input where
  span hspan := by
    rw [value?_ofValue_of_ne place (by decide)] at hspan
    cases hspan
  cursor hcursor := by
    rw [value?_ofValue] at hcursor
    cases hcursor
    exact h

end Cell

/-- Every cell of the stack is sound for the input. -/
abbrev Stack.Sound (input : Input S.Token) (s : Stack (Object S)) : Prop := s.Each (Cell.Sound input)

/-- Every constant of the pool is plain. -/
abbrev Stack.IsPlain (pool : Stack (Object S)) : Prop := pool.Each Cell.IsPlain

namespace Stack.Sound

variable {s pool : Stack (Object S)}

/-- A token may be pushed on a sound stack. -/
theorem pushToken (h : s.Sound input) (t : S.Token) : Ensures (s.push t) (·.Sound input) :=
  h.push (Cell.isPlain_token t).sound

/-- A mark may be pushed on a sound stack. -/
theorem pushMarker (h : s.Sound input) (marker : Marker) : Ensures (s.push marker) (·.Sound input) :=
  h.push (Cell.isPlain_ofValue marker (by decide) (by decide)).sound

/-- The unit value may be pushed on a sound stack. -/
theorem pushUnit (h : s.Sound input) : Ensures (s.push ()) (·.Sound input) :=
  h.push (Cell.isPlain_ofValue () (by decide) (by decide)).sound

/-- An object may be pushed on a sound stack. -/
theorem pushBoxed (h : s.Sound input) (o : Object S) : Ensures (s.pushObject o) (·.Sound input) :=
  h.pushObject (Cell.isPlain_object o).sound

/-- A constant of a plain pool may be pushed on a sound stack. -/
theorem pushConstant (h : s.Sound input) (hpool : pool.IsPlain) (id : Nat) :
    Ensures (s.pushFrom pool id) (·.Sound input) :=
  h.pushFrom hpool (fun _ hc => hc.sound) id

end Stack.Sound

/-! ### Error frames -/

namespace Frame

variable {s pool : Stack (Object S)} (h : s.Sound input)
include h

/-- An unexpected token, or the end of the input, leaves the stack sound. -/
theorem sound_unexpected (found : Option S.Token) : Ensures (unexpected s found) (·.Sound input) := by
  cases found with
  | none => exact h.pushMarker _
  | some t => exact (h.pushToken t).bind fun _ hu => Stack.Sound.pushMarker hu _

/-- An unexpected run of tokens leaves the stack sound if the run is in the input. -/
theorem sound_unexpectedSpan {span : Span} (hspan : span.stop ≤ input.size) :
    Ensures (unexpectedSpan s span) (·.Sound input) :=
  (h.push (Cell.sound_span hspan)).bind fun _ ht => Stack.Sound.pushMarker ht _

/-- An expected item that is a constant leaves the stack sound. -/
theorem sound_expected (kind : ItemKind) (hpool : pool.IsPlain) (id : Nat) :
    Ensures (expected s kind pool id) (·.Sound input) :=
  (h.pushConstant hpool id).bind fun _ ht => Stack.Sound.pushMarker ht _

/-- A complaint that is a constant leaves the stack sound. -/
theorem sound_complaint (hpool : pool.IsPlain) (id : Nat) :
    Ensures (complaint s pool id) (·.Sound input) :=
  (h.pushConstant hpool id).bind fun _ ht => Stack.Sound.pushMarker ht _

/-- Expected tokens leave the stack sound, by induction on them. -/
theorem sound_expectedEach (tokens : List S.Token) :
    Ensures (expectedEach s tokens) (·.Sound input) := by
  unfold expectedEach
  induction tokens generalizing s with
  | nil => exact h
  | cons t tokens ih =>
    rw [List.foldlM_cons]
    refine Yields.bind ?_ fun _ hu => ih hu
    exact (h.pushToken t).bind fun _ hu => Stack.Sound.pushMarker hu _

/-- Closing a frame leaves the stack sound if the cursor is placed in the input. -/
theorem sound_close {place : Cursor} (hplace : place.Placed input) :
    Ensures (close s place) (·.Sound input) :=
  h.push (Cell.sound_cursor hplace)

/-- Dropping a frame leaves the stack sound. -/
theorem sound_discard : Ensures (discard s) (·.Sound input) :=
  .andThen fun n _ => h.popAll n

/-- Dropping a frame from under other slots leaves the stack sound. -/
theorem sound_discardUnder (keep : Nat) : Ensures (discardUnder s keep) (·.Sound input) :=
  .andThen fun n _ => h.dropUnder keep n

/-- Merging the two frames on top leaves the stack sound. -/
theorem sound_mergeTop : Ensures (mergeTop s) (·.Sound input) := by
  refine .andThen fun rightLength _ => .andThen fun leftLength _ => ?_
  refine .andThen fun right _ => .andThen fun left _ => ?_
  -- Whichever frame is kept, cells are only taken away.
  cases compare right.offset left.offset with
  | gt => exact h.dropUnder _ _
  | lt => exact h.popAll _
  | eq => exact h.dropUnder _ _

/-- Stripping leaves the stack sound, wherever it starts and however soon it is given up. -/
theorem sound_stripFrom (bound depth : Nat) : Ensures (stripFrom bound s depth) (·.Sound input) := by
  induction bound generalizing s depth with
  | zero => trivial
  | succ bound ih =>
    rw [stripFrom]
    split
    · trivial
    · exact h
    · exact (h.dropUnder _ _).bind fun t ht => ih ht depth
    · exact ih h _

/-- Stripping the frame on top leaves the stack sound. -/
theorem sound_stripExpected : Ensures (stripExpected s) (·.Sound input) :=
  sound_stripFrom h s.count 1

/-- Relabelling leaves the stack sound: the cursor that is put back is the one that was taken off. -/
theorem sound_relabel (hpool : pool.IsPlain) (id : Nat) : Ensures (relabel s pool id) (·.Sound input) := by
  refine (h.popValue?).bind ?_
  intro taken htaken
  match taken with
  | none => trivial
  | some (place, t) =>
    obtain ⟨ht, c, hc, hplace⟩ := htaken place t rfl
    exact (sound_expected ht .label hpool id).bind fun u hu => sound_close hu (hc.cursor hplace)

/-- Reading an item off the stack leaves it sound. -/
theorem sound_popItem (kind : ItemKind) : Ensures (popItem input s kind) (·.2.Sound input) := by
  cases kind with
  | token =>
    refine (h.popValue?).bind ?_
    intro taken htaken
    match taken with
    | none => trivial
    | some (t, u) => exact (htaken t u rfl).1
  | tokens =>
    refine (h.popValue?).bind ?_
    intro taken htaken
    match taken with
    | some (span, u) => exact Ensures.andThen fun run _ => (htaken span u rfl).1
    | none =>
      refine (h.takeObject?).bind ?_
      intro taken htaken
      match taken with
      | none => trivial
      | some (run, u) => exact (htaken run u rfl).1
  | label =>
    refine (h.takeObject?).bind ?_
    intro taken htaken
    match taken with
    | none => trivial
    | some (name, u) => exact (htaken name u rfl).1
  | endOfInput => exact h

/-- Reading the contents of a frame off the stack leaves it sound. -/
theorem sound_popContents (bound : Nat) (contents : Contents S) :
    Ensures (popContents input bound contents s) (·.2.Sound input) := by
  induction bound generalizing s contents with
  | zero => trivial
  | succ bound ih =>
    refine (h.popValue?).bind ?_
    intro taken htaken
    match taken with
    | none => trivial
    | some (.terminator, t) => exact (htaken _ t rfl).1
    | some (.expected kind, t) =>
      exact (sound_popItem (htaken _ t rfl).1 kind).bind fun r hr => ih hr _
    | some (.unexpected kind, t) =>
      exact (sound_popItem (htaken _ t rfl).1 kind).bind fun r hr => ih hr _
    | some (.fancy, t) =>
      refine ((htaken _ t rfl).1.takeObject?).bind ?_
      intro taken htaken
      match taken with
      | none => trivial
      | some (complaint, u) => exact ih (htaken complaint u rfl).1 _

/-- The error of a frame is at the frame's cursor. -/
theorem sound_popError {reader : Reader S.Token} (hreader : reader.input = input) :
    Ensures (popError reader s) fun r => r.1.position.toCursor.Placed input ∧ r.2.Sound input := by
  refine (h.popValue?).bind ?_
  intro taken htaken
  match taken with
  | none => trivial
  | some (place, t) =>
    obtain ⟨ht, c, hc, hplace⟩ := htaken place t rfl
    rw [hreader]
    refine Yields.bind (sound_popContents ht t.count {}) ?_
    rintro ⟨contents, u⟩ hu
    dsimp only
    split
    · exact ⟨hc.cursor hplace, hu⟩
    · exact ⟨hc.cursor hplace, hu⟩

end Frame

/-! ### The machine -/

/-- The machine reads the input, and its cursor and its stack are sound for it. -/
structure Machine.State.Sound (input : Input S.Token) (st : State S) : Prop where
  input_eq : st.reader.input = input
  cursor : st.reader.cursor.Placed input
  stack : st.stack.Sound input

/-- The machine was left sound, and not further back than the first one. -/
structure Machine.State.Onward (input : Input S.Token) (st : State S) (r : Reply × State S) : Prop where
  sound : r.2.Sound input
  offset_le : st.reader.offset ≤ r.2.reader.offset

namespace Machine

variable {st : State S} {pool : Stack (Object S)} {reader : Reader S.Token} {stack : Stack (Object S)}
  {depth id : Nat}

/-- A sound machine reads within its input. -/
theorem State.Sound.inside (h : st.Sound input) : st.reader.Inside := by
  rw [Reader.Inside, h.input_eq]
  exact h.cursor.offset_le

/-- A machine that read on within its line, with another sound stack. -/
theorem State.Sound.next (h : st.Sound input) {n : Nat} (hn : n ≤ st.reader.remainingSize)
    (hstack : stack.Sound input) (reply : Reply) (depth : Nat) :
    st.Onward input (reply, ⟨st.reader.next n, stack, depth⟩) := by
  have inside := h.inside
  obtain ⟨rfl, cursor, -⟩ := h
  refine ⟨⟨rfl, Reader.placed_next cursor hn, hstack⟩, ?_⟩
  show st.reader.offset ≤ (st.reader.next n).offset
  rw [Reader.offset_next inside hn]
  exact Nat.le_add_right _ _

/-- A machine that stays where it was, with another sound stack. -/
theorem State.Sound.stay (h : st.Sound input) (hstack : stack.Sound input) (reply : Reply) (depth : Nat) :
    st.Onward input (reply, ⟨st.reader, stack, depth⟩) :=
  ⟨⟨h.input_eq, h.cursor, hstack⟩, Nat.le_refl _⟩

/-! ### Primitives -/

section Primitives

variable (h : st.Sound input)
include h

/-- Accepting the token that comes next reads on past it. -/
theorem onward_accept {t : S.Token} (ht : st.reader.peek? = some t) :
    Ensures (accept st t) (st.Onward input ·) :=
  (h.stack.pushToken t).bind fun _ hu => h.next (Reader.remainingSize_pos ht) hu _ _

/-- Accepting a run of the tokens that are left reads on past it. -/
theorem onward_acceptRun {size : Nat} (hsize : size ≤ st.reader.remainingSize) :
    Ensures (acceptRun st size) (st.Onward input ·) := by
  have stop := Reader.stop_span_le h.inside hsize
  rw [h.input_eq] at stop
  exact (h.stack.push (Cell.sound_span stop)).bind fun _ hu => h.next hsize hu _ _

/-- A refusal leaves the reader where it was, and a frame with its cursor. -/
theorem onward_refuse {items : Stack (Object S) → Except Fault (Stack (Object S))}
    (hitems : ∀ s, s.Sound input → Ensures (items s) (·.Sound input)) :
    Ensures (refuse st items) fun r => st.Onward input r ∧ r.2.reader = st.reader := by
  refine (h.stack.pushMarker _).bind ?_
  intro s hs
  refine (hitems s hs).bind ?_
  intro t ht
  refine (Frame.sound_close ht h.cursor).bind ?_
  intro u hu
  exact ⟨h.stay hu _ _, rfl⟩

/-- A token that passes a test is accepted, and anything else refused. -/
theorem onward_takeIf (test : S.Token → Bool) {wanted : Stack (Object S) → Except Fault (Stack (Object S))}
    (hwanted : ∀ s, s.Sound input → Ensures (wanted s) (·.Sound input)) :
    Ensures (takeIf test wanted st) (st.Onward input ·) := by
  rw [takeIf]
  split
  · next t ht => exact onward_accept h (Option.filter_eq_some_iff.1 ht).1
  · refine (onward_refuse h ?_).mono fun _ hr => hr.1
    intro s hs
    exact (Frame.sound_unexpected hs _).bind fun t ht => hwanted t ht

/-- Asking for a token goes onward. -/
theorem onward_token (hpool : pool.IsPlain) (id : Nat) : Ensures (token pool id st) (st.Onward input ·) := by
  refine .andThen fun wanted _ => ?_
  exact onward_takeIf h _ fun _ hs => Frame.sound_expected hs _ hpool id

/-- Asking for some tokens in a row goes onward, also where only the first of them match. -/
theorem onward_tokens (hpool : pool.IsPlain) (id : Nat) :
    Ensures (tokens pool id st) (st.Onward input ·) := by
  have inside := h.inside
  refine .andThen fun wanted _ => ?_
  have matched : st.reader.input.countCommon wanted st.reader.offset ≤ st.reader.remainingSize := by
    rw [Reader.countCommon_eq, ← Reader.length_remaining]
    exact Parser.commonLength_le_right _ _
  dsimp only
  split
  · exact onward_acceptRun h matched
  · -- What did match is consumed under the frame, whose span may reach further.
    refine (onward_refuse h ?_).bind ?_
    · intro s hs
      have available := Reader.stop_span_le inside (Nat.min_le_left st.reader.remainingSize wanted.length)
      rw [h.input_eq] at available
      split
      · exact (Stack.Sound.pushMarker hs _).bind fun t ht => Frame.sound_expected ht _ hpool id
      · exact (Frame.sound_unexpectedSpan hs available).bind fun t ht => Frame.sound_expected ht _ hpool id
    · rintro ⟨reply, reader, stack, depth⟩ ⟨onward, same⟩
      obtain rfl : reader = st.reader := same
      exact h.next matched onward.sound.stack _ _

/-- Taking tokens while they pass a test goes onward. -/
theorem onward_takeWhile (id : Nat) (atLeastOne : Bool) :
    Ensures (takeWhile pool id atLeastOne st) (st.Onward input ·) := by
  refine .andThen fun p _ => ?_
  have count : st.reader.input.countWhile p st.reader.offset ≤ st.reader.remainingSize := by
    rw [Reader.countWhile_eq, ← Reader.length_remaining]
    exact (List.takeWhile_prefix p).length_le
  dsimp only
  split
  · refine (onward_refuse h ?_).mono fun _ hr => hr.1
    intro s hs
    exact Frame.sound_unexpected hs _
  · exact onward_acceptRun h count

/-- Taking any one token goes onward. -/
theorem onward_take1 : Ensures (take1 st) (st.Onward input ·) := by
  rw [take1]
  split
  · next t ht => exact onward_accept h ht
  · exact (onward_refuse h fun s hs => hs.pushMarker _).mono fun _ hr => hr.1

/-- Taking a number of tokens goes onward. -/
theorem onward_takeN (count : Nat) : Ensures (takeN count st) (st.Onward input ·) := by
  rw [takeN]
  split
  · exact (onward_refuse h fun s hs => hs.pushMarker _).mono fun _ hr => hr.1
  · next enough => exact onward_acceptRun h (Nat.le_of_not_lt enough)

/-- Asking for the end of the input goes onward. -/
theorem onward_eof : Ensures (eof st) (st.Onward input ·) := by
  rw [eof]
  split
  · exact h.stack.pushUnit.bind fun _ hu => h.stay hu _ _
  · refine (onward_refuse h ?_).mono fun _ hr => hr.1
    intro s hs
    exact (Frame.sound_unexpected hs _).bind fun t ht => Stack.Sound.pushMarker ht _

/-- The one instruction that goes to the next line. -/
theorem onward_newline (hpool : pool.IsPlain) (id : Nat) :
    Ensures (newline pool id st) (st.Onward input ·) := by
  rw [newline]
  dsimp only
  split
  · next t ht =>
    obtain ⟨hpeek, hbreak⟩ := Option.filter_eq_some_iff.1 ht
    obtain ⟨reader, stack, depth⟩ := st
    obtain ⟨rfl, cursor, sound⟩ := h
    refine (sound.pushToken t).bind ?_
    intro u hu
    refine ⟨⟨rfl, Reader.placed_nextLine cursor hpeek hbreak, hu⟩, ?_⟩
    show reader.offset ≤ reader.nextLine.offset
    rw [Reader.offset_nextLine hpeek]
    exact Nat.le_succ _
  · refine (onward_refuse h ?_).mono fun _ hr => hr.1
    intro s hs
    exact (Frame.sound_unexpected hs _).bind fun t ht => Frame.sound_expected ht _ hpool id

end Primitives

end Machine

end ParserMachine
