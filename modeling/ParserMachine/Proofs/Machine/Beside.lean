import ParserMachine.Proofs.Machine.Instructions
import ParserMachine.Proofs.Stack.Likeness

/-!
# Two machines side by side

What a machine does depends on the cells that its stack stands for, not on where they lie in memory, and
on the constants that its instructions name, not on their indices. Here are two machines that stand at
the same place of the same input, on stacks that are alike (`Beside`). Every operation on frames, every
primitive, every applied function and every wrapper of blocks does to the one what it does to the other:
it gives the same answer, or fails in the same way, unless the first stack fails in a way that its
likeness excuses.

Constants are taken from two pools, each at an index of its own, that have the same cell there.
-/

set_option autoImplicit false

namespace ParserMachine

open Stack (Likeness)

variable {S : Signature} {K : Likeness (Object S)} {s t pool pool' : Stack (Object S)}
  {c : Cell (Object S)} {i j : Nat}

namespace Frame

/-! ### Building frames -/

/-- A frame is started on both stacks alike. -/
theorem tracks_start (h : K.Rel s t) : Tracks K.excused K.Rel (start s) (start t) := h.push _

/-- A frame is closed on both stacks alike, with the same cursor. -/
theorem tracks_close (h : K.Rel s t) (place : Cursor) :
    Tracks K.excused K.Rel (close s place) (close t place) := h.push place

/-- The end of the input is added to both frames as unexpected. -/
theorem tracks_unexpectedEnd (h : K.Rel s t) :
    Tracks K.excused K.Rel (unexpectedEnd s) (unexpectedEnd t) := h.push _

/-- The end of the input is added to both frames as expected. -/
theorem tracks_expectedEnd (h : K.Rel s t) :
    Tracks K.excused K.Rel (expectedEnd s) (expectedEnd t) := h.push _

/-- What was found is added to both frames as unexpected: the same token, or the end of the input. -/
theorem tracks_unexpected (h : K.Rel s t) (found : Option S.Token) :
    Tracks K.excused K.Rel (unexpected s found) (unexpected t found) := by
  cases found with
  | none => exact tracks_unexpectedEnd h
  | some a => exact (h.push a).bind fun _ _ h => h.push _

/-- A span is added to both frames as unexpected. -/
theorem tracks_unexpectedSpan (h : K.Rel s t) (span : Span) :
    Tracks K.excused K.Rel (unexpectedSpan s span) (unexpectedSpan t span) :=
  (h.push span).bind fun _ _ h => h.push _

/-- A constant is added to both frames as expected. Each pool has it at an index of its own. -/
theorem tracks_expected (h : K.Rel s t) (kind : ItemKind) (hi : pool.HasAt i c)
    (hj : pool'.HasAt j c) :
    Tracks K.excused K.Rel (expected s kind pool i) (expected t kind pool' j) :=
  (h.pushFrom hi hj).bind fun _ _ h => h.push _

/-- A constant is added to both frames as a complaint. Each pool has it at an index of its own. -/
theorem tracks_complaint (h : K.Rel s t) (hi : pool.HasAt i c) (hj : pool'.HasAt j c) :
    Tracks K.excused K.Rel (complaint s pool i) (complaint t pool' j) :=
  (h.pushFrom hi hj).bind fun _ _ h => h.push _

/-- Tokens are added to both frames as expected, one after the other. -/
theorem tracks_expectedEach (h : K.Rel s t) (tokens : List S.Token) :
    Tracks K.excused K.Rel (expectedEach s tokens) (expectedEach t tokens) := by
  induction tokens generalizing s t with
  | nil => exact .ok h
  | cons a tokens ih =>
    rw [expectedEach, expectedEach, List.foldlM_cons, List.foldlM_cons]
    exact ((h.push a).bind fun _ _ h => h.push _).bind fun _ _ h => ih h

/-! ### Measuring and editing frames -/

/-- A frame is found at the same place in both stacks, or in neither. -/
theorem place_congr (h : K.Rel s t) (depth : Nat) : place t depth = place s depth := by
  rw [place, place, h.peekAt?_eq]

/-- The search for the end of a frame goes the same way in both stacks. -/
theorem terminatorDepth_congr (h : K.Rel s t) (depth : Nat) :
    terminatorDepth t depth = terminatorDepth s depth := by
  -- The search goes down to the bottom, which both have at the same depth.
  fun_induction terminatorDepth s depth with
  | case1 depth inside mark =>
    rw [terminatorDepth, h.count_eq, if_pos inside, h.peekAt?_eq, mark]
  | case2 depth inside mark =>
    rw [terminatorDepth, h.count_eq, if_pos inside, h.peekAt?_eq, mark]
  | case3 depth inside marker hne mark ih =>
    rw [terminatorDepth, h.count_eq, if_pos inside, h.peekAt?_eq, mark]
    cases marker with
    | terminator => exact absurd rfl hne
    | expected | unexpected | fancy => exact ih
  | case4 depth outside => rw [terminatorDepth, h.count_eq, if_neg outside]

/-- A frame is measured alike in both stacks. -/
theorem length_congr (h : K.Rel s t) (depth : Nat) : length t depth = length s depth := by
  rw [length, length, h.holds_eq Cursor, terminatorDepth_congr h]

/-- The frame on top is dropped from both stacks. -/
theorem tracks_discard (h : K.Rel s t) : Tracks K.excused K.Rel (discard s) (discard t) := by
  rw [discard, discard, length_congr h]
  exact .bindSame fun n _ => h.popAll n

/-- The frame beneath the top slots is dropped from both stacks. -/
theorem tracks_discardUnder (h : K.Rel s t) (keep : Nat) :
    Tracks K.excused K.Rel (discardUnder s keep) (discardUnder t keep) := by
  rw [discardUnder, discardUnder, length_congr h]
  exact .bindSame fun n _ => h.dropUnder keep n

/-- The two frames on top become one in both stacks, and it is the same one. -/
theorem tracks_mergeTop (h : K.Rel s t) : Tracks K.excused K.Rel (mergeTop s) (mergeTop t) := by
  -- Both measure the same frames and find the same cursors, so both drop the same cells.
  simp only [mergeTop, length_congr h, place_congr h]
  refine .bindSame fun rightLength _ => .bindSame fun leftLength _ => .bindSame fun right _ =>
    .bindSame fun left _ => ?_
  cases compare right.offset left.offset with
  | gt => exact h.dropUnder _ _
  | lt => exact h.popAll _
  | eq => exact h.dropUnder _ _

/-- Expected items are dropped from both stacks, from the same depth down. -/
theorem tracks_stripFrom (h : K.Rel s t) (bound depth : Nat) :
    Tracks K.excused K.Rel (stripFrom bound s depth) (stripFrom bound t depth) := by
  induction bound generalizing s t depth with
  | zero => exact .failed _
  | succ bound ih =>
    rw [stripFrom, stripFrom, h.peekAt?_eq]
    cases (s.peekAt? depth : Option Marker) with
    | none => exact .failed _
    | some mark =>
      cases mark with
      | terminator => exact .ok h
      | expected kind => exact (h.dropUnder _ _).bind fun _ _ h => ih h depth
      | unexpected | fancy => exact ih h _

/-- Expected items are dropped from the frames on top of both stacks. -/
theorem tracks_stripExpected (h : K.Rel s t) :
    Tracks K.excused K.Rel (stripExpected s) (stripExpected t) := by
  rw [stripExpected, stripExpected, h.count_eq]
  exact tracks_stripFrom h _ _

/-- A name is added to the frames on top of both stacks. -/
theorem tracks_relabel (h : K.Rel s t) (hi : pool.HasAt i c) (hj : pool'.HasAt j c) :
    Tracks K.excused K.Rel (relabel s pool i) (relabel t pool' j) := by
  refine h.popValue?.bind ?_
  rintro _ _ (⟨⟨place, h⟩⟩ | _)
  · exact (tracks_expected h .label hi hj).bind fun _ _ h => tracks_close h place
  · exact .failed _

/-! ### Reading frames -/

variable {input : Input S.Token}

/-- The payload of an item is popped off both stacks, and is the same item. -/
theorem tracks_popItem (h : K.Rel s t) (kind : ItemKind) :
    Tracks K.excused (Paired K.Rel) (popItem input s kind) (popItem input t kind) := by
  cases kind with
  | token =>
    refine h.popValue?.bind ?_
    rintro _ _ (⟨⟨a, h⟩⟩ | _)
    · exact .ok ⟨_, h⟩
    · exact .failed _
  | tokens =>
    refine h.popValue?.bind ?_
    rintro _ _ (⟨⟨span, h⟩⟩ | _)
    · exact .bindSame fun run _ => .ok ⟨_, h⟩
    · -- No span, so the run was told by a constant.
      refine h.takeObject?.bind ?_
      rintro _ _ (⟨⟨run, h⟩⟩ | _)
      · exact .ok ⟨_, h⟩
      · exact .failed _
  | label =>
    refine h.takeObject?.bind ?_
    rintro _ _ (⟨⟨name, h⟩⟩ | _)
    · exact .ok ⟨_, h⟩
    · exact .failed _
  | endOfInput => exact .ok ⟨_, h⟩

/-- Marks and payloads are popped off both stacks, and tell the same. -/
theorem tracks_popContents (h : K.Rel s t) (bound : Nat) (contents : Contents S) :
    Tracks K.excused (Paired K.Rel) (popContents input bound contents s)
      (popContents input bound contents t) := by
  induction bound generalizing s t contents with
  | zero => exact .failed _
  | succ bound ih =>
    rw [popContents, popContents]
    refine h.popValue?.bind ?_
    rintro _ _ (⟨⟨mark, h⟩⟩ | _)
    · cases mark with
      | terminator => exact .ok ⟨contents, h⟩
      | expected kind | unexpected kind =>
        refine (tracks_popItem h kind).bind ?_
        rintro _ _ ⟨item, h⟩
        exact ih h _
      | fancy =>
        refine h.takeObject?.bind ?_
        rintro _ _ (⟨⟨complaint, h⟩⟩ | _)
        · exact ih h _
        · exact .failed _
    · exact .failed _

/-- The frame on top of both stacks is popped as the same error. -/
theorem tracks_popError (h : K.Rel s t) (reader : Reader S.Token) :
    Tracks K.excused (Paired K.Rel) (popError reader s) (popError reader t) := by
  refine h.popValue?.bind ?_
  rintro _ _ (⟨⟨place, h⟩⟩ | _)
  · simp only [h.count_eq]
    refine (tracks_popContents h _ _).bind ?_
    rintro _ _ ⟨contents, h⟩
    exact .ite (fun _ => .ok ⟨_, h⟩) fun _ => .ok ⟨_, h⟩
  · exact .failed _

end Frame

namespace Machine

variable {cut : Stop → Prop} {depth offset offset' : Nat} {st st' : State S} {k : Kind S.Base}

/-- Two machines at the same place of the same input and at the given depth, on stacks that are related. -/
inductive Beside (R : Stack (Object S) → Stack (Object S) → Prop) (depth : Nat) :
    State S → State S → Prop where
  | intro (w : Reader S.Token) {s t : Stack (Object S)} (h : R s t) :
    Beside R depth ⟨w, s, depth⟩ ⟨w, t, depth⟩

/-- What is tracked on stacks is tracked by machines, as far as they excuse the same. -/
theorem tracks_lift {α β : Type} {R : α → β → Prop} {excused : Fault → Prop} {x : Except Fault α}
    {y : Except Fault β} (hcut : ∀ f, excused f → cut (.fault f)) (h : Tracks excused R x y) :
    Tracks cut R (liftM x : Except Stop α) (liftM y : Except Stop β) :=
  h.mapError hcut

/-- Both machines go on with what they have fetched. -/
theorem tracks_answers {α β γ δ : Type} {R : γ → δ → Prop} {x : Except Fault α} {y : Except Fault β}
    {a : α} {b : β} {f : α → Except Stop γ} {g : β → Except Stop δ} (hx : x = .ok a) (hy : y = .ok b)
    (h : Tracks cut R (f a) (g b)) :
    Tracks cut R ((liftM x : Except Stop α) >>= f) ((liftM y : Except Stop β) >>= g) := by
  rw [hx, hy]
  exact h

/-! ### Constants and values -/

/-- An inline constant is the same in both pools, where the same cell lies at the two indices. -/
theorem constantValue_congr {α : Type} [Inline α] (hi : pool.HasAt i c) (hj : pool'.HasAt j c) :
    (constantValue pool' j : Except Fault α) = constantValue pool i := by
  rw [constantValue, constantValue, hi.get?_eq, hj.get?_eq]

/-- An object constant is the same in both pools, where the same cell lies at the two indices. -/
theorem constantObject_congr {α : Type} [Boxed (Object S) α] (hi : pool.HasAt i c)
    (hj : pool'.HasAt j c) : (constantObject pool' j : Except Fault α) = constantObject pool i := by
  rw [constantObject, constantObject, hi.object?_eq, hj.object?_eq]

/-- The result on top is the same on both stacks. -/
theorem topDatum?_congr (h : K.Rel s t) (input : Input S.Token) :
    topDatum? input t = topDatum? input s := by
  rw [topDatum?, topDatum?, h.peek?_eq, h.peek?_eq, h.peek?_eq, h.peekObject?_eq]

/-- The result on top, of the kind that is asked for, is the same on both stacks. -/
theorem peekValue_congr (h : K.Rel s t) (input : Input S.Token) (k : Kind S.Base) :
    peekValue input t k = peekValue input s k := by
  rw [peekValue, peekValue, topDatum?_congr h]

/-- The result on top is popped off both stacks, and is the same. -/
theorem tracks_takeValue (h : K.Rel s t) (input : Input S.Token) (k : Kind S.Base) :
    Tracks K.excused (Paired K.Rel) (takeValue input s k) (takeValue input t k) := by
  rw [takeValue, takeValue, peekValue_congr h]
  exact .bindSame fun v _ => h.pop.bind fun _ _ h => .ok ⟨v, h⟩

/-! ### Primitives -/

section Primitives

variable (h : Beside K.Rel depth st st')
include h

/-- Machines side by side are at the same place of the same input. -/
theorem reader_eq : st'.reader = st.reader := by
  obtain ⟨w, h⟩ := h
  rfl

/-- A token is accepted by both machines. -/
theorem tracks_accept (a : S.Token) :
    Tracks K.excused (Paired (Beside K.Rel depth)) (accept st a) (accept st' a) := by
  obtain ⟨w, h⟩ := h
  exact (h.push a).bind fun _ _ h => .ok ⟨_, _, h⟩

/-- A run of tokens is accepted by both machines. -/
theorem tracks_acceptRun (size : Nat) :
    Tracks K.excused (Paired (Beside K.Rel depth)) (acceptRun st size) (acceptRun st' size) := by
  obtain ⟨w, h⟩ := h
  exact (h.push (w.span size)).bind fun _ _ h => .ok ⟨_, _, h⟩

/-- Both machines refuse what they find, if the items of the two frames are added alike. -/
theorem tracks_refuse {items items' : Stack (Object S) → Except Fault (Stack (Object S))}
    (hitems : ∀ s t, K.Rel s t → Tracks K.excused K.Rel (items s) (items' t)) :
    Tracks K.excused (Paired (Beside K.Rel depth)) (refuse st items) (refuse st' items') := by
  obtain ⟨w, h⟩ := h
  refine (Frame.tracks_start h).bind fun s t h => (hitems s t h).bind fun s t h => ?_
  exact (Frame.tracks_close h w.cursor).bind fun _ _ h => .ok ⟨_, _, h⟩

/-- A token is tested by both machines, and taken or refused by both. -/
theorem tracks_takeIf (test : S.Token → Bool)
    {wanted wanted' : Stack (Object S) → Except Fault (Stack (Object S))}
    (hwanted : ∀ s t, K.Rel s t → Tracks K.excused K.Rel (wanted s) (wanted' t)) :
    Tracks K.excused (Paired (Beside K.Rel depth)) (takeIf test wanted st) (takeIf test wanted' st') := by
  rw [takeIf, takeIf, reader_eq h]
  cases st.reader.peek?.filter test with
  | some a => exact tracks_accept h a
  | none =>
    exact tracks_refuse h fun s t h => (Frame.tracks_unexpected h _).bind fun s t h => hwanted s t h

/-- Both machines take the next token, whatever it is, or are at the end. -/
theorem tracks_take1 : Tracks K.excused (Paired (Beside K.Rel depth)) (take1 st) (take1 st') := by
  rw [take1, take1, reader_eq h]
  cases st.reader.peek? with
  | some a => exact tracks_accept h a
  | none => exact tracks_refuse h fun _ _ h => Frame.tracks_unexpectedEnd h

/-- Both machines take so many tokens, or have too few. -/
theorem tracks_takeN (count : Nat) :
    Tracks K.excused (Paired (Beside K.Rel depth)) (takeN count st) (takeN count st') := by
  rw [takeN, takeN, reader_eq h]
  refine .ite (fun _ => ?_) fun _ => tracks_acceptRun h count
  exact tracks_refuse h fun _ _ h => Frame.tracks_unexpectedEnd h

/-- Both machines are at the end, or neither is. -/
theorem tracks_eof : Tracks K.excused (Paired (Beside K.Rel depth)) (eof st) (eof st') := by
  obtain ⟨w, h⟩ := h
  simp only [eof]
  cases w.peek? with
  | none => exact (h.push ()).bind fun _ _ h => .ok ⟨_, _, h⟩
  | some a =>
    exact tracks_refuse ⟨w, h⟩ fun _ _ h => (Frame.tracks_unexpected h (some a)).bind fun _ _ h =>
      Frame.tracks_expectedEnd h

variable (hi : pool.HasAt i c) (hj : pool'.HasAt j c)
include hi hj

/-- Both machines match the token that their constants give. -/
theorem tracks_token :
    Tracks K.excused (Paired (Beside K.Rel depth)) (token pool i st) (token pool' j st') := by
  rw [token, token, constantValue_congr hi hj]
  exact .bindSame fun wanted _ => tracks_takeIf h _ fun _ _ h =>
    Frame.tracks_expected h .token hi hj

/-- Both machines match the run of tokens that their constants give, or consume as much of it. -/
theorem tracks_tokens :
    Tracks K.excused (Paired (Beside K.Rel depth)) (tokens pool i st) (tokens pool' j st') := by
  rw [tokens, tokens, constantObject_congr hi hj, reader_eq h]
  refine .bindSame fun wanted _ => .ite (fun _ => tracks_acceptRun h _) fun _ => ?_
  refine (tracks_refuse h ?_).bind ?_
  · intro s t h
    refine .ite (fun _ => ?_) fun _ => ?_
    · exact (Frame.tracks_unexpectedEnd h).bind fun _ _ h => Frame.tracks_expected h .tokens hi hj
    · exact (Frame.tracks_unexpectedSpan h _).bind fun _ _ h =>
        Frame.tracks_expected h .tokens hi hj
  · rintro _ _ ⟨reply, ⟨w, h⟩⟩
    exact .ok ⟨_, _, h⟩

/-- Both machines take as many tokens as satisfy the predicate that their constants give. -/
theorem tracks_takeWhile (atLeastOne : Bool) :
    Tracks K.excused (Paired (Beside K.Rel depth)) (takeWhile pool i atLeastOne st)
      (takeWhile pool' j atLeastOne st') := by
  rw [takeWhile, takeWhile, constantObject_congr hi hj, reader_eq h]
  refine .bindSame fun p _ => .ite (fun _ => ?_) fun _ => tracks_acceptRun h _
  exact tracks_refuse h fun _ _ h => Frame.tracks_unexpected h _

/-- Both machines test the next token by the predicate that their constants give. -/
theorem tracks_satisfy :
    Tracks K.excused (Paired (Beside K.Rel depth)) (satisfy pool i st) (satisfy pool' j st') := by
  rw [satisfy, satisfy, constantObject_congr hi hj]
  exact .bindSame fun p _ => tracks_takeIf h p fun _ _ h => .ok h

/-- Both machines look for the next token in the set that their constants give. -/
theorem tracks_oneOf :
    Tracks K.excused (Paired (Beside K.Rel depth)) (oneOf pool i st) (oneOf pool' j st') := by
  rw [oneOf, oneOf, constantObject_congr hi hj]
  exact .bindSame fun set _ => tracks_takeIf h _ fun _ _ h => Frame.tracks_expectedEach h set

/-- Both machines look for the next token outside of the set that their constants give. -/
theorem tracks_noneOf :
    Tracks K.excused (Paired (Beside K.Rel depth)) (noneOf pool i st) (noneOf pool' j st') := by
  rw [noneOf, noneOf, constantObject_congr hi hj]
  exact .bindSame fun set _ => tracks_takeIf h _ fun _ _ h => .ok h

/-- Both machines take a token that ends its line, and go to the next line. -/
theorem tracks_newline :
    Tracks K.excused (Paired (Beside K.Rel depth)) (newline pool i st) (newline pool' j st') := by
  rw [newline, newline, reader_eq h]
  cases st.reader.peek?.filter Token.isLineBreak with
  | some a =>
    obtain ⟨w, h⟩ := h
    exact (h.push a).bind fun _ _ h => .ok ⟨_, _, h⟩
  | none =>
    exact tracks_refuse h fun _ _ h => (Frame.tracks_unexpected h _).bind fun _ _ h =>
      Frame.tracks_expected h .label hi hj

end Primitives

/-! ### Functions -/

section Functions

variable {rules : Grammar S}

/-- If the object is a program, then it was built of a parser. -/
def IsBuilt (rules : Grammar S) (o : Object S) : Prop :=
  ∀ code pool, o = .program code pool →
    ∃ (k : Kind S.Base) (p : Parser S k), p.LoadedIn ⟨code, pool⟩ rules

/-- Stacks that are alike, on top of which the same object was put. -/
inductive Applied (K : Likeness (Object S)) (rules : Grammar S) :
    Stack (Object S) → Stack (Object S) → Prop where
  | intro {s t : Stack (Object S)} {o : Object S} {cells : List (Cell (Object S))}
      (h : K.Alike (.object o :: cells) s t) (ho : IsBuilt rules o) : Applied K rules s t

/-- Stacks that are alike still are with one more object on top. -/
theorem Applied.rel (h : Applied K rules s t) : K.Rel s t := by
  obtain ⟨h, -⟩ := h
  exact h.rel

/-- The same function is taken off both stacks. -/
theorem tracks_takeFunction (h : K.Rel s t) :
    Tracks K.excused (Paired K.Rel) (takeFunction s) (takeFunction t) := by
  rw [takeFunction, takeFunction, h.topObject?_eq]
  cases (s.indexOf? 0).bind s.rawObject? with
  | none => exact .failed _
  | some function => exact h.pop.bind fun _ _ h => .ok ⟨function, h⟩

variable (hcut : ∀ f, K.excused f → cut (.fault f))
include hcut

/-- The object that a routine pushes. -/
theorem tracks_applied (h : K.Rel s t) {o : Object S} (ho : IsBuilt rules o) :
    Tracks cut (Applied K rules) (liftM (s.pushObject o) : Except Stop (Stack (Object S)))
      (liftM (t.pushObject o)) := by
  obtain ⟨cells, h⟩ := h
  exact (tracks_lift hcut (h.pushObject o)).mono fun _ _ h => ⟨h, ho⟩

/-- A routine applies the same function on both stacks, to the same values, and so pushes the same
object. -/
theorem tracks_dispatch (h : K.Rel s t) (input : Input S.Token) (routine : Dispatcher) :
    Tracks cut (Applied K rules) (dispatch rules input routine s)
      (dispatch rules input routine t) := by
  have datum (d : Datum S) : IsBuilt rules (.datum d) := by
    rintro code pool ⟨⟩
  have made {k : Kind S.Base} (p : Parser S k) {program : Program S}
      (hbuild : build rules p = .ok program) : IsBuilt rules (.program program.code program.pool) := by
    rintro code pool ⟨⟩
    exact ⟨k, p, Parser.loadedIn_of_build hbuild⟩
  refine (tracks_lift hcut (tracks_takeFunction h)).bind ?_
  rintro _ _ ⟨function, h⟩
  -- A routine that finds a function of another form fails on either side.
  cases routine with
  | map =>
    cases function with
    | mapping f =>
      refine (tracks_lift hcut (tracks_takeValue h input _)).bind ?_
      rintro _ _ ⟨v, h⟩
      exact tracks_applied hcut h (datum _)
    | datum | label | complaint | predicate | binder | projection | program | cursor => exact .failed _
  | bind =>
    cases function with
    | binder f =>
      refine (tracks_lift hcut (tracks_takeValue h input _)).bind ?_
      rintro _ _ ⟨v, h⟩
      exact .bindSame fun program hbuild => tracks_applied hcut h (made (f v) hbuild)
    | datum | label | complaint | predicate | mapping | projection | program | cursor => exact .failed _
  | select =>
    cases function with
    | binder f =>
      simp only [peekValue_congr h]
      exact .bindSame fun v _ => .bindSame fun program hbuild =>
        tracks_applied hcut h (made (f v) hbuild)
    | datum | label | complaint | predicate | mapping | projection | program | cursor => exact .failed _
  | project =>
    cases function with
    | projection f =>
      refine (tracks_lift hcut (tracks_takeValue h input _)).bind ?_
      rintro _ _ ⟨second, h⟩
      refine (tracks_lift hcut (tracks_takeValue h input _)).bind ?_
      rintro _ _ ⟨first, h⟩
      exact tracks_applied hcut h (datum _)
    | datum | label | complaint | predicate | mapping | binder | program | cursor => exact .failed _

/-- The function that an instruction names is applied. -/
theorem tracks_invoke {op : Opcode} {routine : Dispatcher} {function : Object S}
    {cells cells' : List (Cell (Object S))} {code : List UInt8} (hp : pool.Represents cells)
    (hp' : pool'.Represents cells')
    (hl : Parser.LoadsInvoke cells op routine function code offset)
    (hl' : Parser.LoadsInvoke cells' op routine function code offset') (rest : List UInt8)
    (h : Beside K.Rel depth st st') :
    Tracks cut (Beside (Applied K rules) depth) (invoke rules (code ++ rest) pool offset st)
      (invoke rules (code ++ rest) pool' offset' st') := by
  obtain ⟨first, second, hfirst, hroutine, hsecond, hfunction⟩ := hl.constants rest
  obtain ⟨first', second', hfirst', hroutine', hsecond', hfunction'⟩ := hl'.constants rest
  obtain ⟨w, h⟩ := h
  refine tracks_answers hfirst hfirst' ?_
  refine tracks_answers (constantValue_eq hp hroutine) (constantValue_eq hp' hroutine') ?_
  refine tracks_answers hsecond hsecond' ?_
  refine (tracks_lift hcut (h.pushFrom ⟨cells, hp, hfunction⟩ ⟨cells', hp', hfunction'⟩)).bind ?_
  intro s t h
  exact (tracks_dispatch hcut h w.input routine).bind fun _ _ h => .ok ⟨w, h⟩

end Functions

/-! ### Blocks -/

/-- Two runners of blocks do alike with blocks that are loaded for the same parser, though their constants
may lie in different places. -/
def Lockstep (K : Likeness (Object S)) (cut : Stop → Prop) (rules : Grammar S) (depth : Nat)
    (run run' : BlockRunner S) : Prop :=
  ∀ {k : Kind S.Base} (p : Parser S k) {code : List UInt8} {pool pool' : Stack (Object S)}
    {offset offset' : Nat} {cells cells' : List (Cell (Object S))} {st st' : State S},
    pool.Represents cells → pool'.Represents cells' → p.Loads cells rules code offset →
    Parser.Relocates cells cells' offset offset' → Beside K.Rel depth st st' →
    Tracks cut (Paired (Beside K.Rel depth)) (run code pool offset st) (run' code pool' offset' st')

section Blocks

variable {run run' : State S → Except Stop (Reply × State S)} (hcut : ∀ f, K.excused f → cut (.fault f))
  (hst : Beside K.Rel depth st st')
  (h : Tracks cut (Paired (Beside K.Rel depth)) (run st) (run' st'))
include hcut hst h

omit hcut in
/-- Both machines go back where they were before a block that failed, or where they need not. -/
theorem tracks_tryBlock :
    Tracks cut (Paired (Beside K.Rel depth)) (tryBlock run st) (tryBlock run' st') := by
  -- Both stood at one place, and go back to it or not.
  obtain ⟨w, -⟩ := hst
  refine h.bind ?_
  rintro _ _ ⟨reply, ⟨w', h⟩⟩
  exact .ite (fun _ => .ok ⟨_, _, h⟩) fun _ => .ok ⟨_, _, h⟩

omit hcut in
/-- Both machines go back where they were before a block that succeeded. -/
theorem tracks_lookAhead :
    Tracks cut (Paired (Beside K.Rel depth)) (lookAhead run st) (lookAhead run' st') := by
  obtain ⟨w, -⟩ := hst
  refine h.bind ?_
  rintro _ _ ⟨reply, ⟨w', h⟩⟩
  exact .ite (fun _ => .ok ⟨_, _, h⟩) fun _ => .ok ⟨_, _, h⟩

/-- Both machines take the left side, or the right one, or fail with one frame for both sides. -/
theorem tracks_choice {right right' : State S → Except Stop (Reply × State S)}
    (hright : ∀ st st', Beside K.Rel depth st st' →
      Tracks cut (Paired (Beside K.Rel depth)) (right st) (right' st')) :
    Tracks cut (Paired (Beside K.Rel depth)) (choice run right st) (choice run' right' st') := by
  obtain ⟨w, -⟩ := hst
  refine h.bind ?_
  rintro _ _ ⟨reply, ⟨w', h⟩⟩
  refine .ite (fun _ => .ok ⟨_, _, h⟩) fun _ => .ite (fun _ => .ok ⟨_, _, h⟩) fun _ => ?_
  refine (hright _ _ ⟨w', h⟩).bind ?_
  rintro _ _ ⟨reply, ⟨w'', h⟩⟩
  cases reply with
  | ok => exact (tracks_lift hcut (Frame.tracks_discardUnder h 1)).bind fun _ _ h => .ok ⟨_, _, h⟩
  | err => exact (tracks_lift hcut (Frame.tracks_mergeTop h)).bind fun _ _ h => .ok ⟨_, _, h⟩

/-- Both labels have the same name, or there is none. -/
theorem tracks_labelled {label label' : Option Nat}
    (hlabel : Option.Rel (fun i j => ∃ c, pool.HasAt i c ∧ pool'.HasAt j c) label label') :
    Tracks cut (Paired (Beside K.Rel depth)) (labelled run pool label st)
      (labelled run' pool' label' st') := by
  obtain ⟨w, -⟩ := hst
  refine h.bind ?_
  rintro _ _ ⟨reply, ⟨w', h⟩⟩
  refine .ite (fun _ => ?_) fun _ => .ok ⟨_, _, h⟩
  refine (tracks_lift hcut (Frame.tracks_stripExpected h)).bind fun s t h => ?_
  cases hlabel with
  | none => exact .ok ⟨_, _, h⟩
  | some hname =>
    obtain ⟨c, hi, hj⟩ := hname
    exact (tracks_lift hcut (Frame.tracks_relabel h hi hj)).bind fun _ _ h => .ok ⟨_, _, h⟩

/-- Both machines turn the reply of a block around. -/
theorem tracks_notFollowedBy : Tracks cut (Paired (Beside K.Rel depth)) (notFollowedBy run st)
    (notFollowedBy run' st') := by
  obtain ⟨w, -⟩ := hst
  refine h.bind ?_
  rintro _ _ ⟨reply, ⟨w', h⟩⟩
  cases reply with
  | ok =>
    refine (tracks_lift hcut h.pop).bind fun s t h => tracks_lift hcut ?_
    refine tracks_refuse ⟨_, h⟩ fun s t h => ?_
    exact .ite (fun _ => Frame.tracks_unexpectedSpan h _) fun _ => Frame.tracks_unexpected h _
  | err =>
    refine (tracks_lift hcut (Frame.tracks_discard h)).bind fun s t h => ?_
    exact (tracks_lift hcut (h.push ())).bind fun _ _ h => .ok ⟨_, _, h⟩

omit hst in
/-- Both machines push what a block ended in, the same value or the same error. -/
theorem tracks_observing : Tracks cut (Paired (Beside K.Rel depth)) (observing run st)
    (observing run' st') := by
  refine h.bind ?_
  rintro _ _ ⟨reply, ⟨w', h⟩⟩
  cases reply with
  | ok =>
    simp only [topDatum?_congr h]
    refine .bindSame fun d _ => ?_
    cases d with
    | none => exact .failed _
    | some d =>
      refine (tracks_lift hcut h.pop).bind fun s t h => ?_
      exact (tracks_lift hcut (h.pushObject _)).bind fun _ _ h => .ok ⟨_, _, h⟩
  | err =>
    refine (tracks_lift hcut (Frame.tracks_popError h w')).bind ?_
    rintro _ _ ⟨e, h⟩
    exact (tracks_lift hcut (h.pushObject _)).bind fun _ _ h => .ok ⟨_, _, h⟩

end Blocks

/-- The program that was pushed is run. -/
theorem tracks_runMade {rules : Grammar S} {run run' : BlockRunner S}
    (hcut : ∀ f, K.excused f → cut (.fault f)) (hrun : Lockstep K cut rules depth run run')
    (h : Beside (Applied K rules) depth st st') :
    Tracks cut (Paired (Beside K.Rel depth)) (runMade run st) (runMade run' st') := by
  cases h with
  | @intro w s t h =>
    cases h with
    | @intro o cells h ho =>
      have top : (s.peekObject? : Option (Program S)) = Boxed.unbox o := h.left.peekObject?_cons
      simp only [runMade, Stack.takeObject?, h.rel.peekObject?_eq, top]
      -- Only a program is taken off and run, and one that lies here was built of a parser.
      cases o with
      | program code pool =>
        obtain ⟨k, p, bytes, poolCells, hprogram, hcode⟩ := ho code pool rfl
        have taken : Tracks K.excused
            (fun x y => ∃ s t, x = some (⟨code, pool⟩, s) ∧ y = some (⟨code, pool⟩, t) ∧ K.Rel s t)
            (do return some ((⟨code, pool⟩ : Program S), ← s.pop))
            (do return some ((⟨code, pool⟩ : Program S), ← t.pop)) :=
          h.rel.pop.bind fun s t h => .ok ⟨s, t, rfl, rfl, h⟩
        refine (tracks_lift hcut taken).bind ?_
        rintro _ _ ⟨s, t, rfl, rfl, h⟩
        have bytes_eq := hprogram.code.bytes_eq
        simp only [bytes_eq]
        exact hrun p hprogram.pool hprogram.pool hcode (fun _ _ h => h) ⟨w, h⟩
      | datum | label | complaint | predicate | mapping | binder | projection | cursor =>
        exact .failed _

end Machine

end ParserMachine
