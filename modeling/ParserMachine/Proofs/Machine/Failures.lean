import Mathlib.Data.List.Forall2
import ParserMachine.Parser.Evaluation
import ParserMachine.Proofs.Items
import ParserMachine.Proofs.Machine.Frames

/-!
# What error frames tell

A group of a frame tells a `Note`: an expected item, an unexpected one, or a complaint. Items are told
by constants and by spans of the input, so what a payload tells depends on the input (`Tells`). The
notes of a frame and its cursor make up a `Failure` (`failureOf`), and `Shows input f cells` says that
the cells are a frame which tells the failure `f`.

The machine edits frames, the evaluator failures. Each theorem here is one operation of either:

* `mergeTop_shows`: merging frames is `Failure.merge`.
* `stripExpected_shows`, `relabel_shows`: relabelling is `Failure.renamed`.
* `popError_shows`: what is read of a frame is `Failure.error`.

`Open` is a frame that is being built, of what was told so far.
-/

set_option autoImplicit false

namespace ParserMachine

variable {S : Signature}

/-- What a group of a frame tells. -/
inductive Note (S : Signature) where
  | expected (item : Item S.Token)
  | unexpected (item : Item S.Token)
  | complaint (c : Complaint S.Custom)

/-- Whether a note tells an expected item. -/
def Note.isExpected : Note S → Bool
  | expected _ => true
  | _ => false

/-- A failure with a further note. -/
def Failure.record (note : Note S) (f : Failure S) : Failure S :=
  match note with
  | .expected item => { f with expected := f.expected.insert item }
  | .unexpected item => { f with unexpected := Item.greater? (some item) f.unexpected }
  | .complaint c => { f with complaints := f.complaints ++ [c] }

namespace Frame

/-- The failure at a place of which the given notes were taken, newest first. -/
def failureOf (place : Cursor) (notes : List (Note S)) : Failure S :=
  notes.foldr Failure.record { place }

/-- The payload tells the item, in the given input. -/
inductive Tells (input : Input S.Token) :
    ItemKind → List (Cell (Object S)) → Item S.Token → Prop where
  | token (t : S.Token) : Tells input .token [.ofValue t] (.token t)
  | span {span : Span} {run : List S.Token} (h : span.of input = .ok run) :
    Tells input .tokens [.ofValue span] (.tokens run)
  | run (ts : List S.Token) : Tells input .tokens [.object (.datum (.run ts))] (.tokens ts)
  | label (name : String) : Tells input .label [.object (.label name)] (.label name)
  | endOfInput : Tells input .endOfInput [] .endOfInput

/-- The group tells the note, in the given input. -/
inductive Notes (input : Input S.Token) (g : Group S) : Note S → Prop where
  | expected {kind : ItemKind} {item : Item S.Token} (hm : g.marker = .expected kind)
      (h : Tells input kind g.payload item) : Notes input g (.expected item)
  | unexpected {kind : ItemKind} {item : Item S.Token} (hm : g.marker = .unexpected kind)
      (h : Tells input kind g.payload item) : Notes input g (.unexpected item)
  | complaint {c : Complaint S.Custom} (hm : g.marker = .fancy)
      (h : g.payload = [.object (.complaint c)]) : Notes input g (.complaint c)

/-- The cells are a frame that tells the failure. -/
def Shows (input : Input S.Token) (f : Failure S) (cells : List (Cell (Object S))) : Prop :=
  ∃ groups notes, cells = frame f.place groups ∧ List.Forall₂ (Notes input) groups notes ∧
    failureOf f.place notes = f

/-! ### Failures and their notes -/

/-- A frame without notes tells where a failure is, and nothing else. -/
@[simp] theorem failureOf_nil (place : Cursor) : (failureOf place [] : Failure S) = { place } := rfl

/-- The newest note is recorded after the others. -/
theorem failureOf_cons (place : Cursor) (note : Note S) (notes : List (Note S)) :
    failureOf place (note :: notes) = (failureOf place notes).record note := rfl

/-- Whatever the notes are, the failure is where the cursor of the frame says. -/
@[simp] theorem place_failureOf (place : Cursor) (notes : List (Note S)) :
    (failureOf place notes).place = place := by
  induction notes with
  | nil => rfl
  | cons note notes ih =>
    rw [failureOf_cons]
    cases note <;> exact ih

/-- Notes taken after others. -/
theorem failureOf_append (place place' : Cursor) (newer older : List (Note S)) :
    failureOf place (newer ++ older) =
      { place
        unexpected := Item.greater? (failureOf place newer).unexpected (failureOf place' older).unexpected
        expected := (failureOf place newer).expected ∪ (failureOf place' older).expected
        complaints := (failureOf place' older).complaints ++ (failureOf place newer).complaints } := by
  -- What is recorded last stands first, so the induction is on the notes taken later.
  induction newer with
  | nil =>
    induction older with
    | nil => simp
    | cons note older ih =>
      rw [List.nil_append] at ih ⊢
      rw [failureOf_cons, ih]
      cases note <;> simp [Failure.record, failureOf_cons]
  | cons note newer ih =>
    rw [List.cons_append, failureOf_cons, ih, failureOf_cons]
    cases note with
    | expected item => simp [Failure.record, SortedSet.insert_union_left]
    | unexpected item => simp [Failure.record, Item.greater?_assoc]
    | complaint c => simp [Failure.record]

/-- Frames become one as their failures do. -/
theorem failureOf_merge {left right : Cursor} (leftNotes rightNotes : List (Note S))
    (h : compare right.offset left.offset = .eq) :
    failureOf right (rightNotes ++ leftNotes) =
      (failureOf left leftNotes).merge (failureOf right rightNotes) := by
  rw [failureOf_append right left, Failure.merge]
  simp only [place_failureOf, h]
  rw [Item.greater?_comm, SortedSet.union_comm]

/-- Without the notes on expected items the failure expects nothing. -/
theorem failureOf_filter (place : Cursor) (notes : List (Note S)) :
    failureOf place (notes.filter (!·.isExpected)) = (failureOf place notes).renamed none := by
  induction notes with
  | nil => rfl
  | cons note notes ih =>
    rw [failureOf_cons]
    cases note with
    | expected item =>
      rw [List.filter_cons, if_neg (by simp [Note.isExpected]), ih]
      rfl
    | unexpected item | complaint c =>
      rw [List.filter_cons, if_pos (by simp [Note.isExpected]), failureOf_cons, ih]
      rfl

/-- A mark is one of an expected item just where its group notes one. -/
theorem Notes.isExpected_eq {input : Input S.Token} {g : Group S} {note : Note S}
    (h : Notes input g note) : g.marker.isExpected = note.isExpected := by
  cases h with
  | expected hm | unexpected hm | complaint hm => rw [hm]; rfl

/-- Dropping expected items from the groups drops the notes on them, and no others. -/
theorem forall₂_filter {input : Input S.Token} {groups : List (Group S)} {notes : List (Note S)}
    (h : List.Forall₂ (Notes input) groups notes) :
    List.Forall₂ (Notes input) (groups.filter (!·.marker.isExpected))
      (notes.filter (!·.isExpected)) := by
  induction h with
  | nil => exact .nil
  | cons head _ ih =>
    rw [List.filter_cons, List.filter_cons, head.isExpected_eq]
    split
    · exact .cons head ih
    · exact ih

/-! ### Reading -/

variable {input : Input S.Token} {s pool : Stack (Object S)} {cells rest : List (Cell (Object S))}
  {groups : List (Group S)} {notes : List (Note S)}

/-- The payload of an item is popped as the item that it tells. -/
theorem popItem_eq {kind : ItemKind} {payload : List (Cell (Object S))} {item : Item S.Token}
    (ht : Tells input kind payload item) (h : s.Holds (payload ++ rest)) :
    ∃ t, popItem input s kind = .ok (item, t) ∧ t.Holds rest := by
  cases ht with
  | token a =>
    obtain ⟨t, hpop, ht⟩ := Stack.Holds.popValue? h (Cell.value?_ofValue a)
    exact ⟨t, by simp only [popItem, hpop]; rfl, ht⟩
  | @span span run hspan =>
    obtain ⟨t, hpop, ht⟩ := Stack.Holds.popValue? h (Cell.value?_ofValue span)
    exact ⟨t, by simp only [popItem, hpop, hspan, bind, Except.bind]; rfl, ht⟩
  -- A run is told in two ways: by a span of the input, which this is not, or by an object.
  | run ts =>
    have inline := Stack.Holds.popValue?_eq_none (α := Span) h rfl
    obtain ⟨t, hpop, ht⟩ := Stack.Holds.takeObject? h
      (rfl : (Cell.object (Object.datum (.run ts))).boxed? = some ts)
    exact ⟨t, by simp only [popItem, inline, hpop, bind, Except.bind]; rfl, ht⟩
  | label name =>
    obtain ⟨t, hpop, ht⟩ := Stack.Holds.takeObject? h
      (rfl : (Cell.object (Object.label name : Object S)).boxed? = some name)
    exact ⟨t, by simp only [popItem, hpop]; rfl, ht⟩
  | endOfInput => exact ⟨s, rfl, h⟩

/-- What has been read of a frame with a further note, an older one. -/
def absorb (c : Contents S) : Note S → Contents S
  | .expected item => { c with expected := c.expected.insert item }
  | .unexpected item => { c with unexpected := Item.greater? c.unexpected (some item) }
  | .complaint complaint => { c with complaints := complaint :: c.complaints }

/-- Groups are popped as their notes say, down to the terminator. The bound need only be more than their
number. -/
theorem popContents_eq {bound : Nat} (hbound : groups.length < bound) (c : Contents S)
    (hg : List.Forall₂ (Notes input) groups notes) (h : s.Holds (body groups ++ rest)) :
    ∃ t, popContents input bound c s = .ok (notes.foldl absorb c, t) ∧ t.Holds rest := by
  -- On the groups with their notes, newest first; `c` is what was read before.
  induction hg generalizing bound c s with
  | nil =>
    obtain ⟨bound, rfl⟩ : ∃ b, bound = b + 1 := ⟨bound - 1, by omega⟩
    obtain ⟨t, hpop, ht⟩ := Stack.Holds.popValue? h (Cell.value?_ofValue Marker.terminator)
    exact ⟨t, by simp only [popContents, hpop]; rfl, ht⟩
  | @cons g note groups notes head _ ih =>
    obtain ⟨bound, rfl⟩ : ∃ b, bound = b + 1 := ⟨bound - 1, by omega⟩
    have hbound' : groups.length < bound := by simpa using hbound
    rw [body_cons, List.append_assoc] at h
    obtain ⟨t, hpop, ht⟩ := Stack.Holds.popValue? h (Cell.value?_ofValue g.marker)
    rw [List.foldl_cons]
    cases head with
    | @expected kind item hm hitem | @unexpected kind item hm hitem =>
      obtain ⟨u, hpopItem, hu⟩ := popItem_eq hitem ht
      obtain ⟨v, hrest, hv⟩ := ih hbound' (absorb c _) hu
      refine ⟨v, ?_, hv⟩
      rw [← hrest, popContents, hpop, hm]
      simp only [bind, Except.bind, hpopItem]
      rfl
    | @complaint complaint hm hpayload =>
      rw [hpayload] at ht
      obtain ⟨u, htake, hu⟩ := Stack.Holds.takeObject? ht
        (rfl : (Cell.object (Object.complaint complaint : Object S)).boxed? = some complaint)
      obtain ⟨v, hrest, hv⟩ := ih hbound' (absorb c _) hu
      refine ⟨v, ?_, hv⟩
      rw [← hrest, popContents, hpop, hm]
      simp only [bind, Except.bind, htake]
      rfl

/-- Reading the notes newest first comes to the failure that they were taken of, oldest first. -/
theorem foldl_absorb (place : Cursor) (notes : List (Note S)) (c : Contents S) :
    notes.foldl absorb c =
      { unexpected := Item.greater? c.unexpected (failureOf place notes).unexpected
        expected := c.expected ∪ (failureOf place notes).expected
        complaints := (failureOf place notes).complaints ++ c.complaints } := by
  -- What was read before is general: the first step changes it.
  induction notes generalizing c with
  | nil => simp
  | cons note notes ih =>
    rw [List.foldl_cons, ih, failureOf_cons]
    cases note with
    | expected item => simp [absorb, Failure.record, SortedSet.insert_union]
    | unexpected item => simp [absorb, Failure.record, Item.greater?_assoc]
    | complaint complaint => simp [absorb, Failure.record]

/-- What is read of a frame is the error that its failure comes to. -/
theorem popError_shows {reader : Reader S.Token} {f : Failure S} (hf : Shows reader.input f cells)
    (h : s.Holds (cells ++ rest)) :
    ∃ t, popError reader s = .ok (f.error reader.name, t) ∧ t.Holds rest := by
  obtain ⟨groups, notes, rfl, hg, hnotes⟩ := hf
  obtain ⟨t, hpop, ht⟩ := Stack.Holds.popValue? h (Cell.value?_ofValue f.place)
  replace ht : t.Holds (body groups ++ rest) := ht
  have bound : groups.length < t.count := by
    have := length_le_marked groups
    rw [ht.count_eq, List.length_append, length_body]
    omega
  obtain ⟨u, hcontents, hu⟩ := popContents_eq bound {} hg ht
  refine ⟨u, ?_, hu⟩
  have contents := foldl_absorb f.place notes {}
  rw [hnotes] at contents
  simp only [Item.greater?_none_left, SortedSet.empty_union, List.append_nil] at contents
  simp only [popError, hpop, hcontents, contents, bind, Except.bind, Failure.error]
  split <;> rfl

/-! ### Frames as a whole -/

variable {f g : Failure S} {above extra : List (Cell (Object S))}

/-- A frame that tells a failure is dropped as a whole. -/
theorem discard_shows (hf : Shows input f cells) (h : s.Holds (cells ++ rest)) :
    ∃ t, discard s = .ok t ∧ t.Holds rest := by
  obtain ⟨groups, notes, rfl, -, -⟩ := hf
  exact discard_frame h

/-- A frame that tells a failure is dropped as a whole from beneath other cells. -/
theorem discardUnder_shows (hf : Shows input f cells) (h : s.Holds (above ++ (cells ++ rest))) :
    ∃ t, discardUnder s above.length = .ok t ∧ t.Holds (above ++ rest) := by
  obtain ⟨groups, notes, rfl, -, -⟩ := hf
  exact discardUnder_frame h

/-- What a failed block left under a frame that tells its failure is dropped, and the frame stays. -/
theorem dropPartial_shows (hf : Shows input f cells) (h : s.Holds (cells ++ (extra ++ rest))) :
    ∃ t, Machine.dropPartial rest.length s = .ok t ∧ t.Holds (cells ++ rest) := by
  obtain ⟨groups, notes, rfl, -, -⟩ := hf
  exact dropPartial_frame h

/-- Two frames become one as their failures do, the upper one the second. -/
theorem mergeTop_shows {lower : List (Cell (Object S))} (hf : Shows input f lower)
    (hg : Shows input g cells) (h : s.Holds (cells ++ (lower ++ rest))) :
    ∃ t top, mergeTop s = .ok t ∧ Shows input (f.merge g) top ∧ t.Holds (top ++ rest) := by
  obtain ⟨leftGroups, leftNotes, rfl, hleft, hf⟩ := hf
  obtain ⟨rightGroups, rightNotes, rfl, hright, hg⟩ := hg
  obtain ⟨t, hmerge, ht⟩ := mergeTop_frames h
  refine ⟨t, _, hmerge, ?_, ht⟩
  rw [merged, Failure.merge]
  cases hcompare : compare g.place.offset f.place.offset with
  | gt => exact ⟨rightGroups, rightNotes, rfl, hright, hg⟩
  | lt => exact ⟨leftGroups, leftNotes, rfl, hleft, hf⟩
  | eq =>
    refine ⟨rightGroups ++ leftGroups, rightNotes ++ leftNotes, rfl, ?_, ?_⟩
    · exact List.rel_append hright hleft
    · show failureOf g.place (rightNotes ++ leftNotes) = _
      rw [failureOf_merge leftNotes rightNotes hcompare, hf, hg, Failure.merge, hcompare]

/-- Stripped of its expected items, a frame tells the failure without them. -/
theorem stripExpected_shows (hf : Shows input f cells) (h : s.Holds (cells ++ rest)) :
    ∃ t top, stripExpected s = .ok t ∧ Shows input (f.renamed none) top ∧ t.Holds (top ++ rest) := by
  obtain ⟨groups, notes, rfl, hg, hnotes⟩ := hf
  obtain ⟨t, hstrip, ht⟩ := stripExpected_frame h
  refine ⟨t, _, hstrip, ⟨_, _, rfl, forall₂_filter hg, ?_⟩, ht⟩
  show failureOf f.place _ = _
  rw [failureOf_filter, hnotes]

/-- A name is added to a frame that tells no expected item. -/
theorem relabel_shows {poolCells : List (Cell (Object S))} {id : Nat} {name : String}
    (hf : Shows input (f.renamed none) cells) (h : s.Holds (cells ++ rest))
    (hp : pool.Represents poolCells) (hc : poolCells[id]? = some (.object (.label name))) :
    Fits (relabel s pool id) fun t =>
      ∃ top, Shows input (f.renamed (some name)) top ∧ t.Holds (top ++ rest) := by
  obtain ⟨groups, notes, rfl, hg, hnotes⟩ := hf
  refine (relabel_frame h hp hc).mono fun t ht => ⟨_, ⟨_, .expected (.label name) :: notes, rfl, ?_, ?_⟩, ht⟩
  · exact .cons (.expected rfl (.label name)) hg
  · rw [failureOf_cons]
    exact congrArg (Failure.record _) hnotes

/-! ### Frames being built -/

/-- A frame without its cursor, of which the given notes have been taken. -/
def Open (input : Input S.Token) (s : Stack (Object S)) (notes : List (Note S))
    (cells : List (Cell (Object S))) : Prop :=
  ∃ groups, List.Forall₂ (Notes input) groups notes ∧ s.Holds (body groups ++ cells)

namespace Open

/-- A frame that was started notes nothing yet. -/
theorem start (h : s.Holds cells) : Fits (Frame.start s) (Open input · [] cells) :=
  (fits_start h).mono fun _ ht => ⟨[], .nil, ht⟩

/-- A frame that is closed tells the failure that its notes make up. -/
theorem close (h : Open input s notes cells) (place : Cursor) :
    Fits (Frame.close s place) fun t =>
      ∃ top, Shows input (failureOf place notes) top ∧ t.Holds (top ++ cells) := by
  obtain ⟨groups, hg, hs⟩ := h
  refine (fits_close hs place).mono fun t ht => ⟨_, ⟨groups, notes, ?_, hg, ?_⟩, ht⟩
  · rw [place_failureOf]
  · rw [place_failureOf]

/-- The end of the input is noted as unexpected. -/
theorem unexpectedEnd (h : Open input s notes cells) :
    Fits (Frame.unexpectedEnd s) (Open input · (.unexpected .endOfInput :: notes) cells) := by
  obtain ⟨groups, hg, hs⟩ := h
  exact (fits_bare hs rfl (by decide)).mono fun _ ht => ⟨_, .cons (.unexpected rfl .endOfInput) hg, ht⟩

/-- The end of the input is noted as expected. -/
theorem expectedEnd (h : Open input s notes cells) :
    Fits (Frame.expectedEnd s) (Open input · (.expected .endOfInput :: notes) cells) := by
  obtain ⟨groups, hg, hs⟩ := h
  exact (fits_bare hs rfl (by decide)).mono fun _ ht => ⟨_, .cons (.expected rfl .endOfInput) hg, ht⟩

/-- What the reader finds is added as unexpected. -/
theorem unexpected (h : Open input s notes cells) (w : Reader S.Token) :
    Fits (Frame.unexpected s w.peek?) (Open input · (.unexpected (Parser.nextItem w) :: notes) cells) := by
  rw [Parser.nextItem]
  cases w.peek? with
  | none => exact h.unexpectedEnd
  | some t =>
    obtain ⟨groups, hg, hs⟩ := h
    exact (fits_loaded hs t rfl).mono fun _ ht => ⟨_, .cons (.unexpected rfl (.token t)) hg, ht⟩

/-- A span is noted as the run of tokens that it spans. -/
theorem unexpectedSpan (h : Open input s notes cells) {span : Span} {run : List S.Token}
    (hspan : span.of input = .ok run) :
    Fits (Frame.unexpectedSpan s span) (Open input · (.unexpected (.tokens run) :: notes) cells) := by
  obtain ⟨groups, hg, hs⟩ := h
  exact (fits_loaded hs span rfl).mono fun _ ht => ⟨_, .cons (.unexpected rfl (.span hspan)) hg, ht⟩

variable {poolCells : List (Cell (Object S))} {id : Nat} {c : Cell (Object S)}

/-- A constant is added as an expected item. -/
theorem expected (h : Open input s notes cells) (hp : pool.Represents poolCells)
    (hc : poolCells[id]? = some c) {kind : ItemKind} {item : Item S.Token}
    (ht : Tells input kind [c] item) :
    Fits (Frame.expected s kind pool id) (Open input · (.expected item :: notes) cells) := by
  obtain ⟨groups, hg, hs⟩ := h
  have slots : (Marker.expected kind).payloadSlots = 1 := by cases ht <;> rfl
  exact (fits_loadedFrom hs hp hc slots).mono fun _ hs => ⟨_, .cons (.expected rfl ht) hg, hs⟩

/-- A constant is noted as a complaint. -/
theorem complaint (h : Open input s notes cells) (hp : pool.Represents poolCells)
    {complaint : Complaint S.Custom} (hc : poolCells[id]? = some (.object (.complaint complaint))) :
    Fits (Frame.complaint s pool id) (Open input · (.complaint complaint :: notes) cells) := by
  obtain ⟨groups, hg, hs⟩ := h
  exact (fits_loadedFrom hs hp hc rfl).mono fun _ hs => ⟨_, .cons (.complaint rfl rfl) hg, hs⟩

/-- Tokens are added as expected, one after the other. -/
theorem expectedEach (h : Open input s notes cells) (tokens : List S.Token) :
    Fits (Frame.expectedEach s tokens)
      (Open input · ((tokens.map (Note.expected ∘ .token)).reverse ++ notes) cells) := by
  obtain ⟨groups, hg, hs⟩ := h
  refine (fits_expectedEach hs tokens).mono fun t ht => ⟨_, ?_, ht⟩
  refine List.rel_append (List.forall₂_reverse_iff.2 ?_) hg
  rw [List.forall₂_map_left_iff, List.forall₂_map_right_iff, List.forall₂_same]
  intro t _
  exact .expected rfl (.token t)

end Open

end Frame

end ParserMachine
