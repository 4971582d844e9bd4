import ParserMachine.Proofs.Complaints
import ParserMachine.Proofs.Machine.Failures
import ParserMachine.Proofs.Parse

/-!
# Merged frames and merged errors

There are two ways to the error of a choice both sides of which failed. The machine makes one frame of
the two on its stack and reads that; `ParseError.merge` combines errors that have been read already.
`Failure.error_merge` says that they come to the same: the error of merged failures is the merge of
their errors, except for its line and column. Where the frames lie at one offset, the machine keeps the
cursor of the upper one, and `ParseError.merge` the position of the error that it keeps. Equality of
errors does not see the difference; `ParseError.mergeChoice` is the merge with the machine's position.

`mergeTop_popError` says so of any two frames, `WellFormed` ones, on any stack. Such a frame may tell
expected items, unexpected ones and complaints in any number and order, and have any cursor.
-/

set_option autoImplicit false

namespace ParserMachine

/-! ### Errors -/

namespace ParseError

variable {ε τ : Type} [Token τ]

/-- An error is equal to itself, also where its complaints have an equality of their own. -/
theorem same_refl [BEq ε] [EquivBEq ε] (e : ParseError ε τ) : e.same e = true := by
  cases e with
  | trivial p u x => simp [same, Position.same]
  | fancy p complaints => simp [same, Position.same]

/-- Moving an error within one offset of one source makes no difference to its equality. -/
theorem same_withPosition [BEq ε] [EquivBEq ε] {e : ParseError ε τ} {p : Position}
    (h : p.same e.position = true) : (e.withPosition p).same e = true := by
  cases e with
  | trivial q u x => simpa [same, withPosition, position] using h
  | fancy q complaints => simpa [same, withPosition, position] using h

/-- A merged error is where one of the two was; no third position comes from anywhere. -/
theorem position_merge [BEq ε] (a b : ParseError ε τ) :
    (a.merge b).position = a.position ∨ (a.merge b).position = b.position := by
  unfold merge
  split
  · exact .inr rfl
  · exact .inl rfl
  · cases a with
    | trivial p u x =>
      cases b with
      | trivial => exact .inl rfl
      | fancy => exact .inr rfl
    | fancy p complaints => cases b <;> exact .inl rfl

/-- Errors of one offset merge at the position of the first, unless the second alone has complaints. -/
theorem position_merge_left [BEq ε] {a b : ParseError ε τ}
    (horder : compare a.position b.position = .eq) (h : a.isFancy = true ∨ b.isFancy = false) :
    (a.merge b).position = a.position := by
  unfold merge
  rw [horder]
  cases a with
  | fancy p complaints => cases b <;> rfl
  | trivial p u x =>
    cases b with
    | trivial => rfl
    | fancy => rcases h with h | h <;> cases h

/-- Which of two positions at one offset is kept makes no difference to equality. -/
theorem mergeChoice_same [BEq ε] [EquivBEq ε] {a b : ParseError ε τ}
    (hname : a.position.name = b.position.name) :
    (a.mergeChoice b).same (a.merge b) = true := by
  rw [mergeChoice]
  split
  · next hoffset =>
    refine same_withPosition ?_
    rcases position_merge a b with h | h <;> simp [h, Position.same, hname, hoffset]
  · exact same_refl _

end ParseError

namespace Failure

variable {S : Signature} (f g : Failure S) (name : String)

/-- The error of a failure is where the failure was, in the source that is named. -/
@[simp] theorem position_error : (f.error name).position = Position.ofCursor name f.place := by
  rw [error]
  split <;> rfl

/-- A merged failure is where the first one was only if that is strictly further on. -/
theorem place_merge :
    (f.merge g).place = if g.place.offset < f.place.offset then f.place else g.place := by
  have less : compare g.place.offset f.place.offset = .lt ↔ g.place.offset < f.place.offset :=
    compareOfLessAndEq_eq_lt
  simp only [merge, ← less]
  cases compare g.place.offset f.place.offset <;> rfl

/-- The positions of failures in one source are ordered by offset. -/
theorem compare_position : compare (f.error name).position (g.error name).position =
    (compare g.place.offset f.place.offset).swap := by
  rw [position_error, position_error]
  show (compare name name).then (compare f.place.offset g.place.offset) = _
  rw [Std.ReflOrd.compare_self, Std.OrientedOrd.eq_swap]
  rfl

/-- The errors of two failures have one offset just where their places do: offsets are words and compare
as numbers. -/
theorem offset_eq_iff : (f.error name).position.offset = (g.error name).position.offset ↔
    compare g.place.offset f.place.offset = .eq := by
  rw [position_error, position_error, Std.compare_eq_iff_eq]
  exact eq_comm

/-- The error of merged failures is the merge of their errors, at the position that the machine keeps. -/
theorem error_merge [EquivBEq S.Custom] :
    (f.merge g).error name = (f.error name).mergeChoice (g.error name) := by
  have order := compare_position f g name
  have tie := offset_eq_iff f g name
  unfold ParseError.mergeChoice ParseError.merge
  rw [order]
  cases hcompare : compare g.place.offset f.place.offset with
  | gt =>
    rw [if_neg (by rw [tie, hcompare]; decide), merge, hcompare]
    rfl
  | lt =>
    rw [if_neg (by rw [tie, hcompare]; decide), merge, hcompare]
    rfl
  | eq =>
    rw [if_pos (tie.2 hcompare), merge, hcompare, position_error]
    -- Whether there are complaints on either side tells which rule of the merge applies.
    cases hf : f.complaints with
    | nil =>
      cases hg : g.complaints with
      | nil => simp only [error, hf, hg]; rfl
      | cons c more => simp only [error, hf, hg]; rfl
    | cons c more =>
      cases hg : g.complaints with
      | nil => simp only [error, hf, hg, List.append_nil]; rfl
      | cons d rest =>
        -- The machine pools all at once, and the merge what was pooled on each side.
        simp only [error, hf, hg, Complaint.pool_append]
        show ParseError.fancy _ (Complaint.pool (Complaint.pool [] (c :: more)) (d :: rest)) =
          .fancy _ (Complaint.pool (Complaint.pool [] (c :: more)) (Complaint.pool [] (d :: rest)))
        rw [Complaint.pool_pool]

end Failure

/-! ### Frames -/

namespace Frame

variable {S : Signature} {input : Input S.Token}

/-- The cells are a frame with the given cursor, each group of which tells an expected item, an unexpected
one or a complaint. -/
def WellFormed (input : Input S.Token) (place : Cursor) (cells : List (Cell (Object S))) : Prop :=
  ∃ groups, cells = frame place groups ∧ ∀ g ∈ groups, ∃ note, Notes input g note

/-- If each group tells something, the groups of a frame tell something together. -/
theorem exists_notes {groups : List (Group S)} (h : ∀ g ∈ groups, ∃ note, Notes input g note) :
    ∃ notes, List.Forall₂ (Notes input) groups notes := by
  induction groups with
  | nil => exact ⟨[], .nil⟩
  | cons g groups ih =>
    obtain ⟨note, hnote⟩ := h g List.mem_cons_self
    obtain ⟨notes, hnotes⟩ := ih fun g hg => h g (List.mem_cons_of_mem _ hg)
    exact ⟨note :: notes, .cons hnote hnotes⟩

/-- A well-formed frame tells some failure, at its own cursor. -/
theorem WellFormed.exists_shows {place : Cursor} {cells : List (Cell (Object S))}
    (h : WellFormed input place cells) : ∃ f : Failure S, f.place = place ∧ Shows input f cells := by
  obtain ⟨groups, rfl, hgroups⟩ := h
  obtain ⟨notes, hnotes⟩ := exists_notes hgroups
  refine ⟨failureOf place notes, place_failureOf place notes, groups, notes, ?_, hnotes, ?_⟩
  · rw [place_failureOf]
  · rw [place_failureOf]

variable {reader : Reader S.Token} {s : Stack (Object S)} {left right : Cursor}
  {lower upper rest : List (Cell (Object S))}

/-- Two frames on top of a stack may be made one and then read, or be read one after the other and their
errors merged. Both take the frames off the stack and nothing else, and they give the same error. The
merged frame has the cursor that is further on, at one offset that of the upper frame; there the merged
errors are at the position of the lower one, unless the upper one alone has complaints. -/
theorem mergeTop_popError [EquivBEq S.Custom] (hleft : WellFormed reader.input left lower)
    (hright : WellFormed reader.input right upper) (h : s.Holds (upper ++ (lower ++ rest))) :
    ∃ first second merged : S.Error,
      (∃ t u, popError reader s = .ok (second, t) ∧ popError reader t = .ok (first, u) ∧
        u.Holds rest) ∧
      (∃ t u, mergeTop s = .ok t ∧ popError reader t = .ok (merged, u) ∧ u.Holds rest) ∧
      merged.same (first.merge second) = true ∧
      merged.position =
        Position.ofCursor reader.name (if right.offset < left.offset then left else right) ∧
      (right.offset = left.offset → first.isFancy = true ∨ second.isFancy = false →
        (first.merge second).position = Position.ofCursor reader.name left) := by
  -- Each frame tells a failure. Read apart, the two are merged as errors, and read as one they were before.
  obtain ⟨f, rfl, hf⟩ := hleft.exists_shows
  obtain ⟨g, rfl, hg⟩ := hright.exists_shows
  obtain ⟨t, second, ht⟩ := popError_shows hg h
  obtain ⟨u, first, hu⟩ := popError_shows hf ht
  obtain ⟨t', top, hmerge, hfg, ht'⟩ := mergeTop_shows hf hg h
  obtain ⟨u', merged, hu'⟩ := popError_shows hfg ht'
  refine ⟨f.error reader.name, g.error reader.name, (f.merge g).error reader.name,
    ⟨t, u, second, first, hu⟩, ⟨t', u', hmerge, merged, hu'⟩, ?_, ?_, ?_⟩
  · rw [Failure.error_merge]
    refine ParseError.mergeChoice_same ?_
    rw [Failure.position_error, Failure.position_error]
    rfl
  · rw [Failure.position_error, Failure.place_merge]
  · intro tie hcomplaints
    have order := Failure.compare_position f g reader.name
    rw [Std.compare_eq_iff_eq.2 tie] at order
    rw [ParseError.position_merge_left order hcomplaints, Failure.position_error]

/-! ### Two frames at one offset -/

/-- A letter that was found at the end of a line. -/
def foundFrame : List (Cell (Object .characters)) :=
  frame ⟨3, 1, 4⟩ [loaded (.unexpected .token) (.ofValue 'c') rfl]

/-- A complaint about the beginning of the next line, at the same offset. -/
def complaintFrame : List (Cell (Object .characters)) :=
  frame ⟨3, 2, 1⟩ [loaded .fancy (.object (.complaint (.fail "no letter"))) rfl]

/-- The frame of the letter is well formed, in whatever input: a token is told by itself. -/
theorem wellFormed_foundFrame (input : Input Char) : WellFormed input ⟨3, 1, 4⟩ foundFrame := by
  refine ⟨_, rfl, fun g hg => ?_⟩
  rw [List.mem_singleton.1 hg]
  exact ⟨_, .unexpected rfl (Tells.token (S := .characters) 'c')⟩

/-- The frame of the complaint is well formed, in whatever input. -/
theorem wellFormed_complaintFrame (input : Input Char) :
    WellFormed input ⟨3, 2, 1⟩ complaintFrame := by
  refine ⟨_, rfl, fun g hg => ?_⟩
  rw [List.mem_singleton.1 hg]
  exact ⟨_, .complaint rfl rfl⟩

/-- The stack on which both frames were pushed. -/
def clashing : Except Fault (Stack (Object .characters)) := do
  let s ← Frame.start .new
  let s ← Frame.close (← Frame.unexpected s (some 'c')) ⟨3, 1, 4⟩
  let s ← (← Frame.start s).pushObject (.complaint (.fail "no letter"))
  Frame.close (← s.push Marker.fancy) ⟨3, 2, 1⟩

/-- The two frames are built one on top of the other, unless the stack overflows. -/
theorem fits_clashing : Fits clashing (·.Holds (complaintFrame ++ (foundFrame ++ []))) := by
  have empty : (Stack.new : Stack (Object .characters)).Holds [] := Stack.represents_new
  refine (fits_start empty).bind fun s h => ?_
  refine ((h.push 'c').bind fun s h => h.push (Marker.unexpected .token)).bind fun s h => ?_
  refine (h.push (⟨3, 1, 4⟩ : Cursor)).bind fun s h => ?_
  refine (fits_start h).bind fun s h => ?_
  refine (h.pushObject _).bind fun s h => ?_
  exact (h.push Marker.fancy).bind fun s h => h.push (⟨3, 2, 1⟩ : Cursor)

/-- The complaint outweighs the letter, and the error is where the complaint is. -/
theorem mergeTop_popError_of_clashing : ∃ s, clashing = .ok s ∧ ∀ reader : Reader Char,
    ∃ first second merged : Signature.characters.Error,
      (∃ t u, popError reader s = .ok (second, t) ∧ popError reader t = .ok (first, u) ∧
        u.Holds []) ∧
      (∃ t u, mergeTop s = .ok t ∧ popError reader t = .ok (merged, u) ∧ u.Holds []) ∧
      merged.same (first.merge second) = true ∧
      merged.position = Position.ofCursor reader.name ⟨3, 2, 1⟩ := by
  have built : clashing.isOk = true := by decide +kernel
  cases h : clashing with
  | error f =>
    rw [h] at built
    cases built
  | ok s =>
    refine ⟨s, rfl, fun reader => ?_⟩
    obtain ⟨first, second, merged, apart, together, same, place, -⟩ :=
      mergeTop_popError (wellFormed_foundFrame reader.input) (wellFormed_complaintFrame reader.input)
        (fits_clashing.post_of_eq_ok h)
    exact ⟨first, second, merged, apart, together, same, place⟩

end Frame

end ParserMachine
