import ParserMachine.Proofs.Machine.Merging
import ParserMachine.Proofs.Stack.Overflow

/-!
# Relabelled frames

A `label` edits the error frame of the block in it where it lies. `stripExpected` looks through the frame
mark by mark and drops every expected item with its payload from under what lies above; `relabel` takes
the cursor off, adds the label as what was expected, and puts the cursor back. Nothing else in the frame
changes, and nothing below it.

What the edits come to is told of the errors that are read of the frame. `ParseError.renamed` is the
error with other expected items; an error of complaints has none, so it stays what it was.
`relabel_popError` says that relabelling frames is renaming errors, whatever items the frame tells and in
which order, and whether their payloads are values in the bytes of the stack or objects.
-/

set_option autoImplicit false

namespace ParserMachine

/-! ### Errors -/

/-- The error told by a name, or by none: nothing else is expected. Complaints are told as they are. -/
def ParseError.renamed {ε τ : Type} [Token τ] (e : ParseError ε τ) (label : Option String) :
    ParseError ε τ :=
  match e with
  | .trivial position unexpected _ =>
    .trivial position unexpected (.ofList (label.map Item.label).toList)
  | .fancy position complaints => .fancy position complaints

variable {S : Signature}

/-- The error of a renamed failure is the renamed error. -/
theorem Failure.error_renamed (f : Failure S) (label : Option String) (name : String) :
    (f.renamed label).error name = (f.error name).renamed label := by
  rw [error, error]
  show (if f.complaints.isEmpty then _ else _) = _
  split <;> rfl

/-- The error of a failure is fancy where the failure has complaints. -/
theorem Failure.isFancy_error (f : Failure S) (name : String) :
    (f.error name).isFancy = true ↔ f.complaints ≠ [] := by
  rw [error]
  cases f.complaints with
  | nil => simp [ParseError.isFancy]
  | cons c more => simp [ParseError.isFancy]

namespace Frame

variable {input : Input S.Token} {reader : Reader S.Token} {s pool : Stack (Object S)}
  {rest constants : List (Cell (Object S))} {groups : List (Group S)} {notes : List (Note S)}
  {place : Cursor} {id : Nat} {name : String}

/-- A frame tells complaints by its fancy marks. -/
theorem complaints_ne_nil_iff (hg : List.Forall₂ (Notes input) groups notes) :
    (failureOf place notes).complaints ≠ [] ↔ ∃ g ∈ groups, g.marker = .fancy := by
  induction hg with
  | nil => simp
  | @cons g note groups notes head _ ih =>
    rw [failureOf_cons, List.exists_mem_cons_iff, ← ih]
    cases head with
    | expected hm | unexpected hm => simp [Failure.record, hm]
    | complaint hm => simp [Failure.record, hm]

/-! ### Room for a label -/

/-- A cell takes its payload and an index entry. -/
theorem used_cons {t : Stack (Object S)} {c : Cell (Object S)} {cells : List (Cell (Object S))}
    (h : s.Holds (c :: cells)) (ht : t.Holds cells) :
    s.top + s.bottom = t.top + t.bottom + (c.payload.length + Stack.entrySize) := by
  rw [Stack.Represents.top_eq h, Stack.Represents.top_eq ht, Stack.bottom, Stack.bottom, h.count_eq,
    ht.count_eq, List.reverse_cons, Cell.arenaOf_append, List.length_append, List.length_cons,
    Nat.succ_mul]
  simp only [Cell.arenaOf_cons, Cell.arenaOf_nil, List.append_nil]
  omega

/-- The bytes that a label takes in a frame: the index entries of its name and its mark, and the mark. -/
def labelCost : Nat := 18

/-- To relabel a frame is to take its cursor off and to push three cells. -/
theorem relabel_eq (h : s.Holds (frame place groups ++ rest)) (hp : pool.Represents constants)
    (hc : constants[id]? = some (.object (.label name))) :
    ∃ t, s.pop = .ok t ∧ t.Holds (body groups ++ rest) ∧
      relabel s pool id =
        [.object (.label name), .ofValue (Marker.expected .label), .ofValue place].foldlM
          Stack.pushCell t := by
  obtain ⟨t, hpop, ht⟩ := Stack.Holds.pop h
  refine ⟨t, hpop, ht, ?_⟩
  have reads : (s.peek? : Option Cursor) = some place := by
    rw [Stack.Holds.peek?_cons h, Cell.value?_ofValue]
  have reopened : relabel s pool id = (do close (← expected t .label pool id) place) := by
    simp only [relabel, Stack.popValue?, reads, hpop]
    rfl
  rw [reopened]
  simp only [expected, close, hp.pushFrom_eq hc, Stack.push_eq, List.foldlM_cons, List.foldlM_nil,
    bind_pure, bind_assoc]

/-- Where index entries can tell all places below the limit, a frame is relabelled if there is room for
the label, and only then. -/
theorem exists_relabel_iff (h : s.Holds (frame place groups ++ rest)) (hlimit : s.limit ≤ objectFlag)
    (hp : pool.Represents constants) (hc : constants[id]? = some (.object (.label name))) :
    (∃ t, relabel s pool id = .ok t) ↔ s.top + s.bottom + labelCost ≤ s.limit := by
  obtain ⟨t, hpop, ht, pushes⟩ := relabel_eq h hp hc
  have limit := Stack.limit_of_pop hpop
  -- The room of the cursor is given back before it is taken again.
  have used := used_cons h ht
  rw [pushes, Stack.Represents.exists_pushCells_iff ht (by rwa [limit]) ?_, limit]
  · have label : (Cell.object (.label name) : Cell (Object S)).payload.length = 0 := rfl
    have mark : (Cell.ofValue (Marker.expected .label) : Cell (Object S)).payload.length = 10 := rfl
    have entry : Stack.entrySize = 4 := rfl
    simp only [List.map_cons, List.map_nil, List.sum_cons, List.sum_nil, label, mark, entry, labelCost,
      used]
    omega
  · simp only [List.forall_mem_cons]
    exact ⟨Cell.sized_object _, Cell.sized_ofValue _, Cell.sized_ofValue _, List.forall_mem_nil _⟩

/-! ### Relabelling and renaming -/

/-- A frame whose groups tell the notes tells the failure that they make, at the frame's cursor. -/
theorem shows_failureOf (hg : List.Forall₂ (Notes input) groups notes) :
    Shows input (failureOf place notes) (frame place groups) := by
  refine ⟨groups, notes, ?_, hg, ?_⟩
  · rw [place_failureOf]
  · rw [place_failureOf]

/-- The frame without what was expected tells the failure so. -/
theorem shows_stripped (hg : List.Forall₂ (Notes input) groups notes) :
    Shows input ((failureOf place notes).renamed none)
      (frame place (groups.filter (!·.marker.isExpected))) := by
  rw [← failureOf_filter]
  exact shows_failureOf (forall₂_filter hg)

/-- With a label on top, it tells the failure by that name. -/
theorem shows_labelled (hg : List.Forall₂ (Notes input) groups notes) (name : String) :
    Shows input ((failureOf place notes).renamed (some name))
      (frame place (loaded (.expected .label) (.object (.label name)) rfl ::
        groups.filter (!·.marker.isExpected))) := by
  have told : Notes input (loaded (.expected .label) (.object (.label name)) rfl)
      (.expected (.label name)) := .expected rfl (.label name)
  have recorded : (failureOf place notes).renamed (some name) =
      failureOf place (.expected (.label name) :: notes.filter (!·.isExpected)) := by
    rw [failureOf_cons, failureOf_filter]
    rfl
  rw [recorded]
  exact shows_failureOf (.cons told (forall₂_filter hg))

/-- A frame with items of any kinds, in any number and order, may be stripped of those that were expected,
and then be given a label. Stripping ends in one step for each of them and a last one, and leaves the
stack below and the other items of the frame as they were; the label becomes the one expected item, and
nothing but the room for it can be missing. What is read of the frame is at each stage the error that was
told before, renamed: its position stays what it was, and if there are complaints, so does all of it. -/
theorem relabel_popError (hgroups : ∀ g ∈ groups, ∃ note, Notes reader.input g note)
    (h : s.Holds (frame place groups ++ rest)) (hp : pool.Represents constants)
    (hc : constants[id]? = some (.object (.label name))) :
    ∃ e : S.Error,
      (∃ u, popError reader s = .ok (e, u) ∧ u.Holds rest) ∧
      e.position = Position.ofCursor reader.name place ∧
      (e.isFancy = true ↔ ∃ g ∈ groups, g.marker = .fancy) ∧
      ∃ t, stripExpected s = .ok t ∧
        (∀ bound, groups.length < bound → stripFrom bound s 1 = .ok t) ∧
        t.Holds (frame place (groups.filter (!·.marker.isExpected)) ++ rest) ∧
        (∃ u, popError reader t = .ok (e.renamed none, u) ∧ u.Holds rest) ∧
        (Fits (relabel t pool id) fun t' =>
          t'.Holds (frame place (loaded (.expected .label) (.object (.label name)) rfl ::
            groups.filter (!·.marker.isExpected)) ++ rest) ∧
          ∃ u, popError reader t' = .ok (e.renamed (some name), u) ∧ u.Holds rest) ∧
        (t.limit ≤ objectFlag →
          ((∃ t', relabel t pool id = .ok t') ↔ t.top + t.bottom + labelCost ≤ t.limit)) := by
  obtain ⟨notes, hnotes⟩ := exists_notes hgroups
  obtain ⟨u, before, hu⟩ := popError_shows (shows_failureOf hnotes) h
  refine ⟨(failureOf place notes).error reader.name, ⟨u, before, hu⟩, ?_, ?_, ?_⟩
  · rw [Failure.position_error, place_failureOf]
  · rw [Failure.isFancy_error, complaints_ne_nil_iff hnotes]
  -- The frame is stripped first, and what is left of it takes the label.
  obtain ⟨t, strips, ht⟩ :=
    stripFrom_body (show s.Holds ([.ofValue place] ++ (body groups ++ rest)) from h)
  refine ⟨t, strips s.count (length_lt_count h), strips, ht, ?_, ?_, ?_⟩
  · rw [← Failure.error_renamed]
    exact popError_shows (shows_stripped hnotes) ht
  · refine (relabel_frame ht hp hc).mono fun t' ht' => ⟨ht', ?_⟩
    rw [← Failure.error_renamed]
    exact popError_shows (shows_labelled hnotes name) ht'
  · intro hlimit
    exact exists_relabel_iff ht hlimit hp hc

/-! ### A frame of mixed items -/

/-- An unexpected token has its payload in one slot. -/
theorem payloadSlots_unexpected_token : (Marker.unexpected .token).payloadSlots = 1 := rfl

/-- What is expected as a token, as a run that is an object, and as the end of the input, which has no
payload; and a letter that was found. -/
def mixedGroups : List (Group .characters) :=
  [loaded (.expected .token) (.ofValue 'a') rfl,
    loaded (.expected .tokens) (.object (.datum (.run ['o', 'k']))) rfl,
    loaded (.unexpected .token) (.ofValue 'x') payloadSlots_unexpected_token,
    bare (.expected .endOfInput) rfl (by decide)]

/-- The stack on which the frame was pushed. -/
def mixed : Except Fault (Stack (Object .characters)) := do
  let s ← Frame.expectedEnd (← Frame.start .new)
  let s ← Frame.unexpected s (some 'x')
  let s ← (← s.pushObject (.datum (.run ['o', 'k']))).push (Marker.expected .tokens)
  let s ← (← s.push 'a').push (Marker.expected .token)
  Frame.close s ⟨0, 1, 1⟩

/-- The frame on the stack is made of its cursor and the groups above, unless a push overflows. -/
theorem fits_mixed : Fits mixed (·.Holds (frame ⟨0, 1, 1⟩ mixedGroups ++ [])) := by
  have empty : (Stack.new : Stack (Object .characters)).Holds [] := Stack.represents_new
  refine (fits_start empty).bind fun s h => ?_
  refine (h.push (Marker.expected .endOfInput)).bind fun s h => ?_
  refine ((h.push 'x').bind fun s h => h.push (Marker.unexpected .token)).bind fun s h => ?_
  refine (h.pushObject _).bind fun s h => ?_
  refine (h.push (Marker.expected .tokens)).bind fun s h => ?_
  refine (h.push 'a').bind fun s h => ?_
  exact (h.push (Marker.expected .token)).bind fun s h => h.push (⟨0, 1, 1⟩ : Cursor)

/-- Each of the groups tells something, whatever the input. -/
theorem mixedGroups_tell (input : Input Char) : ∀ g ∈ mixedGroups, ∃ note, Notes input g note := by
  simp only [mixedGroups, List.forall_mem_cons]
  exact ⟨⟨_, .expected rfl (Tells.token (S := .characters) 'a')⟩, ⟨_, .expected rfl (.run _)⟩,
    ⟨_, .unexpected rfl (Tells.token (S := .characters) 'x')⟩, ⟨_, .expected rfl .endOfInput⟩,
    List.forall_mem_nil _⟩

/-- The letter that was found is all that is left, until the name is added. -/
theorem relabel_popError_of_mixed : ∃ s pool, mixed = .ok s ∧
    (.new : Stack (Object .characters)).pushObject (.label "digit") = .ok pool ∧
    ∀ reader : Reader Char, ∃ (e : Signature.characters.Error) (t : Stack (Object .characters)),
      (∃ u, popError reader s = .ok (e, u) ∧ u.Holds []) ∧ e.isFancy = false ∧
      stripExpected s = .ok t ∧
      t.Holds (frame ⟨0, 1, 1⟩
        [loaded (.unexpected .token) (.ofValue 'x') payloadSlots_unexpected_token] ++ []) ∧
      (∃ u, popError reader t = .ok (e.renamed none, u) ∧ u.Holds []) ∧
      Fits (relabel t pool 0) fun t' =>
        ∃ u, popError reader t' = .ok (e.renamed (some "digit"), u) ∧ u.Holds [] := by
  obtain ⟨s, hs⟩ : ∃ s, mixed = .ok s := exists_of_isOk (by decide +kernel)
  obtain ⟨pool, hpool⟩ : ∃ pool,
      (.new : Stack (Object .characters)).pushObject (.label "digit") = .ok pool :=
    exists_of_isOk (by decide +kernel)
  refine ⟨s, pool, hs, hpool, ?_⟩
  intro reader
  have hp : pool.Represents [.object (.label "digit")] :=
    (Stack.represents_new.pushObject _).post_of_eq_ok hpool
  obtain ⟨e, before, -, fancy, t, strips, -, left, stripped, labelled, -⟩ :=
    relabel_popError (mixedGroups_tell reader.input) (fits_mixed.post_of_eq_ok hs) hp
      List.getElem?_cons_zero
  refine ⟨e, t, before, ?_, strips, left, stripped, labelled.mono fun t' h => h.2⟩
  rw [Bool.eq_false_iff, Ne, fancy]
  simp [mixedGroups, loaded, bare]

end Frame

end ParserMachine
