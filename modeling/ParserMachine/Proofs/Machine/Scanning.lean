import ParserMachine.Proofs.Machine.Frames
import ParserMachine.Proofs.Parse

/-!
# Frames among other slots

A stack does not say where an error frame ends. The machine finds out: from the cursor it goes down from
mark to mark, and skips below each as many slots as the mark has for its payload. This goes well only if
whatever was added to a frame agrees with what is skipped, and then it does not matter what the payloads
are, what lies on the frame, and what lies below it, even if these look like marks and cursors themselves.

An `Addition` is one call on a frame that has been started, and `build` starts a frame, makes any number of
such calls, and closes it. `Delimited` says of cells that they are found and measured as one frame wherever
they lie on a stack, and that the machine drops them, or what is beneath them, without touching other slots.
`delimited_build` says that all that is built is delimited. One addition puts groups with its own marks on
those that there are (`Addition.yields_onStack`), so a run of additions puts those of all of them there
(`yields_additions`), and the cells of such groups are delimited (`delimited_frame`).
-/

set_option autoImplicit false

namespace ParserMachine.Frame

variable {S : Signature}

/-! ### Additions -/

/-- What can be added to a frame that was started. A constant is told by its index in a pool. -/
inductive Addition (S : Signature) where
  /-- A token, or the end of the input, as unexpected. -/
  | unexpected (found : Option S.Token)
  /-- A run of the input as unexpected. -/
  | unexpectedSpan (span : Span)
  | unexpectedEnd
  | expectedEnd
  /-- A constant as an expected item, of a kind that has a payload. -/
  | expected (kind : ItemKind) (hslots : kind.payloadSlots = 1) (pool : Stack (Object S)) (id : Nat)
  /-- Each of some tokens as expected. -/
  | expectedEach (tokens : List S.Token)
  /-- A constant as a complaint. -/
  | complaint (pool : Stack (Object S)) (id : Nat)

namespace Addition

/-- The addition to the frame that was started on top of a stack. -/
def onStack (s : Stack (Object S)) : Addition S → Except Fault (Stack (Object S))
  | unexpected found => Frame.unexpected s found
  | unexpectedSpan span => Frame.unexpectedSpan s span
  | unexpectedEnd => Frame.unexpectedEnd s
  | expectedEnd => Frame.expectedEnd s
  | expected kind _ pool id => Frame.expected s kind pool id
  | expectedEach tokens => Frame.expectedEach s tokens
  | complaint pool id => Frame.complaint s pool id

/-- The pool that a constant is taken of. -/
def pool? : Addition S → Option (Stack (Object S))
  | expected _ _ pool _ | complaint pool _ => some pool
  | _ => none

/-- The marks of an addition, newest first. -/
def marks : Addition S → List Marker
  | unexpected (some _) => [.unexpected .token]
  | unexpected none | unexpectedEnd => [.unexpected .endOfInput]
  | unexpectedSpan _ => [.unexpected .tokens]
  | expectedEnd => [.expected .endOfInput]
  | expected kind .. => [.expected kind]
  | expectedEach tokens => tokens.map fun _ => .expected .token
  | complaint .. => [.fancy]

end Addition

/-- Starts a frame, adds to it, and closes it. -/
def build (s : Stack (Object S)) (additions : List (Addition S)) (place : Cursor) :
    Except Fault (Stack (Object S)) := do
  close (← additions.foldlM Addition.onStack (← start s)) place

/-- The marks of some additions, those of the last one first. -/
def marks (additions : List (Addition S)) : List Marker := additions.reverse.flatMap Addition.marks

/-- How many slots a frame with the given marks takes. The cursor and the terminator are two of them. -/
def slots (marks : List Marker) : Nat := marks.foldr (fun mark n => mark.payloadSlots + 1 + n) 2

/-- What can keep a frame from being built: the stack overflows, or a pool has no such constant. -/
def Unbuilt (fault : Fault) : Prop := fault.IsOverflow ∨ fault = .corrupted .slotPastTop

/-! ### Cells that are told from others -/

/-- The cells are found, measured and dropped as one frame with the given cursor and marks, wherever they lie
on a stack and whatever else lies there. -/
structure Delimited (place : Cursor) (marks : List Marker) (cells : List (Cell (Object S))) :
    Prop where
  size : cells.length = slots marks
  cursor {s : Stack (Object S)} {kept rest : List (Cell (Object S))}
    (h : s.Holds (kept ++ (cells ++ rest))) :
    Stack.atDepth kept.length (s.peekAt? kept.length) = .ok (some place)
  /-- The search passes the marks, each of them once and nothing else, and ends in the lowest slot. -/
  descends {s : Stack (Object S)} {kept rest : List (Cell (Object S))}
    (h : s.Holds (kept ++ (cells ++ rest))) :
    Descends s (kept.length + 1) marks (kept.length + (cells.length - 1))
  length {s : Stack (Object S)} {kept rest : List (Cell (Object S))}
    (h : s.Holds (kept ++ (cells ++ rest))) : Frame.length s kept.length = .ok cells.length
  discard {s : Stack (Object S)} {rest : List (Cell (Object S))} (h : s.Holds (cells ++ rest)) :
    ∃ t, Frame.discard s = .ok t ∧ t.Holds rest
  discardUnder {s : Stack (Object S)} {kept rest : List (Cell (Object S))}
    (h : s.Holds (kept ++ (cells ++ rest))) :
    ∃ t, Frame.discardUnder s kept.length = .ok t ∧ t.Holds (kept ++ rest)
  /-- What lies beneath is dropped down to the slots that a block has found. -/
  dropPartial {s : Stack (Object S)} {left base : List (Cell (Object S))}
    (h : s.Holds (cells ++ (left ++ base))) :
    ∃ t, Machine.dropPartial base.length s = .ok t ∧ t.Holds (cells ++ base)

variable {s pool : Stack (Object S)} {rest : List (Cell (Object S))} {groups : List (Group S)}
  {additions : List (Addition S)}

/-- A frame has as many cells as its marks ask for. -/
theorem length_frame_eq_slots (place : Cursor) (groups : List (Group S)) :
    (frame place groups).length = slots (groups.map (·.marker)) := by
  rw [length_frame_eq]
  induction groups with
  | nil => rfl
  | cons g groups ih =>
    rw [marked_cons, List.length_append, g.length_cells, Nat.add_assoc, ih]
    rfl

/-- The cells of a frame are delimited, whatever its payloads are. -/
theorem delimited_frame (place : Cursor) (groups : List (Group S)) :
    Delimited place (groups.map (·.marker)) (frame place groups) where
  size := length_frame_eq_slots place groups
  cursor h := by
    rw [Stack.Holds.atDepth_peekAt?_append h, Cell.value?_ofValue]
  descends {s kept rest} h := by
    have below : s.Holds (kept ++ [.ofValue place] ++ (body groups ++ rest)) := by
      rwa [List.append_assoc]
    have way := descends_body below
    have bottom : kept.length + 1 + (marked groups).length =
        kept.length + ((frame place groups).length - 1) := by
      rw [length_frame_eq]
      omega
    rwa [List.length_append, List.length_singleton, bottom] at way
  length h := length_frame h
  discard h := discard_frame h
  discardUnder h := discardUnder_frame h
  dropPartial h := dropPartial_frame h

/-! ### Building -/

/-- Groups with the given marks lie on those that there were. -/
def Adds (marks : List Marker) (groups : List (Group S)) (rest : List (Cell (Object S)))
    (t : Stack (Object S)) : Prop :=
  ∃ more : List (Group S), more.map (·.marker) = marks ∧ t.Holds (body (more ++ groups) ++ rest)

/-- Groups that are pushed on those of a frame add their marks, unless a push overflows. -/
theorem yields_adds {x : Except Fault (Stack (Object S))} (more : List (Group S))
    (h : Fits x (·.Holds (body (more ++ groups) ++ rest))) :
    Yields Unbuilt x (Adds (more.map (·.marker)) groups rest) :=
  (h.mono fun _ ht => ⟨more, rfl, ht⟩).weaken fun _ => .inl

/-- A constant with its mark becomes a group, whatever cell it is. -/
theorem yields_constant (h : s.Holds (body groups ++ rest))
    (hp : ∃ constants, pool.Represents constants) {marker : Marker} (hslots : marker.payloadSlots = 1)
    (id : Nat) :
    Yields Unbuilt (s.pushFrom pool id >>= (·.push marker)) (Adds [marker] groups rest) := by
  obtain ⟨constants, hp⟩ := hp
  cases hc : constants[id]? with
  | none =>
    rw [Stack.pushFrom_eq_error hp (List.getElem?_eq_none_iff.1 hc)]
    exact .inr rfl
  | some c => exact yields_adds [loaded marker c hslots] (fits_loadedFrom h hp hc hslots)

/-- An addition puts groups with its marks on those that there are. -/
theorem Addition.yields_onStack (a : Addition S) (h : s.Holds (body groups ++ rest))
    (hpool : ∀ pool ∈ a.pool?, ∃ constants, pool.Represents constants) :
    Yields Unbuilt (a.onStack s) (Adds a.marks groups rest) := by
  have atEnd : Yields Unbuilt (Frame.unexpectedEnd s) (Adds [.unexpected .endOfInput] groups rest) :=
    yields_adds [_] (fits_bare h rfl (by decide))
  cases a with
  | unexpected found =>
    cases found with
    | none => exact atEnd
    | some t =>
      exact yields_adds [_] (fits_loaded h t (rfl : (Marker.unexpected .token).payloadSlots = 1))
  | unexpectedSpan span =>
    exact yields_adds [_] (fits_loaded h span (rfl : (Marker.unexpected .tokens).payloadSlots = 1))
  | unexpectedEnd => exact atEnd
  | expectedEnd =>
    exact yields_adds [bare (.expected .endOfInput) rfl (by decide)] (fits_bare h rfl (by decide))
  | expected kind hslots pool id =>
    have slots : (Marker.expected kind).payloadSlots = 1 := hslots
    exact yields_constant h (hpool pool rfl) slots id
  | expectedEach tokens =>
    have pushed := yields_adds _ (fits_expectedEach h tokens)
    rw [List.map_reverse, List.map_map] at pushed
    -- All marks are alike, so it does not matter that the last one is on top.
    have alike : (tokens.map ((fun g : Group S => g.marker) ∘ fun t =>
        loaded (.expected .token) (.ofValue t) rfl)).reverse =
        tokens.map fun _ => .expected .token := by
      simp only [Function.comp_def, loaded, List.map_const', List.reverse_replicate]
    rwa [alike] at pushed
  | complaint pool id => exact yields_constant h (hpool pool rfl) rfl id

/-- Additions put groups with all their marks on those that there are. -/
theorem yields_additions (h : s.Holds (body groups ++ rest))
    (hpools : ∀ a ∈ additions, ∀ pool ∈ a.pool?, ∃ constants, pool.Represents constants) :
    Yields Unbuilt (additions.foldlM Addition.onStack s) (Adds (marks additions) groups rest) := by
  -- On the additions, as they are made: each finds the groups of those before it.
  induction additions generalizing s groups with
  | nil => exact ⟨[], rfl, h⟩
  | cons a additions ih =>
    rw [List.foldlM_cons]
    refine (a.yields_onStack h (hpools a List.mem_cons_self)).bind ?_
    rintro t ⟨first, hfirst, ht⟩
    refine (ih ht fun b hb => hpools b (List.mem_cons_of_mem _ hb)).mono ?_
    rintro u ⟨more, hmore, hu⟩
    refine ⟨more ++ first, ?_, by rwa [List.append_assoc]⟩
    rw [List.map_append, hfirst, hmore, marks, marks, List.reverse_cons, List.flatMap_append,
      List.flatMap_singleton]

/-- A frame that is built on any stack, with any additions in any order, is delimited: it has the cursor that
it was closed with and the marks of its additions, and all slots that were pushed for it are its own. So it is
measured exactly, and dropped, or kept while other slots are dropped, whatever the stack held before, whatever
its payloads are, and whatever has been pushed on it. -/
theorem delimited_build (h : s.Holds rest)
    (hpools : ∀ a ∈ additions, ∀ pool ∈ a.pool?, ∃ constants, pool.Represents constants)
    (place : Cursor) :
    Yields Unbuilt (build s additions place) fun t =>
      ∃ cells, t.Holds (cells ++ rest) ∧ Delimited place (marks additions) cells := by
  -- A frame that was only started has no groups yet.
  refine ((fits_start h).weaken fun _ => .inl).bind fun t ht => ?_
  refine (yields_additions ht hpools).bind ?_
  rintro u ⟨groups, hmarks, hu⟩
  rw [List.append_nil] at hu
  refine ((fits_close hu place).weaken fun _ => .inl).mono fun v hv => ?_
  refine ⟨frame place groups, hv, ?_⟩
  rw [← hmarks]
  exact delimited_frame place groups

/-! ### A frame in disguise -/

/-- Constants that look like the bottom of a frame and like a mark in it. -/
def disguises : Except Fault (Stack (Object .characters)) := do
  (← Stack.new.push Marker.terminator).push (Marker.expected .label)

/-- Additions that have these for payloads, among others. -/
def disguised (pool : Stack (Object .characters)) : List (Addition .characters) :=
  [.unexpectedEnd, .expected .token rfl pool 0, .expectedEach ['a'], .complaint pool 1]

/-- A frame of four marks, two of them above what could be marks as well, on another frame and beneath a slot
that could be its bottom. -/
theorem delimited_build_of_disguised :
    ∃ (pool ground s t u : Stack (Object .characters)) (lower : List (Cell (Object .characters))),
      disguises = .ok pool ∧ ground.Holds [] ∧ build ground [] ⟨0, 1, 1⟩ = .ok s ∧ s.Holds lower ∧
      build s (disguised pool) ⟨0, 1, 1⟩ = .ok t ∧ t.push Marker.terminator = .ok u ∧
      Frame.length t 0 = .ok 9 ∧ Frame.length u 1 = .ok 9 ∧
      (∃ v, Frame.discard t = .ok v ∧ v.Holds lower) ∧
      (∃ v, Frame.discardUnder u 1 = .ok v ∧ v.Holds (.ofValue Marker.terminator :: lower)) ∧
      ∃ v, Machine.dropPartial 0 t = .ok v ∧ v.count = 9 := by
  -- There is room for both frames from the start: to move the bytes would take the evaluation longer.
  obtain ⟨ground, hground, u, hu⟩ : ∃ ground, ground.Holds [] ∧ ∃ u, (do
      let pool ← disguises
      let s ← build ground [] ⟨0, 1, 1⟩
      let t ← build s (disguised pool) ⟨0, 1, 1⟩
      t.push Marker.terminator) = .ok u :=
    ⟨.withCapacity 256, Stack.represents_withCapacity 256, exists_of_isOk (by decide +kernel)⟩
  obtain ⟨pool, hpool, hu⟩ := exists_of_bind_eq_ok hu
  obtain ⟨s, hs, hu⟩ := exists_of_bind_eq_ok hu
  obtain ⟨t, ht, hu⟩ := exists_of_bind_eq_ok hu
  have constants : ∃ cells, pool.Represents cells :=
    ⟨_, ((Stack.represents_new.push _).bind fun _ h => h.push _).post_of_eq_ok hpool⟩
  have pools : ∀ a ∈ disguised pool, ∀ p ∈ a.pool?, ∃ cells, p.Represents cells := by
    simp [disguised, Addition.pool?, constants]
  obtain ⟨beneath, hs', -⟩ := (delimited_build hground (by simp) ⟨0, 1, 1⟩).post_of_eq_ok hs
  obtain ⟨cells, ht', delimited⟩ := (delimited_build hs' pools ⟨0, 1, 1⟩).post_of_eq_ok ht
  have size : cells.length = 9 := delimited.size
  have hu' : u.Holds ([.ofValue Marker.terminator] ++ (cells ++ (beneath ++ []))) :=
    (ht'.push Marker.terminator).post_of_eq_ok hu
  refine ⟨pool, ground, s, t, u, _, hpool, hground, hs, hs', ht, hu, ?_, ?_, delimited.discard ht',
    delimited.discardUnder hu', ?_⟩
  · rw [← size]
    exact delimited.length (show t.Holds ([] ++ (cells ++ (beneath ++ []))) from ht')
  · rw [← size]
    exact delimited.length hu'
  · obtain ⟨v, dropped, hv⟩ := delimited.dropPartial ht'
    refine ⟨v, dropped, ?_⟩
    rw [hv.count_eq, List.append_nil, size]

end ParserMachine.Frame
