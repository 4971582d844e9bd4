import ParserMachine.Machine.Run
import ParserMachine.Proofs.Stack.Holds

/-!
# The shape of error frames

A frame is a cursor, then marks with their payloads, newest first, then a terminator. A `Group` is a
mark with its payload, and `frame place groups` the cells of a frame. Nothing here looks into the
payloads: how many slots a mark describes is all that the machine needs to find its way.

`descends_body` is the way that the search for the end of a frame goes, mark by mark. `length_frame` says
that so the end is found wherever the frame lies on the stack, and from it follows what the machine does to
whole frames: `discard`, `discardUnder`, `mergeTop`, `dropPartial`.
`stripExpected` and `relabel` change the groups of one. What the groups tell is the subject of
`Proofs.Machine.Failures`.
-/

set_option autoImplicit false

namespace ParserMachine

variable {S : Signature}

/-- Whether a mark tells an expected item. -/
def Marker.isExpected : Marker → Bool
  | expected _ => true
  | _ => false

/-- A mark and the payload that it describes. -/
structure Group (S : Signature) where
  marker : Marker
  payload : List (Cell (Object S))
  length_payload : payload.length = marker.payloadSlots
  ne_terminator : marker ≠ .terminator

/-- The cells of a group, the mark on top. -/
def Group.cells (g : Group S) : List (Cell (Object S)) := .ofValue g.marker :: g.payload

/-- A group takes one slot for its mark and those of its payload. -/
theorem Group.length_cells (g : Group S) : g.cells.length = g.marker.payloadSlots + 1 := by
  rw [cells, List.length_cons, g.length_payload]

namespace Frame

/-- The cells of groups. -/
def marked (groups : List (Group S)) : List (Cell (Object S)) := groups.flatMap Group.cells

/-- The cells of a frame beneath its cursor. -/
def body (groups : List (Group S)) : List (Cell (Object S)) :=
  marked groups ++ [.ofValue Marker.terminator]

/-- The cells of a frame. -/
def frame (place : Cursor) (groups : List (Group S)) : List (Cell (Object S)) :=
  .ofValue place :: body groups

/-- The newest group lies on top of the others. -/
@[simp] theorem marked_cons (g : Group S) (groups : List (Group S)) :
    marked (g :: groups) = g.cells ++ marked groups := rfl

/-- The newest group lies on top of the others and of the terminator below them. -/
theorem body_cons (g : Group S) (groups : List (Group S)) :
    body (g :: groups) = g.cells ++ body groups := by
  rw [body, marked_cons, List.append_assoc, body]

/-- Beneath its cursor a frame has its groups and the terminator. -/
theorem length_body (groups : List (Group S)) : (body groups).length = (marked groups).length + 1 := by
  rw [body, List.length_append, List.length_singleton]

/-- A frame has a cursor and a terminator around its groups. -/
theorem length_frame_eq (place : Cursor) (groups : List (Group S)) :
    (frame place groups).length = (marked groups).length + 2 := by
  rw [frame, List.length_cons, length_body]

/-- Each group takes at least the slot of its mark, so there are no more groups than slots. -/
theorem length_le_marked (groups : List (Group S)) : groups.length ≤ (marked groups).length := by
  induction groups with
  | nil => exact Nat.le_refl 0
  | cons g groups ih =>
    rw [marked_cons, List.length_append, List.length_cons, g.length_cells]
    omega

variable {s pool : Stack (Object S)} {above rest extra : List (Cell (Object S))}
  {groups leftGroups rightGroups : List (Group S)} {place left right : Cursor}

/-! ### Building -/

section Building

variable {cells poolCells : List (Cell (Object S))} {c : Cell (Object S)} {id : Nat}

/-- A frame that was started has no groups yet, only its terminator. -/
theorem fits_start (h : s.Holds cells) : Fits (start s) (·.Holds (body [] ++ cells)) := h.push _

/-- The cursor closes a frame, whatever groups it has. -/
theorem fits_close (h : s.Holds (body groups ++ cells)) (place : Cursor) :
    Fits (close s place) (·.Holds (frame place groups ++ cells)) := h.push _

/-- A mark without payload. -/
def bare (marker : Marker) (h : marker.payloadSlots = 0) (h' : marker ≠ .terminator) : Group S :=
  ⟨marker, [], h.symm, h'⟩

/-- A mark with one payload. -/
def loaded (marker : Marker) (c : Cell (Object S)) (h : marker.payloadSlots = 1) : Group S :=
  ⟨marker, [c], h.symm, by rintro rfl; cases h⟩

/-- A mark without payload is one more group. -/
theorem fits_bare (h : s.Holds (body groups ++ cells)) {marker : Marker}
    (hslots : marker.payloadSlots = 0) (hne : marker ≠ .terminator) :
    Fits (s.push marker) (·.Holds (body (bare marker hslots hne :: groups) ++ cells)) := by
  rw [body_cons]
  exact h.push _

/-- A value and the mark that describes it are one more group. -/
theorem fits_loaded {α : Type} [Inline α] (h : s.Holds (body groups ++ cells)) (a : α)
    {marker : Marker} (hslots : marker.payloadSlots = 1) :
    Fits (s.push a >>= (·.push marker))
      (·.Holds (body (loaded marker (.ofValue a) hslots :: groups) ++ cells)) := by
  rw [body_cons]
  exact (h.push a).bind fun t ht => ht.push marker

/-- A constant and the mark that describes it are one more group, whatever the constant is. -/
theorem fits_loadedFrom (h : s.Holds (body groups ++ cells)) (hp : pool.Represents poolCells)
    (hc : poolCells[id]? = some c) {marker : Marker} (hslots : marker.payloadSlots = 1) :
    Fits (s.pushFrom pool id >>= (·.push marker))
      (·.Holds (body (loaded marker c hslots :: groups) ++ cells)) := by
  rw [body_cons]
  exact (h.pushFrom hp hc).bind fun t ht => ht.push marker

/-- Tokens are added one after the other, so the last one is on top. -/
theorem fits_expectedEach (h : s.Holds (body groups ++ cells)) (tokens : List S.Token) :
    Fits (expectedEach s tokens) (·.Holds (body
      ((tokens.map fun t => loaded (.expected .token) (.ofValue t) rfl).reverse ++ groups) ++
        cells)) := by
  induction tokens generalizing s groups with
  | nil => exact h
  | cons t tokens ih =>
    rw [expectedEach, List.foldlM_cons, List.map_cons, List.reverse_cons, List.append_assoc]
    exact (fits_loaded h t rfl).bind fun u hu => ih hu

end Building

/-! ### Measuring -/

/-- The way of the search for a terminator, from a depth down: the marks that it passes, each with its
payload, and the depth at which it ends. -/
inductive Descends (s : Stack (Object S)) : Nat → List Marker → Nat → Prop where
  | ends {depth : Nat}
      (h : Stack.atDepth depth (s.peekAt? depth) = .ok (some Marker.terminator)) :
      Descends s depth [] depth
  | passes {depth bottom : Nat} {mark : Marker} {marks : List Marker}
      (h : Stack.atDepth depth (s.peekAt? depth) = .ok (some mark)) (hne : mark ≠ .terminator)
      (hbelow : Descends s (depth + 1 + mark.payloadSlots) marks bottom) :
      Descends s depth (mark :: marks) bottom

/-- The search ends where its way does. -/
theorem terminatorDepth_of_descends {depth bottom : Nat} {marks : List Marker}
    (h : Descends s depth marks bottom) : terminatorDepth s depth = .ok bottom := by
  induction h with
  | ends h =>
    obtain ⟨inside, mark⟩ := Stack.of_atDepth_peekAt? h
    rw [terminatorDepth, if_pos inside, mark]
  | @passes depth bottom mark marks h hne _ ih =>
    obtain ⟨inside, found⟩ := Stack.of_atDepth_peekAt? h
    rw [terminatorDepth, if_pos inside, found]
    cases mark with
    | terminator => exact absurd rfl hne
    | expected | unexpected | fancy => exact ih

/-- From mark to mark, down to the terminator. -/
theorem descends_body (h : s.Holds (above ++ (body groups ++ rest))) :
    Descends s above.length (groups.map (·.marker)) (above.length + (marked groups).length) := by
  -- On the groups, as the search goes down them; what it has passed is `above`.
  induction groups generalizing above with
  | nil =>
    refine .ends ?_
    rw [Stack.Holds.atDepth_peekAt?_append h, Cell.value?_ofValue]
  | cons g groups ih =>
    rw [body_cons, List.append_assoc] at h
    have mark : Stack.atDepth above.length (s.peekAt? above.length) = .ok (some g.marker) := by
      rw [Stack.Holds.atDepth_peekAt?_append h, Cell.value?_ofValue]
    have below : s.Holds (above ++ g.cells ++ (body groups ++ rest)) := by
      rwa [List.append_assoc]
    have further : (above ++ g.cells).length = above.length + 1 + g.marker.payloadSlots := by
      rw [List.length_append, g.length_cells]
      omega
    have bottom : (above ++ g.cells).length + (marked groups).length =
        above.length + (marked (g :: groups)).length := by
      rw [marked_cons, List.length_append, List.length_append, Nat.add_assoc]
    have onward := ih below
    rw [bottom, further] at onward
    -- A group has no terminator for its mark: the search does not end early.
    exact .passes mark g.ne_terminator onward

/-- The place of a frame is told by its cursor, wherever the frame lies. -/
theorem place_eq (h : s.Holds (above ++ (frame place groups ++ rest))) :
    Frame.place s above.length = .ok place := by
  rw [Frame.place, Stack.Holds.peekAt?_append h, Cell.value?_ofValue]

/-- A frame is measured exactly, wherever it lies. -/
theorem length_frame (h : s.Holds (above ++ (frame place groups ++ rest))) :
    Frame.length s above.length = .ok (frame place groups).length := by
  have below : s.Holds (above ++ [.ofValue place] ++ (body groups ++ rest)) := by
    rw [List.append_assoc]
    exact h
  have begins : s.holds Cursor above.length = true :=
    Stack.Holds.holds_append h (Cell.value?_ofValue place)
  have found := terminatorDepth_of_descends (descends_body below)
  rw [List.length_append, List.length_singleton] at found
  simp only [Frame.length, begins, found]
  show Except.ok (above.length + 1 + (marked groups).length - above.length + 1) = _
  rw [length_frame_eq]
  congr 1
  omega

/-- The place of the frame on top is told by the top slot. -/
theorem place_top (h : s.Holds (frame place groups ++ rest)) : Frame.place s 0 = .ok place :=
  place_eq (show s.Holds ([] ++ (frame place groups ++ rest)) from h)

/-- The frame on top is measured exactly. -/
theorem length_top (h : s.Holds (frame place groups ++ rest)) :
    Frame.length s 0 = .ok (frame place groups).length :=
  length_frame (show s.Holds ([] ++ (frame place groups ++ rest)) from h)

/-! ### Whole frames -/

/-- Discarding takes the frame on top, all of it, and nothing else. -/
theorem discard_frame (h : s.Holds (frame place groups ++ rest)) :
    ∃ t, discard s = .ok t ∧ t.Holds rest := by
  have size := length_top h
  obtain ⟨t, hpop, ht⟩ := h.popAll
  refine ⟨t, ?_, ht⟩
  simp only [discard, size]
  exact hpop

/-- A frame is discarded from beneath other cells, all of it, and these keep their order. -/
theorem discardUnder_frame (h : s.Holds (above ++ (frame place groups ++ rest))) :
    ∃ t, discardUnder s above.length = .ok t ∧ t.Holds (above ++ rest) := by
  have size := length_frame h
  rw [← List.append_assoc] at h
  obtain ⟨t, hdrop, ht⟩ := h.dropUnder
  refine ⟨t, ?_, ht⟩
  simp only [discardUnder, size]
  exact hdrop

/-- The groups of the frame that two frames on top of each other become. -/
def merged (left right : Cursor) (leftGroups rightGroups : List (Group S)) :
    List (Cell (Object S)) :=
  match compare right.offset left.offset with
  | .gt => frame right rightGroups
  | .lt => frame left leftGroups
  | .eq => frame right (rightGroups ++ leftGroups)

/-- Two frames on top of each other become one, and what is below stays as it is. -/
theorem mergeTop_frames (h : s.Holds (frame right rightGroups ++ (frame left leftGroups ++ rest))) :
    ∃ t, mergeTop s = .ok t ∧ t.Holds (merged left right leftGroups rightGroups ++ rest) := by
  have rightLength := length_top h
  have rightPlace := place_top h
  have leftLength := length_frame h
  have leftPlace := place_eq h
  simp only [mergeTop, rightLength, rightPlace, leftLength, leftPlace, merged, bind, Except.bind]
  cases compare right.offset left.offset with
  | gt => exact Stack.Holds.dropUnder (by rwa [List.append_assoc])
  | lt => exact h.popAll
  | eq =>
    -- The terminator of the upper frame and the cursor of the lower one lie in between.
    have inner : s.Holds ((.ofValue right :: marked rightGroups) ++
        [.ofValue Marker.terminator, .ofValue left] ++ (body leftGroups ++ rest)) := by
      simpa [frame, body] using h
    obtain ⟨t, hdrop, ht⟩ := inner.dropUnder
    have size : (frame right rightGroups).length - 1 =
        (Cell.ofValue right :: marked rightGroups).length := by
      rw [length_frame_eq, List.length_cons]
      omega
    refine ⟨t, by rw [size]; exact hdrop, ?_⟩
    simpa [frame, body, marked] using ht

/-- What a failed block left under its frame is dropped. -/
theorem dropPartial_frame (h : s.Holds (frame place groups ++ (extra ++ rest))) :
    ∃ t, Machine.dropPartial rest.length s = .ok t ∧ t.Holds (frame place groups ++ rest) := by
  have size := length_top h
  have total := h.count_eq
  simp only [List.length_append] at total
  rw [← List.append_assoc] at h
  obtain ⟨t, hdrop, ht⟩ := h.dropUnder
  refine ⟨t, ?_, ht⟩
  simp only [Machine.dropPartial, size, bind, Except.bind]
  rw [if_neg (by omega), ← hdrop]
  congr 1
  omega

/-! ### Groups of a frame -/

/-- Expected items are dropped in one step for each group, and the end is found in a last one. -/
theorem stripFrom_body (h : s.Holds (above ++ (body groups ++ rest))) :
    ∃ t, (∀ bound, groups.length < bound → stripFrom bound s above.length = .ok t) ∧
      t.Holds (above ++ (body (groups.filter (!·.marker.isExpected)) ++ rest)) := by
  -- A group that is dropped changes the stack under the search.
  induction groups generalizing above s with
  | nil =>
    have mark : (s.peekAt? above.length : Option Marker) = some .terminator := by
      rw [Stack.Holds.peekAt?_append h, Cell.value?_ofValue]
    refine ⟨s, ?_, h⟩
    intro bound hbound
    obtain ⟨bound, rfl⟩ : ∃ b, bound = b + 1 := ⟨bound - 1, by omega⟩
    rw [stripFrom, mark]
  | cons g groups ih =>
    rw [body_cons, List.append_assoc] at h
    have mark : (s.peekAt? above.length : Option Marker) = some g.marker := by
      rw [Stack.Holds.peekAt?_append h, Cell.value?_ofValue]
    by_cases hexpected : g.marker.isExpected
    · -- The group is dropped, and the next one takes its place.
      obtain ⟨kind, hm⟩ : ∃ kind, g.marker = .expected kind := by
        cases hm : g.marker with
        | expected kind => exact ⟨kind, rfl⟩
        | unexpected | fancy | terminator =>
          rw [hm] at hexpected
          cases hexpected
      have size : 1 + kind.payloadSlots = g.cells.length := by
        rw [g.length_cells, hm, Nat.add_comm]
        rfl
      rw [← List.append_assoc] at h
      obtain ⟨t, hdrop, ht⟩ := h.dropUnder
      obtain ⟨u, hstrip, hu⟩ := ih ht
      rw [List.filter_cons, if_neg (by simp [hexpected])]
      refine ⟨u, ?_, hu⟩
      intro bound hbound
      rw [List.length_cons] at hbound
      obtain ⟨bound, rfl⟩ : ∃ b, bound = b + 1 := ⟨bound - 1, by omega⟩
      rw [stripFrom, mark, hm]
      simp only [size, hdrop]
      exact hstrip bound (by omega)
    · -- The group is passed over.
      have further : above.length + 1 + g.marker.payloadSlots = (above ++ g.cells).length := by
        rw [List.length_append, g.length_cells]
        omega
      have below : s.Holds (above ++ g.cells ++ (body groups ++ rest)) := by
        rwa [List.append_assoc]
      obtain ⟨t, hstrip, ht⟩ := ih below
      rw [List.filter_cons, if_pos (by simp [hexpected]), body_cons]
      refine ⟨t, ?_, by simpa using ht⟩
      intro bound hbound
      rw [List.length_cons] at hbound
      obtain ⟨bound, rfl⟩ : ∃ b, bound = b + 1 := ⟨bound - 1, by omega⟩
      have passed := hstrip bound (by omega)
      rw [← further] at passed
      rw [stripFrom, mark]
      cases hm : g.marker with
      | terminator => exact absurd hm g.ne_terminator
      | expected kind =>
        rw [hm] at hexpected
        exact absurd rfl hexpected
      | unexpected | fancy =>
        rw [hm] at passed
        exact passed

/-- A stack has more slots than the frame on top has groups. -/
theorem length_lt_count (h : s.Holds (frame place groups ++ rest)) : groups.length < s.count := by
  have := length_le_marked groups
  rw [h.count_eq, List.length_append, length_frame_eq]
  omega

/-- The frame on top loses the groups of expected items. The others keep their order. -/
theorem stripExpected_frame (h : s.Holds (frame place groups ++ rest)) :
    ∃ t, stripExpected s = .ok t ∧
      t.Holds (frame place (groups.filter (!·.marker.isExpected)) ++ rest) := by
  obtain ⟨t, hstrip, ht⟩ :=
    stripFrom_body (show s.Holds ([.ofValue place] ++ (body groups ++ rest)) from h)
  exact ⟨t, hstrip s.count (length_lt_count h), ht⟩

/-- A name becomes the newest group of the frame on top, under the same cursor. -/
theorem relabel_frame {poolCells : List (Cell (Object S))} {c : Cell (Object S)} {id : Nat}
    (h : s.Holds (frame place groups ++ rest)) (hp : pool.Represents poolCells)
    (hc : poolCells[id]? = some c) :
    Fits (relabel s pool id)
      (·.Holds (frame place (loaded (.expected .label) c rfl :: groups) ++ rest)) := by
  obtain ⟨t, hpop, ht⟩ := Stack.Holds.popValue? h (Cell.value?_ofValue place)
  simp only [relabel, hpop]
  exact (fits_loadedFrom ht hp hc rfl).bind fun u hu => fits_close hu place

end Frame

end ParserMachine
