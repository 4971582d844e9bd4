import ParserMachine.Proofs.Choice
import ParserMachine.Proofs.Machine.Merging

/-!
# Errors of many failures

`ParseError.merge` keeps the later of two errors, and what both tell where they are at one place
(`ParseError.join`). It is associative and idempotent, in every field. So any number of errors may be
merged in any grouping.

`SumsUp` is what they come to. The error is at the greatest of their positions. If one of the errors
there has complaints, it has all that are complained of there, and otherwise the greatest of the
unexpected items and all of the expected ones. Errors are summed up one by one (`SumsUp.merge`). In
whatever order that is done, the results resemble one another (`SumsUp.resembles`).

Nothing is asked of the errors. They need not come from a run: their complaints may be told twice, and
their positions may be in different sources.
-/

set_option autoImplicit false

namespace ParserMachine

/-! ### The greatest item -/

namespace Item

variable {τ : Type} [Ord τ] [Std.TransOrd τ] {among among' : Item τ → Prop}
  {found found' : Option (Item τ)}

/-- The first of two items is not above the greater one. -/
theorem le_greater_left (a b : Item τ) : (compare a (a.greater b)).isLE = true := by
  rcases gt_or_isLE a b with h | h
  · rw [greater_of_gt h, Std.ReflOrd.compare_self]
    rfl
  · rw [greater_of_isLE h]
    exact h

/-- The second of two items is not above the greater one. -/
theorem le_greater_right (a b : Item τ) : (compare b (a.greater b)).isLE = true := by
  rcases gt_or_isLE a b with h | h
  · rw [greater_of_gt h]
    exact Ordering.isLE_of_eq_lt (Std.OrientedCmp.lt_of_gt h)
  · rw [greater_of_isLE h, Std.ReflOrd.compare_self]
    rfl

/-- The greatest of some items, or nothing if there are none. -/
structure Greatest (among : Item τ → Prop) (found : Option (Item τ)) : Prop where
  mem {item : Item τ} : found = some item → among item
  le {item : Item τ} : among item → ∃ top, found = some top ∧ (compare item top).isLE = true

namespace Greatest

/-- The greater one of the greatest of some items and of others is the greatest of all of them. -/
theorem greater? (h : Greatest among found) (h' : Greatest among' found') :
    Greatest (fun item => among item ∨ among' item) (Item.greater? found found') where
  mem hitem := (greater?_eq_some hitem).imp h.mem h'.mem
  le := by
    rintro item (hitem | hitem)
    · obtain ⟨top, rfl, hle⟩ := h.le hitem
      cases found' with
      | none => exact ⟨top, rfl, hle⟩
      | some other => exact ⟨_, rfl, Std.TransCmp.isLE_trans hle (le_greater_left top other)⟩
    · obtain ⟨top, rfl, hle⟩ := h'.le hitem
      cases found with
      | none => exact ⟨top, rfl, hle⟩
      | some other => exact ⟨_, rfl, Std.TransCmp.isLE_trans hle (le_greater_right other top)⟩

/-- There is at most one greatest item. -/
theorem unique [Std.LawfulEqOrd τ] (h : Greatest among found) (h' : Greatest among found') :
    found = found' := by
  cases found with
  | none =>
    cases found' with
    | none => rfl
    | some item =>
      obtain ⟨top, htop, -⟩ := h.le (h'.mem rfl)
      cases htop
  | some item =>
    obtain ⟨top, rfl, hle⟩ := h'.le (h.mem rfl)
    obtain ⟨top', htop', hle'⟩ := h.le (h'.mem rfl)
    cases htop'
    have same : compare item top = .eq := Std.OrientedCmp.isLE_antisymm hle hle'
    rw [Std.LawfulEqOrd.eq_of_compare same]

end Greatest

end Item

/-! ### The order of positions -/

namespace Position

variable {p q : Position}

instance instTransOrd : Std.TransOrd Position :=
  inferInstanceAs (Std.TransCmp (compareLex (compareOn Position.name)
    (compareOn fun p : Position => p.offset)))

/-- Positions that compare equal are the same place to any other. -/
theorem same_congr (h : compare p q = .eq) (x : Position) : x.same p = x.same q := by
  rw [Bool.eq_iff_iff, ← compare_eq_eq_iff_same, ← compare_eq_eq_iff_same,
    Std.TransCmp.congr_right h]

/-- A position is not the same as a later one. -/
theorem not_same_of_lt (h : compare p q = .lt) : ¬p.same q = true := by
  rw [← compare_eq_eq_iff_same, h]
  decide

end Position

namespace ParseError

variable {ε τ : Type} [Token τ] [BEq ε] {a b c e : ParseError ε τ}
  {errors errors' : List (ParseError ε τ)}

/-! ### Two errors -/

/-- What two errors of one place tell: the complaints of both, if there are any, or else the greater
unexpected item and the expected items of both. -/
def join : ParseError ε τ → ParseError ε τ → ParseError ε τ
  | trivial p u x, trivial _ u' x' => trivial p (Item.greater? u u') (x ∪ x')
  | fancy p cs, trivial .. => fancy p cs
  | trivial .., fancy p cs => fancy p cs
  | fancy p cs, fancy _ cs' => fancy p (Complaint.pool cs cs')

/-- Of two errors the second is told if it is later. -/
theorem merge_of_lt (h : compare a.position b.position = .lt) : a.merge b = b := by
  unfold merge
  rw [h]

/-- Of two errors the first is told if it is later. -/
theorem merge_of_gt (h : compare a.position b.position = .gt) : a.merge b = a := by
  unfold merge
  rw [h]

/-- Two errors of one place are told together. -/
theorem merge_of_eq (h : compare a.position b.position = .eq) : a.merge b = a.join b := by
  unfold merge
  rw [h]
  cases a <;> cases b <;> rfl

/-- The joined error is at the place of both. -/
theorem compare_join (h : compare a.position b.position = .eq) :
    compare a.position (a.join b).position = .eq ∧ compare b.position (a.join b).position = .eq := by
  have h' : compare b.position a.position = .eq := Std.OrientedCmp.eq_symm h
  rcases position_merge a b with hplace | hplace
  · rw [← merge_of_eq h, hplace]
    exact ⟨Std.ReflCmp.compare_self, h'⟩
  · rw [← merge_of_eq h, hplace]
    exact ⟨h, Std.ReflCmp.compare_self⟩

/-- The joined error has complaints if one of the two has. -/
theorem isFancy_join (a b : ParseError ε τ) : (a.join b).isFancy = (a.isFancy || b.isFancy) := by
  cases a <;> cases b <;> rfl

/-- Without complaints, the joined error tells the greater unexpected item. -/
theorem unexpected?_join (h : (a.join b).isFancy = false) :
    (a.join b).unexpected? = Item.greater? a.unexpected? b.unexpected? := by
  cases a <;> cases b <;> first | rfl | cases h

/-- Without complaints, the joined error expects what either does. -/
theorem expects_join (h : (a.join b).isFancy = false) (item : Item τ) :
    (a.join b).expects item = (a.expects item || b.expects item) := by
  cases a with
  | fancy p cs => cases b <;> cases h
  | trivial p u x =>
    cases b with
    | fancy p' cs' => cases h
    | trivial p' u' x' => simp [join, expects, expected?]

variable [EquivBEq ε]

/-- The joined error complains of what either does. -/
theorem contains_join (a b : ParseError ε τ) (complaint : Complaint ε) :
    (a.join b).complaints.contains complaint =
      (a.complaints.contains complaint || b.complaints.contains complaint) := by
  cases a with
  | trivial p u x => cases b <;> simp [join, complaints]
  | fancy p cs =>
    cases b with
    | trivial p' u' x' => simp [join, complaints]
    | fancy p' cs' => exact Complaint.contains_pool cs cs' complaint

/-- What three errors tell together does not depend on how they are grouped. -/
theorem join_assoc (a b c : ParseError ε τ) : (a.join b).join c = a.join (b.join c) := by
  cases a <;> cases b <;> cases c <;>
    simp [join, Item.greater?_assoc, SortedSet.union_assoc, Complaint.pool_assoc]

/-- An error tells nothing more together with itself. -/
theorem join_self (a : ParseError ε τ) : a.join a = a := by
  cases a with
  | trivial p u x =>
    have union : x ∪ x = x := SortedSet.ext fun item => by simp
    have greatest : Item.greater? u u = u := by
      cases u with
      | none => rfl
      | some item => exact congrArg some ((item.greater_eq_or item).elim id id)
    rw [join, union, greatest]
  | fancy p cs => rw [join, Complaint.pool_self]

/-- Merging is associative, in every field of the errors. -/
theorem merge_assoc (a b c : ParseError ε τ) : (a.merge b).merge c = a.merge (b.merge c) := by
  cases hab : compare a.position b.position with
  | lt =>
    -- The first error is told by neither side.
    rw [merge_of_lt hab]
    cases hbc : compare b.position c.position with
    | lt => rw [merge_of_lt hbc, merge_of_lt (Std.TransCmp.lt_trans hab hbc)]
    | gt => rw [merge_of_gt hbc, merge_of_lt hab]
    | eq =>
      have later : compare a.position (b.join c).position = .lt := by
        rw [← Std.TransCmp.congr_right (compare_join hbc).1, hab]
      rw [merge_of_eq hbc, merge_of_lt later]
  | eq =>
    rw [merge_of_eq hab]
    have place : compare (a.join b).position c.position = compare b.position c.position :=
      (Std.TransCmp.congr_left (compare_join hab).2).symm
    cases hbc : compare b.position c.position with
    | lt =>
      rw [merge_of_lt hbc, merge_of_lt (place.trans hbc), merge_of_lt]
      rw [Std.TransCmp.congr_left hab, hbc]
    | gt => rw [merge_of_gt hbc, merge_of_gt (place.trans hbc), merge_of_eq hab]
    | eq =>
      have same : compare a.position (b.join c).position = .eq := by
        rw [Std.TransCmp.congr_left hab, (compare_join hbc).1]
      rw [merge_of_eq hbc, merge_of_eq (place.trans hbc), merge_of_eq same, join_assoc]
  | gt =>
    rw [merge_of_gt hab]
    cases hbc : compare b.position c.position with
    | lt => rw [merge_of_lt hbc]
    | gt => rw [merge_of_gt hbc, merge_of_gt hab, merge_of_gt (Std.TransCmp.gt_trans hab hbc)]
    | eq =>
      have earlier : compare a.position c.position = .gt := by
        rw [← Std.TransCmp.congr_right hbc, hab]
      have earlier' : compare a.position (b.join c).position = .gt := by
        rw [← Std.TransCmp.congr_right (compare_join hbc).1, hab]
      rw [merge_of_eq hbc, merge_of_gt earlier, merge_of_gt earlier']

/-- Merging is idempotent, in every field of the errors. -/
theorem merge_self (a : ParseError ε τ) : a.merge a = a := by
  rw [merge_of_eq Std.ReflCmp.compare_self, join_self]

/-! ### Many errors -/

/-- The error tells what errors of one place do: all that they complain of, if they do, or else the greatest
of their unexpected items and all of their expected ones. -/
structure Tells (m : ParseError ε τ) (errors : List (ParseError ε τ)) : Prop where
  isFancy : m.isFancy = errors.any isFancy
  complaints (c : Complaint ε) : m.complaints.contains c = errors.any fun e => e.complaints.contains c
  unexpected : m.isFancy = false →
    Item.Greatest (fun item => ∃ e ∈ errors, e.unexpected? = some item) m.unexpected?
  expected : m.isFancy = false → ∀ item, m.expects item = errors.any fun e => e.expects item

/-- The error is at the greatest position of the errors, and tells what those of them do that are there. -/
structure SumsUp (m : ParseError ε τ) (errors : List (ParseError ε τ)) : Prop where
  position : ∃ e ∈ errors, e.position = m.position
  greatest : ∀ e ∈ errors, (compare e.position m.position).isLE = true
  tells : m.Tells (errors.filter fun e => e.position.same m.position)

omit [EquivBEq ε] in
/-- An error tells what it alone does. -/
theorem Tells.singleton (e : ParseError ε τ) : e.Tells [e] where
  isFancy := by simp
  complaints c := by simp
  unexpected _ := by
    refine ⟨fun hitem => ⟨e, List.mem_singleton_self e, hitem⟩, ?_⟩
    rintro item ⟨e', he', hitem⟩
    rw [List.mem_singleton.1 he'] at hitem
    exact ⟨item, hitem, by rw [Std.ReflOrd.compare_self]; rfl⟩
  expected _ item := by simp

/-- The joined error tells what all the errors do that its parts tell. -/
theorem Tells.join (ha : a.Tells errors) (hb : b.Tells errors') :
    (a.join b).Tells (errors ++ errors') := by
  have both (h : (a.join b).isFancy = false) : a.isFancy = false ∧ b.isFancy = false := by
    rw [isFancy_join] at h
    simpa using h
  constructor
  case isFancy => rw [isFancy_join, ha.isFancy, hb.isFancy, List.any_append]
  case complaints =>
    intro c
    rw [contains_join, ha.complaints, hb.complaints, List.any_append]
  case unexpected =>
    intro h
    rw [unexpected?_join h]
    simp only [List.mem_append, or_and_right, exists_or]
    exact (ha.unexpected (both h).1).greater? (hb.unexpected (both h).2)
  case expected =>
    intro h item
    rw [expects_join h, ha.expected (both h).1, hb.expected (both h).2, List.any_append]

namespace SumsUp

omit [EquivBEq ε] in
/-- An error sums up itself. -/
theorem singleton (e : ParseError ε τ) : e.SumsUp [e] where
  position := ⟨e, List.mem_singleton_self e, rfl⟩
  greatest e' he' := by
    rw [List.mem_singleton.1 he', Std.ReflOrd.compare_self]
    rfl
  tells := by
    have here : e.position.same e.position = true := by simp [Position.same]
    simp only [List.filter_cons, here, if_true, List.filter_nil]
    exact .singleton e

omit [EquivBEq ε] in
/-- Errors before the greatest position are not told. -/
theorem filter_eq_nil (h : a.SumsUp errors) {p : Position} (hp : compare a.position p = .lt) :
    errors.filter (fun e => e.position.same p) = [] := by
  rw [List.filter_eq_nil_iff]
  intro e he
  exact Position.not_same_of_lt (Std.TransCmp.lt_of_isLE_of_lt (h.greatest e he) hp)

/-- Errors and more errors are summed up by the merge of what they come to. -/
theorem merge (ha : a.SumsUp errors) (hb : b.SumsUp errors') :
    (a.merge b).SumsUp (errors ++ errors') := by
  have within {p : Position} (hap : (compare a.position p).isLE = true)
      (hbp : (compare b.position p).isLE = true) :
      ∀ e ∈ errors ++ errors', (compare e.position p).isLE = true := by
    intro e he
    rcases List.mem_append.1 he with he | he
    · exact Std.TransCmp.isLE_trans (ha.greatest e he) hap
    · exact Std.TransCmp.isLE_trans (hb.greatest e he) hbp
  have self (p : Position) : (compare p p).isLE = true := by
    rw [Std.ReflOrd.compare_self]
    rfl
  -- What sums up the further errors is told alone; errors of one place are told together.
  cases order : compare a.position b.position with
  | lt =>
    rw [merge_of_lt order]
    obtain ⟨e, he, place⟩ := hb.position
    refine ⟨⟨e, List.mem_append_right _ he, place⟩, within (Ordering.isLE_of_eq_lt order) (self _), ?_⟩
    rw [List.filter_append, ha.filter_eq_nil order, List.nil_append]
    exact hb.tells
  | gt =>
    have order' := Std.OrientedCmp.lt_of_gt order
    rw [merge_of_gt order]
    obtain ⟨e, he, place⟩ := ha.position
    refine ⟨⟨e, List.mem_append_left _ he, place⟩, within (self _) (Ordering.isLE_of_eq_lt order'), ?_⟩
    rw [List.filter_append, hb.filter_eq_nil order', List.append_nil]
    exact ha.tells
  | eq =>
    obtain ⟨fromA, fromB⟩ := compare_join order
    rw [merge_of_eq order]
    refine ⟨?_, within (Ordering.isLE_of_eq_eq fromA) (Ordering.isLE_of_eq_eq fromB), ?_⟩
    · rcases position_merge a b with place | place
      · obtain ⟨e, he, hplace⟩ := ha.position
        exact ⟨e, List.mem_append_left _ he, by rw [hplace, ← place, merge_of_eq order]⟩
      · obtain ⟨e, he, hplace⟩ := hb.position
        exact ⟨e, List.mem_append_right _ he, by rw [hplace, ← place, merge_of_eq order]⟩
    · simp only [← Position.same_congr fromA, List.filter_append]
      have there : (fun e : ParseError ε τ => e.position.same a.position) =
          fun e => e.position.same b.position := funext fun e => Position.same_congr order e.position
      nth_rewrite 2 [there]
      exact ha.tells.join hb.tells

/-- Errors that are merged one after the other are summed up. -/
theorem foldl (h : a.SumsUp errors) (more : List (ParseError ε τ)) :
    (more.foldl ParseError.merge a).SumsUp (errors ++ more) := by
  induction more generalizing a errors with
  | nil =>
    rw [List.append_nil]
    exact h
  | cons e more ih =>
    rw [List.append_cons]
    exact ih (h.merge (.singleton e))

omit [EquivBEq ε] in
/-- An error sums up the others in whatever order they are. -/
theorem perm (h : a.SumsUp errors) (hperm : errors.Perm errors') : a.SumsUp errors' := by
  have told := hperm.filter fun e => e.position.same a.position
  obtain ⟨e, he, place⟩ := h.position
  refine ⟨⟨e, hperm.mem_iff.1 he, place⟩, fun e he => h.greatest e (hperm.mem_iff.2 he), ?_⟩
  constructor
  case isFancy => rw [h.tells.isFancy, told.any_eq]
  case complaints =>
    intro c
    rw [h.tells.complaints, told.any_eq]
  case unexpected =>
    intro hfancy
    simpa only [told.mem_iff] using h.tells.unexpected hfancy
  case expected =>
    intro hfancy item
    rw [h.tells.expected hfancy, told.any_eq]

/-- What sums up the same errors tells the same. -/
theorem resembles (ha : a.SumsUp errors) (hb : b.SumsUp errors) : a.Resembles b := by
  have place : compare a.position b.position = .eq := by
    obtain ⟨e, he, hplace⟩ := ha.position
    obtain ⟨e', he', hplace'⟩ := hb.position
    exact Std.OrientedCmp.isLE_antisymm (hplace ▸ hb.greatest e he) (hplace' ▸ ha.greatest e' he')
  have tellsB := hb.tells
  simp only [← Position.same_congr place] at tellsB
  have same := (Position.compare_eq_eq_iff_same _ _).1 place
  -- Both tell what the same errors at the same place do, so they are of one variant.
  have variant := ha.tells.isFancy.trans tellsB.isFancy.symm
  cases a with
  | trivial p u x =>
    cases b with
    | fancy p' cs' => cases variant
    | trivial p' u' x' =>
      refine ⟨same, (ha.tells.unexpected rfl).unique (tellsB.unexpected rfl), ?_⟩
      refine SortedSet.ext fun item => ?_
      have expected := (ha.tells.expected rfl item).trans (tellsB.expected rfl item).symm
      simpa [expects, expected?] using expected
  | fancy p cs =>
    cases b with
    | trivial p' u' x' => cases variant
    | fancy p' cs' =>
      have told (c : Complaint ε) : cs.contains c = cs'.contains c :=
        (ha.tells.complaints c).trans (tellsB.complaints c).symm
      refine ⟨same, ?_, ?_⟩
      · intro c hc
        exact .inr ((told c).symm.trans (List.elem_eq_true_of_mem hc))
      · intro c hc
        exact .inr ((told c).trans (List.elem_eq_true_of_mem hc))

end SumsUp

/-- Errors may be merged in any grouping and more than once. What any number of them come to sums them up,
and resembles what they come to in any other order. -/
theorem merge_laws :
    (∀ a b c : ParseError ε τ, (a.merge b).merge c = a.merge (b.merge c)) ∧
    (∀ a : ParseError ε τ, a.merge a = a) ∧
    ∀ (e : ParseError ε τ) (es : List (ParseError ε τ)), (es.foldl merge e).SumsUp (e :: es) ∧
      ∀ f fs, (e :: es).Perm (f :: fs) → (es.foldl merge e).Resembles (fs.foldl merge f) := by
  refine ⟨merge_assoc, merge_self, ?_⟩
  intro e es
  have summed := (SumsUp.singleton e).foldl es
  refine ⟨summed, ?_⟩
  intro f fs hperm
  exact (summed.perm hperm).resembles ((SumsUp.singleton f).foldl fs)

/-- An error that is further back than the others. -/
def earlier : ParseError Nat Char := .trivial ⟨⟨1, 1, 2⟩, "a"⟩ (some (.token 'x')) ∅

/-- An error that tells a complaint twice. -/
def twice : ParseError Nat Char := .fancy ⟨⟨2, 1, 3⟩, "a"⟩ [.custom 0, .custom 0]

/-- An error at the same place, with another complaint besides. -/
def another : ParseError Nat Char := .fancy ⟨⟨2, 2, 1⟩, "a"⟩ [.custom 1, .custom 0]

/-- In either order the three come to two complaints, one of which is told twice in the first. -/
theorem merge_laws_of_three : [earlier, twice, another].Perm [another, twice, earlier] ∧
    [twice, another].foldl merge earlier =
      .fancy ⟨⟨2, 1, 3⟩, "a"⟩ [.custom 0, .custom 0, .custom 1] ∧
    [twice, earlier].foldl merge another = another ∧
    ([twice, another].foldl merge earlier).Resembles ([twice, earlier].foldl merge another) := by
  have reversed : [earlier, twice, another].Perm [another, twice, earlier] :=
    (List.reverse_perm [earlier, twice, another]).symm
  exact ⟨reversed, rfl, rfl, (merge_laws.2.2 earlier [twice, another]).2 _ _ reversed⟩

end ParseError

end ParserMachine
