import Mathlib.Data.Finset.Card
import ParserMachine.TypeTag

/-!
# Tags stand for types

However many threads look up types, and in whatever order their steps come, a tag stands for one type and
a type for one tag. Two threads may miss the same type at once, and both then ask the table for it; the
first of them enters it there, and the second finds it. What threads know besides, in their caches and of
answers that they have not written down yet, came from the table, and the table only grows.

The tags are counted from one, without gaps (`TagTable.Sound`). There are not more of them than types that
were looked up, and while these are fewer than the tags that there are, the count does not come round to
zero. `TagStore.sound_step` is what one step preserves, `TagStore.sound_run` what a whole run does.
-/

set_option autoImplicit false

namespace ParserMachine

variable {θ κ : Type}

/-! ### The table -/

namespace TagTable

/-- The table has types of the given ones, each once, and their tags count up from one. -/
structure Sound (types : Finset κ) (t : TagTable κ) : Prop where
  known : ∀ entry ∈ t.tags, entry.1 ∈ types
  distinct : (t.tags.map Prod.fst).Nodup
  numbered : t.tags.map (·.2.toNat) = (List.range' 1 t.tags.length).reverse
  next : t.next.toNat = t.tags.length + 1

variable {types : Finset κ} {t : TagTable κ} {type type' : κ} {tag tag' : UInt32}

/-- The empty table is sound for all types. -/
theorem sound_empty : ({} : TagTable κ).Sound types :=
  ⟨List.forall_mem_nil _, List.nodup_nil, rfl, rfl⟩

namespace Sound

/-- No tag is zero, since the count starts at one. -/
theorem ne_zero (h : t.Sound types) (hmem : (type, tag) ∈ t.tags) : tag ≠ 0 := by
  have counted : tag.toNat ∈ t.tags.map (·.2.toNat) := List.mem_map_of_mem hmem
  rw [h.numbered, List.mem_reverse, List.mem_range'_1] at counted
  rintro rfl
  exact absurd counted.1 (by decide)

/-- In the table, tags are equal where types are. -/
theorem eq_iff (h : t.Sound types) (hmem : (type, tag) ∈ t.tags) (hmem' : (type', tag') ∈ t.tags) :
    tag = tag' ↔ type = type' := by
  constructor
  · rintro rfl
    have once : (t.tags.map (·.2.toNat)).Nodup := by
      rw [h.numbered, List.nodup_reverse]
      exact List.nodup_range'
    exact congrArg Prod.fst (List.inj_on_of_nodup_map once hmem hmem' rfl)
  · rintro rfl
    exact congrArg Prod.snd (List.inj_on_of_nodup_map h.distinct hmem hmem' rfl)

variable [DecidableEq κ]

/-- A type is found with the tag that it was entered with. -/
theorem lookup_eq_some_iff (h : t.Sound types) :
    t.tags.lookup type = some tag ↔ (type, tag) ∈ t.tags := by
  rw [List.lookup_eq_some_iff, List.mem_iff_append]
  constructor
  · rintro ⟨newer, older, split, -⟩
    exact ⟨newer, older, split⟩
  · rintro ⟨newer, older, split⟩
    refine ⟨newer, older, split, ?_⟩
    -- No entry that is found first has the same type.
    have distinct := h.distinct
    rw [split, List.map_append, List.nodup_append] at distinct
    intro entry hentry
    have other := distinct.2.2 entry.1 (List.mem_map_of_mem hentry) type (by simp)
    simpa using other.symm

/-- There is room for a type that is not in the table yet. -/
theorem length_lt_card (h : t.Sound types) (hnew : type ∉ t.tags.map Prod.fst)
    (htype : type ∈ types) : t.tags.length < types.card := by
  have distinct : (type :: t.tags.map Prod.fst).Nodup := List.nodup_cons.2 ⟨hnew, h.distinct⟩
  have known : (type :: t.tags.map Prod.fst).toFinset ⊆ types := by
    intro found hfound
    rw [List.mem_toFinset, List.mem_cons, List.mem_map] at hfound
    obtain rfl | ⟨entry, hentry, rfl⟩ := hfound
    · exact htype
    · exact h.known entry hentry
  have few := Finset.card_le_card known
  rwa [List.toFinset_card_of_nodup distinct, List.length_cons, List.length_map] at few

/-- What asking a table for a type does to it, while there are fewer types than tags. -/
theorem assign (h : t.Sound types) (few : types.card < UInt32.size - 1) (htype : type ∈ types) :
    (t.assign type).2.Sound types ∧ (type, (t.assign type).1) ∈ (t.assign type).2.tags ∧
      t.tags ⊆ (t.assign type).2.tags := by
  rw [TagTable.assign]
  cases hlookup : t.tags.lookup type with
  | some tag => exact ⟨h, h.lookup_eq_some_iff.1 hlookup, List.Subset.refl _⟩
  | none =>
    have hnew : type ∉ t.tags.map Prod.fst := by
      rw [List.mem_map]
      rintro ⟨entry, hentry, rfl⟩
      have found := h.lookup_eq_some_iff.2 hentry
      rw [hlookup] at found
      cases found
    have room := h.length_lt_card hnew htype
    refine ⟨⟨?_, ?_, ?_, ?_⟩, List.mem_cons_self, List.subset_cons_self _ _⟩
    · rw [List.forall_mem_cons]
      exact ⟨htype, h.known⟩
    · rw [List.map_cons, List.nodup_cons]
      exact ⟨hnew, h.distinct⟩
    · rw [List.map_cons, h.numbered, List.length_cons, List.range'_1_concat, List.reverse_append, h.next,
        Nat.add_comm]
      rfl
    · -- The count does not come round.
      have next := h.next
      rw [List.length_cons, UInt32.toNat_add, next]
      exact Nat.mod_eq_of_lt (by show _ + 1 < UInt32.size; omega)

end Sound

end TagTable

/-! ### Steps -/

/-- What is found in a list is in it. -/
theorem mem_of_lookup [DecidableEq κ] {entries : List (κ × UInt32)} {type : κ} {tag : UInt32}
    (h : entries.lookup type = some tag) : (type, tag) ∈ entries := by
  obtain ⟨newer, older, rfl, -⟩ := List.lookup_eq_some_iff.1 h
  exact List.mem_append_right _ List.mem_cons_self

/-- The type that a thread looks up in a step: the one that is named, unless a look-up is under way. -/
def TagThread.sought (own : TagThread κ) (type : κ) : κ :=
  match own.request with
  | .idle => type
  | .missed type | .answered type _ => type

/-- What a thread has come to know agrees with the table, and what it still asks for is one of the given
types. -/
structure TagThread.Agrees (types : Finset κ) (t : TagTable κ) (own : TagThread κ) : Prop where
  cache : own.cache ⊆ t.tags
  missed {type : κ} : own.request = .missed type → type ∈ types
  answered {type : κ} {tag : UInt32} : own.request = .answered type tag → (type, tag) ∈ t.tags

namespace TagThread.Agrees

variable {types : Finset κ} {t t' : TagTable κ} {cache : List (κ × UInt32)} {type : κ} {tag : UInt32}

/-- An idle thread agrees with a table that has what it keeps. -/
theorem of_idle (h : cache ⊆ t.tags) : Agrees types t ⟨cache, .idle⟩ where
  cache := h
  missed request := by cases request
  answered request := by cases request

/-- A thread that missed a type agrees with the table if the type is one of those given. -/
theorem of_missed (h : cache ⊆ t.tags) (htype : type ∈ types) :
    Agrees types t ⟨cache, .missed type⟩ where
  cache := h
  missed request := by cases request; exact htype
  answered request := by cases request

/-- A thread that was answered agrees with the table if the answer is entered there. -/
theorem of_answered (h : cache ⊆ t.tags) (entered : (type, tag) ∈ t.tags) :
    Agrees types t ⟨cache, .answered type tag⟩ where
  cache := h
  missed request := by cases request
  answered request := by cases request; exact entered

/-- A thread that agrees with a table agrees with a larger one. -/
theorem mono {own : TagThread κ} (h : own.Agrees types t) (hgrows : t.tags ⊆ t'.tags) :
    own.Agrees types t' where
  cache := List.Subset.trans h.cache hgrows
  missed := h.missed
  answered request := hgrows (h.answered request)

end TagThread.Agrees

namespace TagStore

/-- The table is sound, and all threads agree with it. -/
structure Sound (types : Finset κ) (s : TagStore θ κ) : Prop where
  table : s.table.Sound types
  threads : ∀ thread, (s.threads thread).Agrees types s.table

variable {types : Finset κ} {s : TagStore θ κ} {thread : θ} {type : κ} {own : TagThread κ}

/-- The empty store is sound for all types. -/
theorem sound_empty : ({} : TagStore θ κ).Sound types where
  table := TagTable.sound_empty
  threads _ := .of_idle (List.nil_subset _)

variable [DecidableEq θ]

/-- A thread that was set is found. -/
@[simp] theorem threads_setThread_self (s : TagStore θ κ) (thread : θ) (own : TagThread κ) :
    (s.setThread thread own).threads thread = own := if_pos rfl

/-- Setting a thread leaves the table. -/
@[simp] theorem table_setThread (s : TagStore θ κ) (thread : θ) (own : TagThread κ) :
    (s.setThread thread own).table = s.table := rfl

/-- A store stays sound with another part of a thread, if that agrees with the table. -/
theorem Sound.setThread (h : s.Sound types) (hown : own.Agrees types s.table) :
    (s.setThread thread own).Sound types where
  table := h.table
  threads other := by
    show (if other = thread then own else s.threads other).Agrees types s.table
    split
    · exact hown
    · exact h.threads other

variable [DecidableEq κ]

/-- A step keeps the store sound and the table's entries, and the tag that it returns is entered there. -/
theorem sound_step (h : s.Sound types) (few : types.card < UInt32.size - 1)
    (hsought : (s.threads thread).sought type ∈ types) :
    (s.step thread type).2.Sound types ∧ s.table.tags ⊆ (s.step thread type).2.table.tags ∧
      ∀ tag, (s.step thread type).1 = some tag →
        ((s.threads thread).sought type, tag) ∈ (s.step thread type).2.table.tags := by
  have known := h.threads thread
  simp only [step, TagThread.sought] at hsought ⊢
  cases hrequest : (s.threads thread).request with
  | idle =>
    simp only [hrequest] at hsought ⊢
    cases hcache : (s.threads thread).cache.lookup type with
    | some tag =>
      refine ⟨h, List.Subset.refl _, ?_⟩
      rintro tag ⟨⟩
      exact known.cache (mem_of_lookup hcache)
    | none =>
      refine ⟨h.setThread (.of_missed known.cache hsought), List.Subset.refl _, ?_⟩
      rintro tag ⟨⟩
  | missed type =>
    -- The one step that changes the table. The other threads agree with what it was, and it grows.
    obtain ⟨table, entered, hgrows⟩ := h.table.assign few (known.missed hrequest)
    have grown : ({ s with table := (s.table.assign type).2 } : TagStore θ κ).Sound types :=
      ⟨table, fun other => (h.threads other).mono hgrows⟩
    refine ⟨grown.setThread (.of_answered (known.mono hgrows).cache entered), hgrows, ?_⟩
    rintro tag ⟨⟩
  | answered type tag =>
    have entered := known.answered hrequest
    refine ⟨h.setThread (.of_idle (List.cons_subset.2 ⟨entered, known.cache⟩)), List.Subset.refl _, ?_⟩
    rintro _ ⟨⟩
    exact entered

/-! ### Runs -/

/-- The steps of a schedule, which names the thread that goes on and the type that it looks up if it has
no look-up under way. Of each step this tells the type that it was about, and the tag that it returned if it
ended a look-up; and at last the store that is left. -/
def run (s : TagStore θ κ) : List (θ × κ) → List (κ × Option UInt32) × TagStore θ κ
  | [] => ([], s)
  | (thread, type) :: schedule =>
    let (tag, next) := s.step thread type
    let (events, last) := next.run schedule
    (((s.threads thread).sought type, tag) :: events, last)

/-- A run keeps the store sound and the table's entries, and the tags that it returns are entered there. -/
theorem sound_run (h : s.Sound types) (few : types.card < UInt32.size - 1) {schedule : List (θ × κ)}
    (hsought : ∀ event ∈ (s.run schedule).1, event.1 ∈ types) :
    (s.run schedule).2.Sound types ∧ s.table.tags ⊆ (s.run schedule).2.table.tags ∧
      ∀ type tag, (type, some tag) ∈ (s.run schedule).1 →
        (type, tag) ∈ (s.run schedule).2.table.tags := by
  induction schedule generalizing s with
  | nil => exact ⟨h, List.Subset.refl _, fun _ _ hfound => (List.not_mem_nil hfound).elim⟩
  | cons event schedule ih =>
    obtain ⟨thread, type⟩ := event
    simp only [run, List.forall_mem_cons] at hsought ⊢
    obtain ⟨sound, hgrows, returned⟩ := sound_step h few hsought.1
    obtain ⟨last, kept, later⟩ := ih sound hsought.2
    refine ⟨last, List.Subset.trans hgrows kept, ?_⟩
    intro found tag hfound
    rcases List.mem_cons.1 hfound with now | rest
    · -- What this step returned stays in the table.
      obtain ⟨rfl, htag⟩ := Prod.mk.inj now
      exact kept (returned tag htag.symm)
    · exact later found tag rest

/-- In a run of any threads, of steps in any order, every tag that a look-up returns is a tag of its type
and no other: no look-up returns zero, and two of them, in whichever threads and at whatever times, return
the same tag if and only if they are for the same type. The table has the entries of every cache. It takes
no more for that than fewer types than there are tags besides zero. -/
theorem run_tags (schedule : List (θ × κ))
    (few : ((({} : TagStore θ κ).run schedule).1.map Prod.fst).toFinset.card < UInt32.size - 1) :
    (∀ type tag, (type, some tag) ∈ (({} : TagStore θ κ).run schedule).1 → tag ≠ 0) ∧
      (∀ type tag type' tag', (type, some tag) ∈ (({} : TagStore θ κ).run schedule).1 →
        (type', some tag') ∈ (({} : TagStore θ κ).run schedule).1 → (tag = tag' ↔ type = type')) ∧
      ∀ thread type tag, (type, tag) ∈ ((({} : TagStore θ κ).run schedule).2.threads thread).cache →
        (({} : TagStore θ κ).run schedule).2.table.tags.lookup type = some tag := by
  have hsought : ∀ event ∈ (({} : TagStore θ κ).run schedule).1,
      event.1 ∈ ((({} : TagStore θ κ).run schedule).1.map Prod.fst).toFinset :=
    fun event hevent => List.mem_toFinset.2 (List.mem_map_of_mem hevent)
  obtain ⟨sound, -, returned⟩ := sound_run sound_empty few hsought
  refine ⟨?_, ?_, ?_⟩
  · intro type tag hreturned
    exact sound.table.ne_zero (returned type tag hreturned)
  · intro type tag type' tag' hreturned hreturned'
    exact sound.table.eq_iff (returned type tag hreturned) (returned type' tag' hreturned')
  · intro thread type tag hcached
    exact sound.table.lookup_eq_some_iff.2 ((sound.threads thread).cache hcached)

/-- Two threads that miss the same type at once. Then one of them looks up another type, and the other one
the first type again. -/
def race : List (Bool × Nat) :=
  [(false, 7), (true, 7), (true, 7), (false, 7), (false, 7), (true, 7), (true, 8), (true, 8), (true, 8),
    (false, 7)]

/-- Both threads are told the same tag of the type that they raced for, and the other type has the next
tag. -/
theorem run_tags_of_race :
    (({} : TagStore Bool Nat).run race).1.filterMap (fun event => event.2.map (event.1, ·)) =
        [(7, 1), (7, 1), (8, 2), (7, 1)] ∧
      (∀ type tag type' tag', (type, some tag) ∈ (({} : TagStore Bool Nat).run race).1 →
        (type', some tag') ∈ (({} : TagStore Bool Nat).run race).1 → (tag = tag' ↔ type = type')) ∧
      ∀ thread type tag, (type, tag) ∈ ((({} : TagStore Bool Nat).run race).2.threads thread).cache →
        (({} : TagStore Bool Nat).run race).2.table.tags.lookup type = some tag := by
  obtain ⟨-, same, cached⟩ := run_tags race (by decide +kernel)
  exact ⟨by decide +kernel, same, cached⟩

/-! ### Look-ups that nobody interrupts -/

/-- It is one step where the cache has the type, and three where it has not. -/
theorem run_eq_lookup (idle : (s.threads thread).request = .idle) :
    ∃ pauses, s.run (List.replicate (pauses + 1) (thread, type)) =
      (List.replicate pauses (type, none) ++ [(type, some (s.lookup thread type).1)],
        (s.lookup thread type).2) := by
  cases hcache : (s.threads thread).cache.lookup type with
  | some tag =>
    refine ⟨0, ?_⟩
    simp only [List.replicate, run, step, lookup, TagThread.sought, idle, hcache, List.nil_append]
  | none =>
    refine ⟨2, ?_⟩
    simp only [List.replicate, run, step, lookup, TagThread.sought, idle, hcache,
      threads_setThread_self, table_setThread]
    refine Prod.ext rfl ?_
    -- Of the three parts that the thread had, only the last counts.
    simp only [setThread, mk.injEq, true_and]
    funext other
    split <;> rfl

end TagStore

end ParserMachine
