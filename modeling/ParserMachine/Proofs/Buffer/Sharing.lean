import Mathlib.Data.Fintype.Defs
import ParserMachine.Proofs.Buffer.Site

/-!
# Buffers that share their memory

A copy of a buffer costs nothing: it refers to the memory that the buffer has. Memory is copied when one of
those that share it is written to, and not before. `Sharing` has a handle for each of the buffers that have
names, and `Sharing.run` goes through calls on them.

No buffer sees what is written to another: `Sharing.run_new_eq` says that every handle shows the buffer, and so
the list, that there would be without any sharing.
-/

set_option autoImplicit false

namespace ParserMachine.Buffer

variable {α ι : Type}

/-- Buffers that have names, as they refer to their memories. -/
structure Sharing (ι α : Type) where
  memories : Array (Array α)
  handles : ι → Handle

/-- A call on a handle, beside the handles that it may name. -/
def Call.onSite [Inhabited α] (shared : Nat → Bool) (handles : ι → Handle) (d : Site α) :
    Call ι α → Except Mishap (Site α)
  | .new => .ok { d with handle := .new }
  | .empty capacity => d.supplyEmpty capacity
  | .withSplit capacity split => d.supply (Array.replicate capacity default) split
  | .ofBacking memory split => d.supply memory split
  | .ofList l => Site.extend shared { d with handle := .new } l
  | .clone source => .ok { d with handle := handles source }
  | .append a => d.extend shared [a]
  | .prepend a => d.extendFront shared [a]
  | .extend run => d.extend shared run
  | .extendFront run => d.extendFront shared run

namespace Sharing

/-- No buffer has memory. -/
def new : Sharing ι α := ⟨#[], fun _ => .new⟩

/-- One of the handles, with the memories. -/
def site (s : Sharing ι α) (i : ι) : Site α := ⟨s.memories, s.handles i⟩

variable [DecidableEq ι] [Fintype ι] [Inhabited α]

/-- Whether the memory is referred to by another handle. -/
def sharedWith (s : Sharing ι α) (i : ι) (place : Nat) : Bool :=
  decide (∃ j, j ≠ i ∧ (s.handles j).backing = some place)

/-- A call on one of the handles. -/
def step (s : Sharing ι α) (i : ι) (call : Call ι α) : Except Mishap (Sharing ι α) := do
  let d ← call.onSite (s.sharedWith i) s.handles (s.site i)
  return ⟨d.memories, Function.update s.handles i d.handle⟩

/-- Goes through calls, each on one of the handles. -/
def run (s : Sharing ι α) : List (ι × Call ι α) → Except Mishap (Sharing ι α)
  | [] => .ok s
  | (i, call) :: calls => do (← s.step i call).run calls

end Sharing

/-- Every call leaves a buffer whose capacity is a word. -/
def Addressable [DecidableEq ι] [Inhabited α] : List (ι × Call ι α) → (ι → Buffer α) → Prop
  | [], _ => True
  | (i, call) :: calls, family =>
    (call.onBuffer family (family i)).capacity < UInt64.size ∧
      Addressable calls (Function.update family i (call.onBuffer family (family i)))

instance Addressable.decidable [DecidableEq ι] [Inhabited α] :
    (calls : List (ι × Call ι α)) → (family : ι → Buffer α) → Decidable (Addressable calls family)
  | [], _ => inferInstanceAs (Decidable True)
  | (i, call) :: calls, family =>
    haveI := Addressable.decidable calls
      (Function.update family i (call.onBuffer family (family i)))
    inferInstanceAs (Decidable (_ ∧ _))

/-- A call on a handle is the call on what it shows. -/
theorem Call.leadsTo_onSite [Inhabited α] {family : ι → Buffer α} {handles : ι → Handle} {d : Site α}
    {b : Buffer α} {l : List α}
    (hs : ∀ j, (⟨d.memories, handles j⟩ : Site α).Shows (family j)) (h : d.Shows b) (hb : b.Sound l)
    (shared : Nat → Bool) (call : Call ι α)
    (hword : (call.onBuffer family b).capacity < UInt64.size) :
    Site.LeadsTo (shared · = true) d (call.onSite shared handles d) (call.onBuffer family b) := by
  cases call with
  | new => exact ⟨_, rfl, .new _, .refl _ _⟩
  | empty capacity => exact h.leadsTo_supplyEmpty capacity hword
  | withSplit capacity split => exact h.leadsTo_supply _ split hword
  | ofBacking memory split => exact h.leadsTo_supply memory split hword
  | ofList l => exact Site.Shows.leadsTo_extend (.new d.memories) .new shared hword
  | clone source => exact ⟨_, rfl, hs source, .refl _ _⟩
  | append a => exact h.leadsTo_extend hb shared hword
  | prepend a => exact h.leadsTo_extendFront hb shared hword
  | extend run => exact h.leadsTo_extend hb shared hword
  | extendFront run => exact h.leadsTo_extendFront hb shared hword

namespace Sharing

variable [DecidableEq ι] [Fintype ι] [Inhabited α] {s : Sharing ι α} {family : ι → Buffer α}
  {lists : ι → List α}

/-- A call on one handle changes what that handle shows, and nothing that another one shows. -/
theorem step_eq (hs : ∀ i, (s.site i).Holds (family i)) (hlists : ∀ i, (family i).Sound (lists i))
    (i : ι) (call : Call ι α)
    (hword : (call.onBuffer family (family i)).capacity < UInt64.size) :
    ∃ s', s.step i call = .ok s' ∧
      ∀ j, (s'.site j).Holds (Function.update family i (call.onBuffer family (family i)) j) := by
  obtain ⟨d, called, shown, spared⟩ := call.leadsTo_onSite (fun j => (hs j).toShows) (hs i).toShows
    (hlists i) (s.sharedWith i) hword
  refine ⟨⟨d.memories, Function.update s.handles i d.handle⟩, ?_, ?_⟩
  · rw [step, called]
    rfl
  · have others (j : ι) (hj : j ≠ i) : (⟨d.memories, s.handles j⟩ : Site α).Holds (family j) := by
      refine ⟨(hs j).toShows.of_spares ?_ spared, (hs j).small⟩
      -- What this handle refers to is shared, as the one that was called on sees it.
      intro place hplace
      exact decide_eq_true ⟨j, hj, hplace⟩
    intro j
    exact rel_update (R := fun handle b => (⟨d.memories, handle⟩ : Site α).Holds b) ⟨shown, hword⟩
      others j

/-- Going through calls comes through, and every handle shows what there would be without sharing. -/
theorem run_eq {calls : List (ι × Call ι α)} (hs : ∀ i, (s.site i).Holds (family i))
    (hlists : ∀ i, (family i).Sound (lists i)) (hword : Addressable calls family) :
    ∃ final, s.run calls = .ok final ∧
      ∀ i, (final.site i).Holds (play Call.onBuffer calls family i) := by
  -- By induction on the calls: buffers go on standing for lists, and handles go on showing buffers.
  induction calls generalizing s family lists with
  | nil => exact ⟨s, rfl, hs⟩
  | cons head calls ih =>
    obtain ⟨i, call⟩ := head
    obtain ⟨small, rest⟩ := hword
    obtain ⟨s', stepped, hs'⟩ := step_eq hs hlists i call small
    obtain ⟨final, went, shown⟩ := ih hs' (sound_play hlists [(i, call)]) rest
    refine ⟨final, ?_, shown⟩
    rw [run, stepped]
    exact went

/-- Whatever is done with buffers that share their memory, it comes through, and each of them stands for the
list that the same was done with, in a window that is inside its memory. A further run at either end changes
the capacity only where it has to, and then by a power of two. -/
theorem run_new_eq (calls : List (ι × Call ι α)) (hword : Addressable calls fun _ => .new) :
    ∃ final, Sharing.new.run calls = .ok final ∧ ∀ i,
      let b := play Call.onBuffer calls (fun _ => .new) i
      let l := play Call.onList calls (fun _ => []) i
      ((final.site i).Shows b ∧ (final.site i).slice = .ok l ∧ b.toList = l) ∧
        (b.start + b.size ≤ b.capacity ∧ b.frontRoom + b.size + b.backRoom = b.capacity) ∧
        ∀ run, Grows b (b.extend run) b.backRoom run.length ∧
          Grows b (b.extendFront run) b.frontRoom run.length := by
  have first (i : ι) : ((Sharing.new : Sharing ι α).site i).Holds .new :=
    ⟨.new #[], show 0 < UInt64.size by decide⟩
  obtain ⟨final, went, holds⟩ := run_eq first (fun _ => Sound.new) hword
  refine ⟨final, went, fun i => ?_⟩
  intro b l
  have sound : b.Sound l := sound_play (fun _ => Sound.new) calls i
  have read : (final.site i).slice = .ok l := (holds i).toShows.slice_eq sound.toStores (holds i).small
  exact ⟨⟨(holds i).toShows, read, sound.toList_eq⟩,
    ⟨sound.window, frontRoom_add_size_add_backRoom sound.toStores⟩,
    fun run => ⟨sound.grows_extend run, sound.grows_extendFront run⟩⟩

/-- What is added to a copy and what is added to the original go to different memories. -/
theorem run_new_eq_of_copy :
    let calls : List (Bool × Call Bool Nat) :=
      [(false, .extend [1, 2]), (true, .clone false), (true, .append 3), (false, .prepend 0)]
    Addressable calls (fun _ => .new) ∧
      ∃ final, Sharing.new.run calls = .ok final ∧
        (final.site false).slice = .ok [0, 1, 2] ∧ (final.site true).slice = .ok [1, 2, 3] := by
  intro calls
  have small : Addressable calls (fun _ => .new) := by
    decide +kernel
  obtain ⟨final, went, shown⟩ := run_new_eq calls small
  exact ⟨small, final, went, (shown false).1.2.1, (shown true).1.2.1⟩

end Sharing

end ParserMachine.Buffer
