import Mathlib.Algebra.GroupWithZero.Nat
import Mathlib.Logic.Function.Basic
import ParserMachine.Proofs.Stack.Operations

/-!
# Stacks behave like lists of cells

A family of stacks, and calls that change one of them: that is a history of a program that uses
stacks. The same calls make sense of lists of cells, where they need no memory. `Call.onStack` and
`Call.onCells` are the two readings, and `play` goes through a history in either.

* `Call.refines` is one call: from stacks that stand for lists to stacks that stand for lists, with
  the same reply, unless a stack overflows.
* `mirrors_play` is a whole history of fresh stacks: the replies are those of the lists, faults
  included, and every stack answers each question as its list does. `Mirrors` lists the questions.

Questions about a slot counted from the top have an answer for every depth but the last word there
is, `2 ^ 64 - 1`: `atDepth_peekAt_of_empty` is the case of an empty stack.
-/

set_option autoImplicit false

namespace ParserMachine

variable {ι ω : Type}

/-- A call that may change a stack. Other stacks are told by their names. -/
inductive Stack.Call (ι ω : Type) : Type 1 where
  | withLimit (limit : Nat)
  | push (α : Type) [Inline α] (a : α)
  | pushObject (o : ω)
  | pushFrom (source : ι) (index : Nat)
  | append (source : ι)
  /-- Makes the stack a copy of another. -/
  | clone (source : ι)
  | pop
  | popN (n : Nat)
  | popValue (α : Type) [Inline α]
  | take (α : Type) [Inline α] [Boxed ω α]
  | takeObject (α : Type) [Boxed ω α]
  | dropUnder (keep drop : Nat)

/-- What a call says: an answer of the type that it has answers of, or a fault. -/
structure Stack.Reply : Type 1 where
  {β : Type}
  answer : Except Fault β

namespace Cell

/-- The value of type `α` in a cell, inline or boxed. -/
def held? {α : Type} [Inline α] [Boxed ω α] (c : Cell ω) : Option α :=
  (c.value? : Option α).or c.boxed?

/-- The arena bytes that a cell takes: an inline value and its header. -/
def arenaSize : Cell ω → Nat
  | inline _ bytes => bytes.length + 8
  | object _ => 0

/-- Whether a cell is an object. -/
def isObject : Cell ω → Bool
  | inline .. => false
  | object _ => true

/-- The bytes of an arena are counted cell by cell. -/
theorem length_arenaOf (l : List (Cell ω)) : (arenaOf l).length = (l.map arenaSize).sum := by
  induction l with
  | nil => rfl
  | cons c l ih =>
    rw [arenaOf_cons, List.length_append, ih, List.map_cons, List.sum_cons]
    cases c <;> simp [payload, arenaSize]

/-- The objects of a stack are counted cell by cell. -/
theorem length_objectsOf (l : List (Cell ω)) : (objectsOf l).length = l.countP isObject := by
  induction l with
  | nil => rfl
  | cons c l ih =>
    rw [objectsOf_cons, List.length_append, ih, List.countP_cons]
    cases c <;> simp [isObject, Nat.add_comm]

end Cell

namespace Stack

namespace Reply

/-- The call did what it is for, which has no answer. -/
def done : Reply := ⟨(.ok () : Except Fault Unit)⟩

/-- The call was refused. -/
def refused (fault : Fault) : Reply := ⟨(.error fault : Except Fault Unit)⟩

/-- The fault that a call was refused with, if it was. -/
def fault? (r : Reply) : Option Fault :=
  match r.answer with
  | .ok _ => none
  | .error fault => some fault

/-- Whether a call was refused because a stack may not grow. -/
def Overflowed (r : Reply) : Prop := ∃ fault, r.fault? = some fault ∧ fault.IsOverflow

end Reply

namespace Call

/-! ### Calls on stacks and on lists -/

/-- A stack after a change that may be refused. -/
def changed (s : Stack ω) : Except Fault (Stack ω) → Stack ω × Reply
  | .ok t => (t, .done)
  | .error fault => (s, .refused fault)

/-- A stack of which a value may have been taken. -/
def taken {α : Type} (s : Stack ω) : Except Fault (Option (α × Stack ω)) → Stack ω × Reply
  | .ok none => (s, ⟨.ok (none : Option α)⟩)
  | .ok (some (a, t)) => (t, ⟨.ok (some a)⟩)
  | .error fault => (s, .refused fault)

/-- A call on a stack, beside the stacks that it may name. -/
def onStack (family : ι → Stack ω) (s : Stack ω) : Call ι ω → Stack ω × Reply
  | .withLimit limit => (s.withLimit limit, .done)
  | @push _ _ _ _ a => changed s (s.push a)
  | .pushObject o => changed s (s.pushObject o)
  | .pushFrom source index => changed s (s.pushFrom (family source) index)
  | .append source => changed s (s.append (family source))
  | .clone source => ((family source).clone, .done)
  | .pop => changed s s.pop
  | .popN n =>
    let (t, fault?) := Stack.popN n s
    (t, (fault?.map .refused).getD .done)
  | @popValue _ _ α _ => taken s (s.popValue? : Except Fault (Option (α × Stack ω)))
  | @take _ _ α _ _ => taken s (s.take? : Except Fault (Option (α × Stack ω)))
  | @takeObject _ _ α _ => taken s (s.takeObject? : Except Fault (Option (α × Stack ω)))
  | .dropUnder keep drop => changed s (s.dropUnder keep drop)

/-- A list of which the last cell was taken, if it held a value of the type asked for. -/
def takenLast {α : Type} (l : List (Cell ω)) (held : Option α) : List (Cell ω) × Reply :=
  (if held.isSome then l.dropLast else l, ⟨.ok held⟩)

/-- The call on a list of cells, bottom first. -/
def onCells (lists : ι → List (Cell ω)) (l : List (Cell ω)) : Call ι ω → List (Cell ω) × Reply
  | .withLimit _ => (l, .done)
  | @push _ _ _ _ a => (l ++ [.ofValue a], .done)
  | .pushObject o => (l ++ [.object o], .done)
  | .pushFrom source index =>
    match (lists source)[index]? with
    | some c => (l ++ [c], .done)
    | none => (l, .refused (.corrupted .slotPastTop))
  | .append source => (l ++ lists source, .done)
  | .clone source => (lists source, .done)
  | .pop => (l.dropLast, if l.isEmpty then .refused (.corrupted .popOnEmpty) else .done)
  | .popN n =>
    (l.take (l.length - n), if l.length < n then .refused (.corrupted .popOnEmpty) else .done)
  | @popValue _ _ α _ => takenLast l (l.getLast?.bind Cell.value? : Option α)
  | @take _ _ α _ _ => takenLast l (l.getLast?.bind Cell.held? : Option α)
  | @takeObject _ _ α _ => takenLast l (l.getLast?.bind Cell.boxed? : Option α)
  | .dropUnder keep drop =>
    if drop = 0 then (l, .done)
    else if UInt64.size ≤ keep + drop then (l, .refused .rangeOutside)
    else if l.length < keep + drop then (l, .refused (.corrupted .dropPastBottom))
    else (l.take (l.length - (keep + drop)) ++ l.drop (l.length - keep), .done)

end Call

/-- Goes through calls, each on one member of a family, and collects the replies. -/
def play {σ : Type} [DecidableEq ι] (act : (ι → σ) → σ → Call ι ω → σ × Reply) :
    List (ι × Call ι ω) → (ι → σ) → (ι → σ) × List Reply
  | [], family => (family, [])
  | (i, call) :: calls, family =>
    let (member, reply) := act family (family i) call
    let (family, replies) := play act calls (Function.update family i member)
    (family, reply :: replies)

/-- A stack that nothing has been pushed on. -/
inductive Fresh : Stack ω → Prop where
  | withCapacity (capacity : Nat) : Fresh (.withCapacity capacity)
  | ofScratch (scratch : Array UInt8) : Fresh (.ofScratch scratch)
  | withLimit {s : Stack ω} (h : Fresh s) (limit : Nat) : Fresh (s.withLimit limit)

/-- A stack that nothing was done to but to set its limit stands for no cells. -/
theorem Fresh.represents {s : Stack ω} (h : Fresh s) : s.Represents [] := by
  induction h with
  | withCapacity capacity => exact represents_withCapacity capacity
  | ofScratch scratch => exact represents_ofScratch scratch
  | withLimit _ limit ih => exact ih.withLimit limit

/-- The stack answers every question as the list does, bottom first. -/
structure Mirrors (s : Stack ω) (l : List (Cell ω)) : Prop where
  len : s.count = l.length
  get {α : Type} [Inline α] (i : Nat) : (s.get? i : Option α) = l[i]?.bind Cell.value?
  object {α : Type} [Boxed ω α] (i : Nat) : (s.object? i : Option α) = l[i]?.bind Cell.boxed?
  peek {α : Type} [Inline α] : (s.peek? : Option α) = l.getLast?.bind Cell.value?
  peekObject {α : Type} [Boxed ω α] : (s.peekObject? : Option α) = l.getLast?.bind Cell.boxed?
  peekCloned {α : Type} [Inline α] [Boxed ω α] :
    (s.peekValue? : Option α) = l.getLast?.bind Cell.held?
  peekAt {α : Type} [Inline α] (depth : Nat) :
    atDepth depth (s.peekAt? depth : Option α) =
      if depth < UInt64.size - 1 then .ok (l.reverse[depth]?.bind Cell.value?) else .error .rangeOutside
  holds (α : Type) [Inline α] [Boxed ω α] (depth : Nat) :
    atDepth depth (s.holds α depth) =
      if depth < UInt64.size - 1 then .ok (l.reverse[depth]?.bind Cell.held? : Option α).isSome
      else .error .rangeOutside
  isObject (depth : Nat) :
    atDepth depth (s.isObject depth) =
      if depth < UInt64.size - 1 then .ok (l.reverse[depth]?.any Cell.isObject)
      else .error .rangeOutside
  top : s.top = (l.map Cell.arenaSize).sum
  bottom : s.bottom = 4 * l.length
  objects : s.objects.size = l.countP Cell.isObject
  room : s.top + s.bottom ≤ s.capacity
  limit : s.capacity ≤ s.limit

namespace Represents

variable {s : Stack ω} {l : List (Cell ω)}

/-! ### Questions -/

/-- A look at the top is one at the last cell. -/
theorem peek?_eq {α : Type} [Inline α] (h : s.Represents l) :
    (s.peek? : Option α) = l.getLast?.bind Cell.value? := by
  rw [peek?, h.peekAt?_eq, ← List.head?_reverse, List.head?_eq_getElem?]

/-- A look for an object at the top is one at the last cell. -/
theorem peekObject?_eq_getLast? {α : Type} [Boxed ω α] (h : s.Represents l) :
    (s.peekObject? : Option α) = l.getLast?.bind Cell.boxed? := by
  rw [h.peekObject?_eq, ← List.head?_reverse, List.head?_eq_getElem?]

/-- Two readings of one cell, tried one after the other. -/
theorem bind_or {α : Type} (c : Option (Cell ω)) (f g : Cell ω → Option α) :
    (c.bind f).or (c.bind g) = c.bind fun c => (f c).or (g c) := by
  cases c <;> rfl

/-- A look at the top for a value in either form is one at the last cell. -/
theorem peekValue?_eq {α : Type} [Inline α] [Boxed ω α] (h : s.Represents l) :
    (s.peekValue? : Option α) = l.getLast?.bind Cell.held? := by
  rw [peekValue?, h.peek?_eq, h.peekObject?_eq_getLast?, bind_or]
  rfl

/-- A slot holds a value, in whatever form, just where its cell does. -/
theorem holds_eq (α : Type) [Inline α] [Boxed ω α] (h : s.Represents l) (depth : Nat) :
    s.holds α depth = (l.reverse[depth]?.bind Cell.held? : Option α).isSome := by
  rw [holds, h.peekAt?_eq, h.bind_indexOf? depth _ _ h.object?_eq, ← Option.isSome_or, bind_or]
  rfl

/-- A slot is an object slot just where its cell is an object. -/
theorem isObject_eq_any (h : s.Represents l) (depth : Nat) :
    s.isObject depth = l.reverse[depth]?.any Cell.isObject := by
  rw [h.isObject_eq]
  cases l.reverse[depth]? with
  | none => rfl
  | some c => cases c <;> rfl

/-- An answer about a depth is given as long as the next depth is a word, too. -/
theorem atDepth_eq {β : Type} (depth : Nat) {answer answer' : β} (h : answer = answer') :
    atDepth depth answer =
      if depth < UInt64.size - 1 then .ok answer' else .error .rangeOutside := by
  rw [atDepth, h]
  by_cases hd : depth < UInt64.size - 1
  · rw [if_pos hd, if_pos (by omega)]
  · rw [if_neg hd, if_neg (by omega)]

/-- A stack that stands for a list answers as the list does. -/
theorem mirrors (h : s.Represents l) : s.Mirrors l where
  len := h.count_eq
  get := h.get?_eq
  object := h.object?_eq
  peek := h.peek?_eq
  peekObject := h.peekObject?_eq_getLast?
  peekCloned := h.peekValue?_eq
  peekAt depth := atDepth_eq depth (h.peekAt?_eq depth)
  holds α _ _ depth := atDepth_eq depth (h.holds_eq α depth)
  isObject depth := atDepth_eq depth (h.isObject_eq_any depth)
  top := by rw [h.top_eq, Cell.length_arenaOf]
  bottom := by rw [Stack.bottom, h.count_eq, entrySize, Nat.mul_comm]
  objects := by rw [h.objects_size, Cell.length_objectsOf]
  room := h.layout.room
  limit := h.capacity_le

end Represents

/-! ### Calls -/

namespace Call

variable {s : Stack ω} {l : List (Cell ω)} {family : ι → Stack ω} {lists : ι → List (Cell ω)}

/-- A call on a stack and the same call on its list went alike, unless the stack overflowed. -/
def Alike (x : Stack ω × Reply) (y : List (Cell ω) × Reply) : Prop :=
  x.2.Overflowed ∨ x.2 = y.2 ∧ x.1.Represents y.1

/-- A call that is refused for want of room is one that overflowed. -/
theorem overflowed_refused {fault : Fault} (h : fault.IsOverflow) : (Reply.refused fault).Overflowed :=
  ⟨fault, rfl, h⟩

/-- A change that answers, unless the stack overflows. -/
theorem alike_changed {x : Except Fault (Stack ω)} {m : List (Cell ω)}
    (h : Fits x (·.Represents m)) : Alike (changed s x) (m, .done) := by
  cases x with
  | ok t => exact .inr ⟨rfl, h⟩
  | error fault => exact .inl (overflowed_refused h)

/-- A change that is refused, on the list as well. -/
theorem alike_refused (h : s.Represents l) (fault : Fault) :
    Alike (changed s (.error fault)) (l, .refused fault) :=
  .inr ⟨rfl, h⟩

/-- A stack is empty, or has a top cell. -/
theorem nil_or_append (h : s.Represents l) :
    (l = [] ∧ s.Represents []) ∨ ∃ m c, l = m ++ [c] ∧ s.Represents (m ++ [c]) := by
  rcases List.eq_nil_or_concat l with rfl | ⟨m, c, rfl⟩
  · exact .inl ⟨rfl, h⟩
  · exact .inr ⟨m, c, List.concat_eq_append, by rwa [List.concat_eq_append] at h⟩

/-- A pop does to a stack what taking the last element does to the list. -/
theorem alike_pop (h : s.Represents l) : Alike (changed s s.pop) (onCells lists l .pop) := by
  rcases nil_or_append h with ⟨rfl, h⟩ | ⟨m, c, rfl, h⟩
  · rw [h.pop_nil]
    exact alike_refused h _
  · obtain ⟨t, hpop, ht⟩ := h.pop
    rw [hpop]
    exact .inr ⟨by simp [changed, onCells], by simpa [changed, onCells] using ht⟩

/-- Popping several cells pops what there is. -/
theorem popN_eq (h : s.Represents l) (n : Nat) :
    (Stack.popN n s).1.Represents (l.take (l.length - n)) ∧
      (Stack.popN n s).2 = if l.length < n then some (.corrupted .popOnEmpty) else none := by
  induction n generalizing s l with
  | zero => exact ⟨by simpa [Stack.popN] using h, by simp [Stack.popN]⟩
  | succ n ih =>
    rw [Stack.popN]
    rcases nil_or_append h with ⟨rfl, h⟩ | ⟨m, c, rfl, h⟩
    · rw [h.pop_nil]
      exact ⟨by simpa using h, by simp⟩
    · obtain ⟨t, hpop, ht⟩ := h.pop
      have size : (m ++ [c]).length - (n + 1) = m.length - n := by simp
      rw [hpop, size, List.take_append_of_le_length (Nat.sub_le _ _)]
      exact ⟨(ih ht).1, by simpa using (ih ht).2⟩

/-- Taking a value that the top cell holds, or does not hold. -/
theorem alike_taken {α : Type} (h : s.Represents l) {read : Cell ω → Option α}
    {x : Except Fault (Option (α × Stack ω))} {held : Option α}
    (hx : x = match held with
      | none => .ok none
      | some a => return some (a, ← s.pop))
    (hheld : held = l.getLast?.bind read) :
    Alike (taken s x) (takenLast l (l.getLast?.bind read)) := by
  rw [← hheld]
  cases held with
  | none =>
    subst hx
    exact .inr ⟨rfl, h⟩
  | some a =>
    rcases nil_or_append h with ⟨rfl, -⟩ | ⟨m, c, rfl, h⟩
    · cases hheld
    · obtain ⟨t, hpop, ht⟩ := h.pop
      rw [hpop] at hx
      subst hx
      exact .inr ⟨rfl, by simpa [takenLast, taken] using ht⟩

/-- Dropping slots does to a stack what it does to the list, also where there are too few of them. -/
theorem alike_dropUnder (h : s.Represents l) (keep drop : Nat) :
    Alike (changed s (s.dropUnder keep drop)) (onCells lists l (.dropUnder keep drop)) := by
  -- The guards of the call, in its order; past them the list is split as `Represents.dropUnder` has it.
  by_cases hnone : drop = 0
  · rw [Stack.dropUnder, onCells, if_pos hnone, if_pos hnone]
    exact .inr ⟨rfl, h⟩
  by_cases hword : UInt64.size ≤ keep + drop
  · rw [Stack.dropUnder, onCells, if_neg hnone, if_neg hnone, if_pos hword, if_pos hword]
    exact alike_refused h _
  by_cases hfew : l.length < keep + drop
  · rw [Stack.dropUnder, onCells, if_neg hnone, if_neg hnone, if_neg hword, if_neg hword,
      if_pos (by rwa [h.count_eq]), if_pos hfew]
    exact alike_refused h _
  · rw [onCells, if_neg hnone, if_neg hword, if_neg hfew]
    have split : l = l.take (l.length - (keep + drop)) ++
        (l.drop (l.length - (keep + drop))).take drop ++ l.drop (l.length - keep) := by
      have rest : (l.drop (l.length - (keep + drop))).drop drop = l.drop (l.length - keep) := by
        rw [List.drop_drop]
        congr 1
        omega
      rw [List.append_assoc, ← rest, List.take_append_drop, List.take_append_drop]
    have dropped : ((l.drop (l.length - (keep + drop))).take drop).length = drop := by
      simp only [List.length_take, List.length_drop]
      omega
    have kept : (l.drop (l.length - keep)).length = keep := by
      simp only [List.length_drop]
      omega
    obtain ⟨t, hdrop, ht⟩ := Represents.dropUnder (split ▸ h)
    rw [dropped, kept] at hdrop
    rw [hdrop]
    exact .inr ⟨rfl, ht⟩

/-- A call on a stack goes like the call on its list. -/
theorem refines (hs : ∀ i, (family i).Represents (lists i)) (h : s.Represents l)
    (call : Call ι ω) : Alike (call.onStack family s) (call.onCells lists l) := by
  cases call with
  | withLimit limit => exact .inr ⟨rfl, h.withLimit limit⟩
  | push α a => exact alike_changed (h.push a)
  | pushObject o => exact alike_changed (h.pushObject o)
  | pushFrom source index =>
    simp only [onStack, onCells]
    cases hcell : (lists source)[index]? with
    | some c => exact alike_changed (h.pushFrom (hs source) hcell)
    | none =>
      rw [pushFrom_eq_error (hs source) (List.getElem?_eq_none_iff.1 hcell)]
      exact alike_refused h _
  | append source => exact alike_changed (h.append (hs source))
  | clone source => exact .inr ⟨rfl, (hs source).clone⟩
  | pop => exact alike_pop h
  | popN n =>
    obtain ⟨left, fault⟩ := popN_eq h n
    refine .inr ⟨?_, left⟩
    simp only [onStack, onCells, fault]
    split <;> rfl
  | popValue α => exact alike_taken h rfl h.peek?_eq
  | take α => exact alike_taken h rfl h.peekValue?_eq
  | takeObject α => exact alike_taken h rfl h.peekObject?_eq_getLast?
  | dropUnder keep drop => exact alike_dropUnder h keep drop

end Call

/-! ### Histories -/

variable [DecidableEq ι]

/-- Calls on a family of stacks reply as those on the lists do, and leave stacks that stand for the
lists, as long as none of them overflows. By induction on the calls. -/
theorem represents_play {family : ι → Stack ω} {lists : ι → List (Cell ω)}
    (hs : ∀ i, (family i).Represents (lists i)) (calls : List (ι × Call ι ω))
    (fits : ∀ reply ∈ (play Call.onStack calls family).2, ¬ reply.Overflowed) :
    (play Call.onStack calls family).2 = (play Call.onCells calls lists).2 ∧
      ∀ i, ((play Call.onStack calls family).1 i).Represents
        ((play Call.onCells calls lists).1 i) := by
  -- Call by call; a stack that overflowed would have replied so, which `fits` excludes.
  induction calls generalizing family lists with
  | nil => exact ⟨rfl, hs⟩
  | cons head calls ih =>
    obtain ⟨i, call⟩ := head
    simp only [play] at fits ⊢
    rcases Call.refines hs (hs i) call with overflowed | ⟨reply, member⟩
    · exact absurd overflowed (fits _ List.mem_cons_self)
    · have next (j : ι) : (Function.update family i (call.onStack family (family i)).1 j).Represents
          (Function.update lists i (call.onCells lists (lists i)).1 j) := by
        by_cases hj : j = i
        · subst hj
          simpa using member
        · simpa [hj] using hs j
      obtain ⟨replies, represented⟩ :=
        ih next fun reply hreply => fits reply (List.mem_cons_of_mem _ hreply)
      exact ⟨by rw [reply, replies], represented⟩

/-- Whatever was done with fresh stacks, as long as none of them overflowed: every call was answered
or refused as on lists of cells, and every stack answers as its list does. -/
theorem mirrors_play {family : ι → Stack ω} (hs : ∀ i, (family i).Fresh)
    (calls : List (ι × Call ι ω))
    (fits : ∀ reply ∈ (play Call.onStack calls family).2, ¬ reply.Overflowed) :
    (play Call.onStack calls family).2 = (play Call.onCells calls fun _ => []).2 ∧
      ∀ i, ((play Call.onStack calls family).1 i).Represents
          ((play Call.onCells calls fun _ => []).1 i) ∧
        ((play Call.onStack calls family).1 i).Mirrors
          ((play Call.onCells calls fun _ => []).1 i) := by
  obtain ⟨replies, represented⟩ := represents_play (fun i => (hs i).represents) calls fits
  exact ⟨replies, fun i => ⟨represented i, (represented i).mirrors⟩⟩

/-- A value and an object are pushed and the value is dropped from under the object, all in sixty-four
bytes; of the two slots that are then popped there is one. -/
theorem mirrors_play_of_five_calls :
    let calls : List (Unit × Call Unit String) :=
      [((), .push UInt8 7), ((), .pushObject "kept"), ((), .dropUnder 1 1), ((), .pop), ((), .pop)]
    let family : Unit → Stack String := fun _ => .withCapacity 64
    (play Call.onStack calls family).2.map Reply.fault? =
        [none, none, none, none, some (.corrupted .popOnEmpty)] ∧
      ((play Call.onStack calls family).1 ()).Mirrors [] := by
  intro calls family
  have faults : (play Call.onStack calls family).2.map Reply.fault? =
      [none, none, none, none, some (.corrupted .popOnEmpty)] := by decide +kernel
  have fits (reply : Reply) (hreply : reply ∈ (play Call.onStack calls family).2) :
      ¬ reply.Overflowed := by
    rintro ⟨fault, hfault, hoverflow⟩
    have told : some fault ∈ (play Call.onStack calls family).2.map Reply.fault? :=
      hfault ▸ List.mem_map_of_mem hreply
    rw [faults] at told
    simp only [List.mem_cons, List.not_mem_nil, or_false, reduceCtorEq, false_or,
      Option.some.injEq] at told
    subst told
    exact hoverflow
  have fresh (i : Unit) : (family i).Fresh := .withCapacity 64
  obtain ⟨-, mirrored⟩ := mirrors_play fresh calls fits
  have emptied : (play Call.onCells calls fun _ => []).1 () = [] := rfl
  exact ⟨faults, emptied ▸ (mirrored ()).2⟩

/-- The last word there is is no depth that a stack can be asked about: the next one is not a word. -/
theorem atDepth_peekAt_of_empty :
    atDepth (UInt64.size - 1) ((new : Stack Unit).peekAt? (UInt64.size - 1) : Option UInt8) =
        .error .rangeOutside ∧
      ((([] : List (Cell Unit)).reverse[UInt64.size - 1]?).bind Cell.value? : Option UInt8) = none :=
  ⟨rfl, rfl⟩

end Stack

end ParserMachine
