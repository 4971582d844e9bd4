import Mathlib.Algebra.Group.Nat.Defs
import ParserMachine.Proofs.Parser.Evaluation
import ParserMachine.Proofs.Parser.Failure

/-!
# Parsers see what remains of the input

A parser is run twice: on the rest of an input, and on that same rest as an input of its own. The two
runs have the same tokens before them, but count them from different places. `Behind n` relates what
is counted in the first run to what is counted in the second: an offset is greater by `n`, a line is
the same, and a column is greater by `n` as long as the line is the first.

Readers, failures and endings are related part by part, and whatever a parser does to related readers
gives related endings (`evaluate_behind`). The one exception is `observing`, which makes a value of an
error and thereby of its position. A parser without it is `Unobserving`.
-/

set_option autoImplicit false

namespace ParserMachine

/-! ### Cursors -/

namespace Cursor

/-- The first cursor counts `n` tokens more than the second, all of them on the first line. -/
structure Behind (n : Nat) (c c' : Cursor) : Prop where
  offset_eq : c.offset.toNat = c'.offset.toNat + n
  line_eq : c.line = c'.line
  column_eq : c.column.toNat = c'.column.toNat + if c'.line = 1 then n else 0

/-- Lines and columns are counted from 1, and not faster than tokens. -/
structure Counted (c : Cursor) : Prop where
  line_pos : 0 < c.line.toNat
  column_pos : 0 < c.column.toNat
  sum_le : c.line.toNat + c.column.toNat ≤ c.offset.toNat + 2

variable {n : Nat} {c c' d d' : Cursor}

/-- The cursor at the start of an input has counted nothing. -/
theorem counted_start : start.Counted := by
  constructor <;> decide

/-- Counting goes on by tokens that stay on their line. -/
theorem Counted.next {amount : UInt64} (h : c.Counted)
    (small : c.offset.toNat + amount.toNat < 2 ^ 63) : (c.next amount).Counted := by
  have line := h.line_pos
  have column := h.column_pos
  have sum := h.sum_le
  constructor <;> simp only [Cursor.next, UInt64.toNat_add] <;> omega

/-- Counting goes on by a line break. -/
theorem Counted.nextLine (h : c.Counted) (small : c.offset.toNat + 1 < 2 ^ 63) :
    c.nextLine.Counted := by
  have line := h.line_pos
  have column := h.column_pos
  have sum := h.sum_le
  have one : (1 : UInt64).toNat = 1 := rfl
  constructor <;> simp only [Cursor.nextLine, UInt64.toNat_add, one] <;> omega

namespace Behind

/-- Both cursors may go on by the same number of tokens on their line. -/
theorem next {amount : UInt64} (h : c.Behind n c') (hc : c'.Counted)
    (small : c.offset.toNat + amount.toNat < 2 ^ 63) :
    (c.next amount).Behind n (c'.next amount) := by
  have offset := h.offset_eq
  have column := h.column_eq
  have sum := hc.sum_le
  have few : (if c'.line = 1 then n else 0) ≤ n := by split <;> omega
  constructor
  · show (c.offset + amount).toNat = (c'.offset + amount).toNat + n
    rw [UInt64.toNat_add, UInt64.toNat_add]
    omega
  · exact h.line_eq
  · show (c.column + amount).toNat = (c'.column + amount).toNat + if c'.line = 1 then n else 0
    rw [UInt64.toNat_add, UInt64.toNat_add]
    omega

/-- Both cursors may go to the next line. -/
theorem nextLine (h : c.Behind n c') (hc : c'.Counted) (small : c.offset.toNat + 1 < 2 ^ 63) :
    c.nextLine.Behind n c'.nextLine := by
  have offset := h.offset_eq
  have positive := hc.line_pos
  have sum := hc.sum_le
  have one : (1 : UInt64).toNat = 1 := rfl
  -- The next line is not the first one, so from here on the columns are the same.
  have later : ¬c'.line + 1 = 1 := by
    intro first
    have first := congrArg UInt64.toNat first
    rw [UInt64.toNat_add, one] at first
    omega
  constructor
  · show (c.offset + 1).toNat = (c'.offset + 1).toNat + n
    rw [UInt64.toNat_add, UInt64.toNat_add, one]
    omega
  · show c.line + 1 = c'.line + 1
    rw [h.line_eq]
  · show (1 : UInt64).toNat = (1 : UInt64).toNat + if c'.line + 1 = 1 then n else 0
    rw [if_neg later, Nat.add_zero]

/-- Places are ordered the same in both runs. -/
theorem offset_lt_iff (h : c.Behind n c') (k : d.Behind n d') :
    c.offset < d.offset ↔ c'.offset < d'.offset := by
  rw [UInt64.lt_iff_toNat_lt, UInt64.lt_iff_toNat_lt, h.offset_eq, k.offset_eq]
  omega

/-- Places are equal in both runs or in neither. -/
theorem offset_eq_iff (h : c.Behind n c') (k : d.Behind n d') :
    c.offset = d.offset ↔ c'.offset = d'.offset := by
  rw [← UInt64.toNat_inj, ← UInt64.toNat_inj, h.offset_eq, k.offset_eq]
  omega

end Behind

end Cursor

/-! ### Readers -/

/-- The input without the given number of tokens at its front. -/
def Input.drop {τ : Type} (w : Input τ) (n : Nat) : Input τ where
  tokens := w.tokens.extract n
  size_lt := by
    have := w.size_lt
    rw [Array.size_extract]
    omega

/-- A number of tokens of an input is a word. -/
theorem Input.toNat_ofNat {τ : Type} {w : Input τ} {m : Nat} (h : m ≤ w.size) :
    (UInt64.ofNat m).toNat = m := by
  refine UInt64.toNat_ofNat_of_lt' (Nat.lt_of_le_of_lt h (Nat.lt_trans w.size_lt ?_))
  decide

/-- The tokens of a shortened input are those that are left. -/
theorem Input.toList_drop {τ : Type} (w : Input τ) (n : Nat) :
    (w.drop n).tokens.toList = w.tokens.toList.drop n := by
  simp [drop, List.take_of_length_le]

/-- A shortened input has as many tokens less. -/
theorem Input.size_drop {τ : Type} (w : Input τ) (n : Nat) : (w.drop n).size = w.size - n := by
  simp [drop, size]

namespace Reader

variable {τ : Type} {n : Nat} {w w' u u' : Reader τ}

/-- The first reader is in the whole of an input, and the second at the same token in the input from
which `n` tokens were dropped. -/
structure Behind (n : Nat) (w w' : Reader τ) : Prop where
  name_eq : w.name = w'.name
  input_eq : w'.input = w.input.drop n
  start_le : n ≤ w.input.size
  inside : w'.Inside
  counted : w'.cursor.Counted
  cursor : w.cursor.Behind n w'.cursor

namespace Behind

/-- The first reader has counted `n` tokens more. -/
theorem offset_eq (h : w.Behind n w') : w.offset = w'.offset + n := h.cursor.offset_eq

/-- Both readers have the same tokens before them. -/
theorem remaining_eq (h : w.Behind n w') : w.remaining = w'.remaining := by
  rw [Reader.remaining_eq, Reader.remaining_eq, h.offset_eq, h.input_eq, Input.toList_drop,
    List.drop_drop, Nat.add_comm]

/-- Both readers see the same token next. -/
theorem peek?_eq (h : w.Behind n w') : w.peek? = w'.peek? := by
  rw [peek?_eq_head?, peek?_eq_head?, h.remaining_eq]

/-- Both readers have as many tokens before them. -/
theorem remainingSize_eq (h : w.Behind n w') : w.remainingSize = w'.remainingSize := by
  rw [← length_remaining, ← length_remaining, h.remaining_eq]

/-- The first reader is inside its input as the second is inside its own. -/
theorem inside_left (h : w.Behind n w') : w.Inside := by
  have inside := h.inside
  have start := h.start_le
  rw [Inside, h.input_eq, Input.size_drop] at inside
  rw [Inside, h.offset_eq]
  omega

/-- Both readers may go on by the same number of tokens on their line. -/
theorem next {m : Nat} (h : w.Behind n w') (hm : m ≤ w.remainingSize) :
    (w.next m).Behind n (w'.next m) := by
  have size : w.input.size < 2 ^ 63 := w.input.size_lt
  have inside : w.cursor.offset.toNat ≤ w.input.size := h.inside_left
  have left : m ≤ w.input.size - w.cursor.offset.toNat := hm
  have word : (UInt64.ofNat m).toNat = m := Input.toNat_ofNat (Nat.le_trans left (Nat.sub_le _ _))
  have offset := h.cursor.offset_eq
  have small : w.cursor.offset.toNat + (UInt64.ofNat m).toNat < 2 ^ 63 := by
    rw [word]
    omega
  have small' : w'.cursor.offset.toNat + (UInt64.ofNat m).toNat < 2 ^ 63 := by omega
  refine ⟨h.name_eq, h.input_eq, h.start_le, ?_, h.counted.next small', h.cursor.next h.counted small⟩
  exact inside_next h.inside (h.remainingSize_eq ▸ hm)

/-- Both readers may go to the next line. -/
theorem nextLine {t : τ} (h : w.Behind n w') (ht : w.peek? = some t) :
    w.nextLine.Behind n w'.nextLine := by
  have size : w.input.size < 2 ^ 63 := w.input.size_lt
  have inside : w.cursor.offset.toNat < w.input.size := (Array.getElem?_eq_some_iff.1 ht).1
  have offset := h.cursor.offset_eq
  have small : w.cursor.offset.toNat + 1 < 2 ^ 63 := by omega
  have small' : w'.cursor.offset.toNat + 1 < 2 ^ 63 := by omega
  refine ⟨h.name_eq, h.input_eq, h.start_le, ?_, h.counted.nextLine small',
    h.cursor.nextLine h.counted small⟩
  exact (follows_nextLine (h.peek?_eq ▸ ht)).inside

end Behind

/-- Behind the first tokens of an input, and at the beginning of the rest. -/
theorem behind_ofInput {input : Input τ} (name : String) (h : n ≤ input.size) :
    ((ofInput input name).next n).Behind n (ofInput (input.drop n) name) := by
  have size : input.size < 2 ^ 63 := input.size_lt
  have word : (UInt64.ofNat n).toNat = n := Input.toNat_ofNat h
  have one : (1 : UInt64).toNat = 1 := rfl
  refine ⟨rfl, rfl, h, inside_ofInput _ name, Cursor.counted_start, ?_, rfl, ?_⟩
  · show ((0 : UInt64) + UInt64.ofNat n).toNat = 0 + n
    rw [UInt64.zero_add, word, Nat.zero_add]
  · show ((1 : UInt64) + UInt64.ofNat n).toNat = 1 + n
    rw [UInt64.toNat_add, word]
    omega

end Reader

/-! ### Failures and endings -/

variable {S : Signature} {n : Nat}

/-- The failures report the same, the first at a place behind that of the second. -/
structure Failure.Behind (n : Nat) (f f' : Failure S) : Prop where
  place : f.place.Behind n f'.place
  unexpected_eq : f.unexpected = f'.unexpected
  expected_eq : f.expected = f'.expected
  complaints_eq : f.complaints = f'.complaints

/-- Related failures are merged to related failures, since places are ordered the same. -/
theorem Failure.Behind.merge {f f' g g' : Failure S} (hf : f.Behind n f') (hg : g.Behind n g') :
    (f.merge g).Behind n (f'.merge g') := by
  rcases Std.lt_trichotomy f.place.offset g.place.offset with h | h | h
  · rw [merge_of_lt h, merge_of_lt ((hf.place.offset_lt_iff hg.place).1 h)]
    exact hg
  · rw [merge_of_eq h, merge_of_eq ((hf.place.offset_eq_iff hg.place).1 h)]
    refine ⟨hg.place, ?_, ?_, ?_⟩
    · simp only [join, hf.unexpected_eq, hg.unexpected_eq]
    · simp only [join, hf.expected_eq, hg.expected_eq]
    · simp only [join, hf.complaints_eq, hg.complaints_eq]
  · rw [merge_of_gt h, merge_of_gt ((hg.place.offset_lt_iff hf.place).1 h)]
    exact hf

/-- Related failures are related by any other name. -/
theorem Failure.Behind.renamed {f f' : Failure S} (h : f.Behind n f') (name : Option String) :
    (f.renamed name).Behind n (f'.renamed name) :=
  ⟨h.place, h.unexpected_eq, rfl, h.complaints_eq⟩

variable {k a b : Kind S.Base}

/-- The endings have the same value, or failures that report the same, at readers the first of which is
behind the second. -/
inductive Ending.Behind (n : Nat) : Ending S k → Ending S k → Prop where
  | ok (v : S.Val k) {w w' : Reader S.Token} (hw : w.Behind n w') : Behind n ⟨.ok v, w⟩ ⟨.ok v, w'⟩
  | error {f f' : Failure S} {w w' : Reader S.Token} (hf : f.Behind n f') (hw : w.Behind n w') :
    Behind n ⟨.error f, w⟩ ⟨.error f', w'⟩

/-- Both evaluations have related endings, or neither has one. -/
abbrev Ending.BehindOrNone (n : Nat) : Option (Ending S k) → Option (Ending S k) → Prop :=
  Option.Rel (Ending.Behind n)

namespace Ending.BehindOrNone

variable {x x' : Option (Ending S a)} {e e' : Ending S a}

/-- Related endings are continued to related endings, or to none in both runs. -/
theorem bind {f f' : Ending S a → Option (Ending S b)} (h : BehindOrNone n x x')
    (hf : ∀ e e', e.Behind n e' → BehindOrNone n (f e) (f' e')) :
    BehindOrNone n (x >>= f) (x' >>= f') := by
  cases h with
  | some he => exact hf _ _ he
  | none => exact .none

/-- Where the first evaluation has an ending, so has the second. -/
theorem exists_right (h : BehindOrNone n x x') (hx : x = some e) :
    ∃ e', x' = some e' ∧ e.Behind n e' := by
  subst hx
  cases h with
  | some he => exact ⟨_, rfl, he⟩

/-- Where the second evaluation has an ending, so has the first. -/
theorem exists_left (h : BehindOrNone n x x') (hx : x' = some e') :
    ∃ e, x = some e ∧ e.Behind n e' := by
  subst hx
  cases h with
  | some he => exact ⟨_, rfl, he⟩

end Ending.BehindOrNone

namespace Ending.Behind

variable {e e' : Ending S k} {w w' : Reader S.Token}

/-- Related endings leave related readers. -/
theorem reader (h : e.Behind n e') : e.reader.Behind n e'.reader := by
  cases h with
  | ok v hw => exact hw
  | error hf hw => exact hw

/-- Related readers are refused with related failures. -/
theorem refused (hw : w.Behind n w') (unexpected : Item S.Token) (expected : List (Item S.Token)) :
    (Ending.refused w unexpected expected : Ending S k).Behind n
      (.refused w' unexpected expected) :=
  .error ⟨hw.cursor, rfl, rfl, rfl⟩ hw

/-- A change of failures that keeps them related keeps endings related. -/
theorem mapFailure {f f' : Failure S → Failure S} (h : e.Behind n e')
    (hf : ∀ g g', g.Behind n g' → (f g).Behind n (f' g')) :
    (e.mapFailure f).Behind n (e'.mapFailure f') := by
  cases h with
  | ok v hw => exact .ok v hw
  | error hg hw => exact .error (hf _ _ hg) hw

/-- Sequences of related endings are related if what follows is. -/
theorem andThen {e e' : Ending S a} {next next' : S.Val a → Reader S.Token → Option (Ending S b)}
    (h : e.Behind n e')
    (hnext : ∀ v w w', w.Behind n w' → BehindOrNone n (next v w) (next' v w')) :
    BehindOrNone n (e.andThen next) (e'.andThen next') := by
  cases h with
  | ok v hw => exact hnext v _ _ hw
  | error hf hw => exact .some (.error hf hw)

/-- Choices are related if both parts are. -/
theorem orElse {other other' : Reader S.Token → Option (Ending S k)} (h : e.Behind n e')
    (hw : w.Behind n w')
    (hother : ∀ w w', w.Behind n w' → BehindOrNone n (other w) (other' w')) :
    BehindOrNone n (e.orElse w other) (e'.orElse w' other') := by
  cases h with
  | ok v hu => exact .some (.ok v hu)
  | @error f f' u u' hf hu =>
    -- Whether the second part runs is a comparison of places, which both runs decide alike.
    have same := hu.cursor.offset_eq_iff hw.cursor
    by_cases hplace : u.cursor.offset = w.cursor.offset
    · simp only [Ending.orElse, if_pos hplace, if_pos (same.1 hplace)]
      refine (hother u u' hu).bind fun e e' he => ?_
      exact .some (he.mapFailure fun g g' hg => hf.merge hg)
    · simp only [Ending.orElse, if_neg hplace, if_neg (mt same.2 hplace)]
      exact .some (.error hf hu)

/-- Going back to related readers keeps endings related. -/
theorem retried (h : e.Behind n e') (hw : w.Behind n w') :
    (e.retried w).Behind n (e'.retried w') := by
  cases h with
  | ok v hu => exact .ok v hu
  | error hf hu => exact .error hf hw

/-- Endings by another name are related, as both runs have failed at the start or neither has. -/
theorem relabelled (h : e.Behind n e') (hw : w.Behind n w') (name : Option String) :
    (e.relabelled w name).Behind n (e'.relabelled w' name) := by
  have same : e.failedAt w = e'.failedAt w' := by
    cases h with
    | ok v hu => rfl
    | error hf hu =>
      simp only [failedAt, hu.cursor.offset_eq_iff hw.cursor]
  rw [Ending.relabelled, Ending.relabelled, same]
  split
  · exact h.mapFailure fun g g' hg => hg.renamed name
  · exact h

/-- Looking ahead keeps endings related. -/
theorem peeked (h : e.Behind n e') (hw : w.Behind n w') :
    (e.peeked w).Behind n (e'.peeked w') := by
  cases h with
  | ok v hu => exact .ok v hw
  | error hf hu => exact .error hf hu

end Ending.Behind

/-! ### Parsers -/

namespace Parser

variable {w w' : Reader S.Token}

open Ending

/-- Both readers name the same item as the next one. -/
theorem nextItem_eq (hw : w.Behind n w') : nextItem w = nextItem w' := by
  rw [nextItem, nextItem, hw.peek?_eq]

/-- Negations of related endings are related, since both parsers consumed the same run. -/
theorem behind_negated {e e' : Ending S k} (h : e.Behind n e') (hw : w.Behind n w') :
    (e.negated w).Behind n (e'.negated w') := by
  cases h with
  | @ok v u u' hu =>
    have matched : u.offset - w.offset = u'.offset - w'.offset := by
      rw [hu.offset_eq, hw.offset_eq]
      omega
    simp only [negated, matched, hw.remaining_eq, nextItem_eq hw]
    exact .refused hw _ _
  | error hf hu => exact .ok _ hw

/-- Taking a token that passes a test has related endings. -/
theorem behind_takeIf (test : S.Token → Bool) (expected : List (Item S.Token))
    (hw : w.Behind n w') :
    (takeIf test expected w : Ending S .token).Behind n (takeIf test expected w') := by
  rw [takeIf, takeIf, ← hw.peek?_eq]
  split
  · next t ht =>
    obtain ⟨hpeek, -⟩ := Option.filter_eq_some_iff.1 ht
    exact .ok _ (hw.next (Reader.remainingSize_pos hpeek))
  · rw [nextItem_eq hw]
    exact .refused hw _ _

/-- Taking a run of tokens that are there has related endings. -/
theorem behind_takeRun {m : Nat} (hw : w.Behind n w') (hm : m ≤ w.remainingSize) :
    (takeRun w m : Ending S .run).Behind n (takeRun w' m) := by
  rw [takeRun, takeRun, hw.remaining_eq]
  exact .ok _ (hw.next hm)

/-- Taking some tokens in a row has related endings. -/
theorem behind_takeTokens (wanted : List S.Token) (hw : w.Behind n w') :
    (takeTokens wanted w : Ending S .run).Behind n (takeTokens wanted w') := by
  have matched : commonLength wanted w.remaining ≤ w.remainingSize := by
    rw [← w.length_remaining]
    exact commonLength_le_right _ _
  rw [takeTokens, takeTokens, ← hw.remaining_eq]
  split
  · exact behind_takeRun hw matched
  · have found : nextItems w wanted.length = nextItems w' wanted.length := by
      rw [nextItems, nextItems, hw.remaining_eq]
    rw [found]
    exact .error ⟨hw.cursor, rfl, rfl, rfl⟩ (hw.next matched)

/-- Taking a number of tokens has related endings. -/
theorem behind_takeCount (m : Nat) (hw : w.Behind n w') :
    (takeCount m w : Ending S .run).Behind n (takeCount m w') := by
  rw [takeCount, takeCount, ← hw.remaining_eq]
  split
  · exact .refused hw _ _
  · exact behind_takeRun hw (by rw [← w.length_remaining]; omega)

/-- Taking at least one token that passes a test has related endings. -/
theorem behind_takeSome (p : S.Token → Bool) (hw : w.Behind n w') :
    (takeSome p w : Ending S .run).Behind n (takeSome p w') := by
  rw [takeSome, takeSome, ← hw.remaining_eq]
  split
  · rw [nextItem_eq hw]
    exact .refused hw _ _
  · exact behind_takeRun hw (length_takeWhile_le w p)

/-- Asking for the end of the input has related endings. -/
theorem behind_takeEnd (hw : w.Behind n w') :
    (takeEnd w : Ending S .unit).Behind n (takeEnd w') := by
  rw [takeEnd, takeEnd, ← hw.peek?_eq]
  split
  · exact .ok _ hw
  · exact .refused hw _ _

/-- Taking a line break has related endings. -/
theorem behind_takeLineBreak (hw : w.Behind n w') :
    (takeLineBreak w : Ending S .token).Behind n (takeLineBreak w') := by
  rw [takeLineBreak, takeLineBreak, ← hw.peek?_eq]
  split
  · next t ht =>
    obtain ⟨hpeek, -⟩ := Option.filter_eq_some_iff.1 ht
    exact .ok _ (hw.nextLine hpeek)
  · rw [nextItem_eq hw]
    exact .refused hw _ _

/-- The parser has no `observing` in it, nor in any parser that one of its functions makes. Of the rules
that it names it is told by `quiet` which have none. -/
def Unobserving (quiet : S.Rule → Prop) : {k : Kind S.Base} → Parser S k → Prop
  | _, .pure _ | _, .error _ | _, .token _ | _, .tokens _ | _, .satisfy _ | _, .oneOf _
  | _, .noneOf _ | _, .take _ | _, .take1 | _, .takeWhile _ | _, .takeWhile1 _ | _, .eof
  | _, .newline => True
  | _, .map p _ => p.Unobserving quiet
  | _, .bind p f => p.Unobserving quiet ∧ ∀ v, (f v).Unobserving quiet
  | _, .selectMany p f _ => p.Unobserving quiet ∧ ∀ v, (f v).Unobserving quiet
  | _, .or p q => p.Unobserving quiet ∧ q.Unobserving quiet
  | _, .try p | _, .label _ p | _, .hidden p | _, .lookAhead p | _, .notFollowedBy p =>
    p.Unobserving quiet
  | _, .observing _ => False
  | _, .rule r => quiet r

variable {quiet : S.Rule → Prop}

/-- A parser without `observing` has related endings if the rules that it unfolds do. -/
theorem evaluateWith_behind
    {unfold : (r : S.Rule) → Reader S.Token → Option (Ending S (S.ruleKind r))}
    (h : ∀ r, quiet r → ∀ w w', w.Behind n w' → BehindOrNone n (unfold r w) (unfold r w'))
    (p : Parser S k) (hp : p.Unobserving quiet) (hw : w.Behind n w') :
    BehindOrNone n (p.evaluateWith unfold w) (p.evaluateWith unfold w') := by
  -- A parser within may start at any related readers, so these are general in the induction.
  induction p generalizing w w' with
  | pure v => exact .some (.ok v hw)
  | error c => exact .some (.error ⟨hw.cursor, rfl, rfl, rfl⟩ hw)
  | token | satisfy | oneOf | noneOf | take1 => exact .some (behind_takeIf _ _ hw)
  | tokens ts => exact .some (behind_takeTokens ts hw)
  | take m => exact .some (behind_takeCount m hw)
  | takeWhile p =>
    rw [evaluateWith, evaluateWith, ← hw.remaining_eq]
    exact .some (behind_takeRun hw (length_takeWhile_le w p))
  | takeWhile1 p => exact .some (behind_takeSome p hw)
  | eof => exact .some (behind_takeEnd hw)
  | newline => exact .some (behind_takeLineBreak hw)
  | map p f ih =>
    refine (ih hp hw).bind fun e e' he => he.andThen ?_
    intro v w w' hw
    exact .some (.ok (f v) hw)
  | bind p f ih ihf =>
    refine (ih hp.1 hw).bind fun e e' he => he.andThen ?_
    intro v w w' hw
    exact ihf v (hp.2 v) hw
  | selectMany p f project ih ihf =>
    refine (ih hp.1 hw).bind fun e e' he => he.andThen ?_
    intro v w w' hw
    refine (ihf v (hp.2 v) hw).bind fun e e' he => he.andThen ?_
    intro u w w' hw
    exact .some (.ok (project v u) hw)
  | or p q ihp ihq =>
    refine (ihp hp.1 hw).bind fun e e' he => he.orElse hw ?_
    intro w w' hw
    exact ihq hp.2 hw
  | «try» p ih => exact (ih hp hw).bind fun e e' he => .some (he.retried hw)
  | label name p ih => exact (ih hp hw).bind fun e e' he => .some (he.relabelled hw (some name))
  | hidden p ih => exact (ih hp hw).bind fun e e' he => .some (he.relabelled hw none)
  | lookAhead p ih => exact (ih hp hw).bind fun e e' he => .some (he.peeked hw)
  | notFollowedBy p ih => exact (ih hp hw).bind fun e e' he => .some (behind_negated he hw)
  -- The value would be an error with its position.
  | observing p ih => exact hp.elim
  | rule r => exact h r hp w w' hw

/-- Of parsers that observe nothing, evaluation depends on what remains of the input only. -/
theorem evaluate_behind {rules : Grammar S} (hrules : ∀ r, quiet r → (rules r).Unobserving quiet)
    (depth : Nat) (p : Parser S k) (hp : p.Unobserving quiet) (hw : w.Behind n w') :
    BehindOrNone n (p.evaluate rules depth w) (p.evaluate rules depth w') := by
  -- On the unfoldings that are left: rules are unfolded with one less.
  induction depth generalizing k p w w' with
  | zero => exact evaluateWith_behind (fun r _ w w' _ => .none) p hp hw
  | succ depth ih => exact evaluateWith_behind (fun r hr w w' hw => ih (rules r) (hrules r hr) hw) p hp hw

end Parser

end ParserMachine
