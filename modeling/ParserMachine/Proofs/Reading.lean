import ParserMachine.Input
import ParserMachine.Parser.Evaluation

/-!
# Reading inside an input

Cursors are words, and an input is short enough that no word overflows as long as the reader is
`Inside` it. There, moving a reader is moving along the list of the tokens that remain, a span of the
input is a front of that list, and the counts that the machine takes on the array are the counts that
the evaluator takes on the list.

`Follows` is what a parser does to a reader: it stays in the same input of the same source, and
where it is not at the same place, it is further on.
-/

set_option autoImplicit false

namespace ParserMachine

variable {τ : Type}

namespace Reader

/-- The reader is at a place of its input, or behind the last one. -/
def Inside (r : Reader τ) : Prop := r.offset ≤ r.input.size

/-- The reader is at the same place as the other, or further on in the same input. -/
structure Follows (r' r : Reader τ) : Prop where
  input_eq : r'.input = r.input
  name_eq : r'.name = r.name
  inside : r'.Inside
  moved : r'.cursor = r.cursor ∨ r.offset < r'.offset

/-- The start of an input is inside it. -/
theorem inside_ofInput (input : Input τ) (name : String) : (ofInput input name).Inside :=
  Nat.zero_le _

namespace Follows

variable {r r' r'' : Reader τ}

/-- A reader follows itself. -/
theorem refl (h : r.Inside) : r.Follows r := ⟨rfl, rfl, h, .inl rfl⟩

/-- A reader is not before the one that it follows. -/
theorem offset_le (h : r'.Follows r) : r.offset ≤ r'.offset := by
  rcases h.moved with same | less
  · exact Nat.le_of_eq (congrArg (fun c => c.offset.toNat) same.symm)
  · exact Nat.le_of_lt less

/-- What follows a follower follows the first. -/
theorem trans (h : r'.Follows r) (h' : r''.Follows r') : r''.Follows r where
  input_eq := h'.input_eq.trans h.input_eq
  name_eq := h'.name_eq.trans h.name_eq
  inside := h'.inside
  moved := by
    have := h.offset_le
    have := h'.offset_le
    rcases h.moved, h'.moved with ⟨same | less, same' | less'⟩
    · exact .inl (same'.trans same)
    all_goals exact .inr (by omega)

/-- A reader that did not get on is where it was. -/
theorem eq_of_offset_eq (h : r'.Follows r) (heq : r'.cursor.offset = r.cursor.offset) : r' = r := by
  obtain ⟨input, name, cursor⟩ := r'
  obtain ⟨rfl, rfl, -, same | less⟩ := h
  · rw [show cursor = r.cursor from same]
  · rw [offset, offset, heq] at less
    exact absurd less (Nat.lt_irrefl _)

/-- The way back is to the reader that one came from. -/
theorem restore (h : r'.Follows r) : r'.restore r.cursor = r := by
  obtain ⟨input, name, cursor⟩ := r'
  obtain ⟨rfl, rfl, -, -⟩ := h
  rfl

end Follows

/-! ### Moving on -/

variable {r : Reader τ}

/-- The tokens that remain are those of the input from the offset on. -/
theorem remaining_eq (r : Reader τ) : r.remaining = r.input.tokens.toList.drop r.offset := by
  rw [remaining, Array.toList_extract, List.extract_eq_take_drop, List.take_of_length_le]
  simp [Input.size]

/-- As many tokens remain as are counted. -/
theorem length_remaining (r : Reader τ) : r.remaining.length = r.remainingSize := by
  rw [remaining_eq, List.length_drop, Array.length_toList, remainingSize, Input.size]

/-- The next token is the first one that remains. -/
theorem peek?_eq_head? (r : Reader τ) : r.peek? = r.remaining.head? := by
  rw [remaining_eq, List.head?_drop, Array.getElem?_toList, peek?]

/-- Going on by tokens that are there counts them. -/
theorem offset_next {n : Nat} (h : r.Inside) (hn : n ≤ r.remainingSize) :
    (r.next n).offset = r.offset + n := by
  have size := r.input.size_lt
  have small : r.offset + n < UInt64.size := by
    unfold remainingSize Input.size at hn
    unfold Inside Input.size at h
    omega
  show (r.cursor.offset + UInt64.ofNat n).toNat = r.cursor.offset.toNat + n
  unfold offset at small
  have few : n < UInt64.size := Nat.lt_of_le_of_lt (Nat.le_add_left n _) small
  rw [UInt64.toNat_add, UInt64.toNat_ofNat_of_lt' few, Nat.mod_eq_of_lt small]

/-- Going on by tokens that are there stays inside the input. -/
theorem inside_next {n : Nat} (h : r.Inside) (hn : n ≤ r.remainingSize) : (r.next n).Inside := by
  rw [Inside, offset_next h hn]
  unfold remainingSize at hn
  unfold Inside at h
  exact Nat.add_le_of_le_sub' h hn

/-- Going on by tokens that are there follows where one was. -/
theorem follows_next {n : Nat} (h : r.Inside) (hn : n ≤ r.remainingSize) :
    (r.next n).Follows r := by
  refine ⟨rfl, rfl, inside_next h hn, ?_⟩
  cases n with
  | zero => exact .inl (by simp [next, restore, Cursor.next])
  | succ n => exact .inr (by rw [offset_next h hn]; omega)

/-- Where a token comes next, at least one is left. -/
theorem remainingSize_pos {t : τ} (h : r.peek? = some t) : 1 ≤ r.remainingSize := by
  obtain ⟨hlt, -⟩ := Array.getElem?_eq_some_iff.1 h
  unfold remainingSize Input.size
  omega

/-- Going to the next line counts one token. -/
theorem offset_nextLine {t : τ} (h : r.peek? = some t) : r.nextLine.offset = r.offset + 1 := by
  have size := r.input.size_lt
  obtain ⟨hlt, -⟩ := Array.getElem?_eq_some_iff.1 h
  show (r.cursor.offset + 1).toNat = r.cursor.offset.toNat + 1
  unfold offset at hlt
  rw [UInt64.toNat_add, show (1 : UInt64).toNat = 1 from rfl]
  unfold UInt64.size at size
  omega

/-- Going to the next line follows where one was. -/
theorem follows_nextLine {t : τ} (h : r.peek? = some t) : r.nextLine.Follows r := by
  obtain ⟨hlt, -⟩ := Array.getElem?_eq_some_iff.1 h
  refine ⟨rfl, rfl, ?_, .inr (by rw [offset_nextLine h]; omega)⟩
  rw [Inside, offset_nextLine h]
  exact hlt

/-- The tokens of a span that starts at the reader. -/
theorem of_span {n : Nat} (h : r.Inside) (hn : n ≤ r.remainingSize) :
    (r.span n).of r.input = .ok (r.remaining.take n) := by
  have size := r.input.size_lt
  have few : n < UInt64.size := by
    unfold remainingSize Input.size at hn
    exact Nat.lt_trans (show n < UInt64.size / 2 by omega) (by decide)
  have stop : (r.span n).stop = r.offset + n := by
    show r.offset + (UInt64.ofNat n).toNat = r.offset + n
    rw [UInt64.toNat_ofNat_of_lt' few]
  have start : (r.span n).start.toNat = r.offset := rfl
  rw [Span.of, stop, start, if_pos, Array.toList_extract, List.extract_eq_take_drop, remaining_eq,
    Nat.add_sub_cancel_left]
  unfold remainingSize at hn
  unfold Inside at h
  omega

end Reader

/-! ### Counting -/

namespace Input

/-- The tokens from a place on are the one there and those behind it. -/
theorem drop_eq_cons (w : Input τ) {place : Nat} (h : place < w.tokens.size) :
    w.tokens.toList.drop place = w.tokens[place] :: w.tokens.toList.drop (place + 1) := by
  rw [List.drop_eq_getElem_cons (by rwa [Array.length_toList]), Array.getElem_toList]

/-- The run that satisfies a predicate, counted on the array and on the list. -/
theorem countWhile_eq (w : Input τ) (p : τ → Bool) (place : Nat) :
    w.countWhile p place = ((w.tokens.toList.drop place).takeWhile p).length := by
  rw [countWhile]
  suffices w.endOfRun p place = place + ((w.tokens.toList.drop place).takeWhile p).length by omega
  fun_induction endOfRun w p place with
  | case1 place h hp ih =>
    rw [ih, w.drop_eq_cons h, List.takeWhile_cons, if_pos hp, List.length_cons]
    omega
  | case2 place h hp =>
    rw [w.drop_eq_cons h, List.takeWhile_cons, if_neg hp]
    rfl
  | case3 place h => simp [List.drop_eq_nil_of_le (by simpa using h : w.tokens.toList.length ≤ place)]

/-- The common front with a run, counted on the array and on the list. -/
theorem countCommon_eq {S : Signature} (w : Input S.Token) (run : List S.Token) (place : Nat) :
    w.countCommon run place = Parser.commonLength run (w.tokens.toList.drop place) := by
  induction run generalizing place with
  | nil => rfl
  | cons t run ih =>
    rw [countCommon]
    by_cases h : place < w.tokens.size
    · rw [w.drop_eq_cons h, Parser.commonLength, Array.getElem?_eq_getElem h, ih]
      simp only [Option.some.injEq]
      by_cases ht : t = w.tokens[place]
      · rw [if_pos ht, if_pos ht.symm]
      · rw [if_neg ht, if_neg (Ne.symm ht)]
    · rw [Array.getElem?_eq_none (by omega), if_neg (by simp),
        List.drop_eq_nil_of_le (by simpa using h), Parser.commonLength]
      simp

end Input

/-- The tokens before a reader that pass a test, counted on the array and on what remains. -/
theorem Reader.countWhile_eq (r : Reader τ) (p : τ → Bool) :
    r.input.countWhile p r.offset = (r.remaining.takeWhile p).length := by
  rw [Input.countWhile_eq, Reader.remaining_eq]

/-- The tokens before a reader that begin a run, counted on the array and on what remains. -/
theorem Reader.countCommon_eq {S : Signature} (r : Reader S.Token) (run : List S.Token) :
    r.input.countCommon run r.offset = Parser.commonLength run r.remaining := by
  rw [Input.countCommon_eq, Reader.remaining_eq]

namespace Parser

variable {S : Signature}

/-- A list has no more in common with another than that one has. -/
theorem commonLength_le_right (wanted found : List S.Token) :
    commonLength wanted found ≤ found.length := by
  fun_induction commonLength wanted found with
  | case1 a as bs ih => exact Nat.succ_le_succ ih
  | case2 | case3 => exact Nat.zero_le _

end Parser

end ParserMachine
