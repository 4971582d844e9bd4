import Mathlib.Data.List.DropRight
import Mathlib.Data.List.Sort
import Mathlib.Data.String.Basic
import ParserMachine.Error.Rendering

/-!
# The line that an error points at

An error is shown over the line of the source that its position names. `ParseError.excerpt` counts
characters to find that line, `ParseError.render` searches the bytes for line feeds and slices the line out
of the source. The places that a search tells are counted in bytes and columns in characters; lines may be
empty, the last one need not be ended, and the number of a line is two more than that of the line feed in
front of it when these are counted from zero.

Both go from line feed to line feed, and so do the proofs. Behind the first line feed everything is as in a
source that begins there: for the characters (`afterLineFeeds_succ_append`), for the places of the byte
(`ByteSearch.Exact.all_append`), and so for where a line starts (`lineStart?_append`). That the byte is not
part of another character (`lineFeed_mem_encoded`) is what lets the two walks keep pace, and a line between
two of them begins and ends with its characters (`slice_encoded`). The lines are those that the source is
split into (`getElem?_splitOn`).
-/

set_option autoImplicit false

namespace ParserMachine

/-! ### Lines of characters -/

namespace ParseError

/-- A character is passed over, and a line feed is counted. -/
theorem afterLineFeeds_succ_cons (n : Nat) (c : Char) (cs : List Char) :
    afterLineFeeds (n + 1) (c :: cs) =
      if c = '\n' then afterLineFeeds n cs else afterLineFeeds (n + 1) cs := by
  by_cases h : c = '\n' <;> simp [afterLineFeeds, h]

/-- The lines that a source is split into at its line feeds. -/
theorem getElem?_splitOn (cs : List Char) (n : Nat) :
    (cs.splitOn '\n')[n]? = (afterLineFeeds n cs).map fun rest => rest.takeWhile (· ≠ '\n') := by
  induction cs generalizing n with
  | nil =>
    cases n with
    | zero => rfl
    | succ n => simp [List.splitOn, afterLineFeeds]
  | cons c cs ih =>
    rw [List.splitOn, List.splitOnP_cons_eq_if_modifyHead]
    by_cases h : c = '\n'
    · rw [if_pos (by simpa using h)]
      cases n with
      | zero => simp [afterLineFeeds, h]
      | succ n =>
        rw [List.getElem?_cons_succ, afterLineFeeds_succ_cons, if_pos h]
        exact ih n
    · -- The character goes to the front of the first line, and no other line changes.
      have further := ih n
      rw [List.splitOn] at further
      rw [if_neg (by simpa using h), List.getElem?_modifyHead, further]
      cases n with
      | zero => simp [afterLineFeeds, h]
      | succ n => rw [if_neg (Nat.succ_ne_zero n), afterLineFeeds_succ_cons, if_neg h]

/-- Behind one line feed more lies what is behind the first of the rest. -/
theorem afterLineFeeds_succ (n : Nat) (cs : List Char) :
    afterLineFeeds (n + 1) cs = (afterLineFeeds n cs).bind (afterLineFeeds 1) := by
  induction n generalizing cs with
  | zero => rfl
  | succ n ih =>
    rw [afterLineFeeds, afterLineFeeds]
    cases cs.dropWhile (· ≠ '\n') with
    | nil => rfl
    | cons c rest => exact ih rest

/-- All characters are other ones than the line feed if that is not among them. -/
theorem forall_ne_of_notMem {cs : List Char} (h : '\n' ∉ cs) : ∀ c ∈ cs, decide (c ≠ '\n') = true := by
  intro c hc
  refine decide_eq_true ?_
  rintro rfl
  exact h hc

/-- Without line feeds there is only the first line. -/
theorem afterLineFeeds_of_notMem {cs : List Char} (h : '\n' ∉ cs) (n : Nat) :
    afterLineFeeds (n + 1) cs = none := by
  rw [afterLineFeeds, List.dropWhile_eq_nil_iff.2 (forall_ne_of_notMem h)]

/-- Behind a line that is ended, lines are counted as in what follows. -/
theorem afterLineFeeds_succ_append {line : List Char} (h : '\n' ∉ line) (n : Nat) (back : List Char) :
    afterLineFeeds (n + 1) (line ++ '\n' :: back) = afterLineFeeds n back := by
  rw [afterLineFeeds, List.dropWhile_append_of_pos (forall_ne_of_notMem h)]
  simp

/-- A line that is not ended goes on to the end of the source. -/
theorem takeWhile_of_notMem {cs : List Char} (h : '\n' ∉ cs) : cs.takeWhile (· ≠ '\n') = cs :=
  List.takeWhile_eq_self_iff.2 (forall_ne_of_notMem h)

/-- A line that is ended goes on to its line feed. -/
theorem takeWhile_append_lineFeed {line : List Char} (h : '\n' ∉ line) (back : List Char) :
    (line ++ '\n' :: back).takeWhile (· ≠ '\n') = line := by
  rw [List.takeWhile_append_of_pos (forall_ne_of_notMem h)]
  simp

/-- The last line has no line feed. -/
theorem ne_of_mem_lastLine {c : Char} {cs : List Char} (h : c ∈ cs.rtakeWhile (· ≠ '\n')) :
    c ≠ '\n' := by
  simpa using List.mem_rtakeWhile_imp h

/-- Behind as many line feeds as the front has, its last line goes on with what comes after. -/
theorem afterLineFeeds_append (front back : List Char) :
    afterLineFeeds (front.count '\n') (front ++ back) =
      some (front.rtakeWhile (· ≠ '\n') ++ back) := by
  induction front using List.reverseRecOn generalizing back with
  | nil => rfl
  | append_singleton front c ih =>
    rw [List.rtakeWhile_concat, List.append_assoc, List.count_append]
    by_cases h : c = '\n'
    · -- The last line so far is ended, and a new one is begun.
      rw [h, List.count_singleton_self, afterLineFeeds_succ, ih]
      exact afterLineFeeds_succ_append (fun hc => ne_of_mem_lastLine hc rfl) 0 back
    · have other : List.count '\n' [c] = 0 := List.count_eq_zero.2 (by simpa using Ne.symm h)
      rw [other, Nat.add_zero, ih, if_pos (by simpa using h), List.append_assoc]

/-- The line on which an offset lies, and where on it: there it has the character at the offset, unless that
ends the line. -/
theorem exists_line_at (cs : List Char) (offset : Nat) :
    ∃ shown, (cs.splitOn '\n')[(cs.take offset).count '\n']? = some shown ∧
      (∀ c, cs[offset]? = some c → c ≠ '\n' →
        shown[((cs.take offset).rtakeWhile (· ≠ '\n')).length]? = some c) ∧
      (cs[offset]? = none ∨ cs[offset]? = some '\n' →
        shown.length = ((cs.take offset).rtakeWhile (· ≠ '\n')).length) := by
  have split := afterLineFeeds_append (cs.take offset) (cs.drop offset)
  have begun : ∀ c ∈ (cs.take offset).rtakeWhile (· ≠ '\n'), decide (c ≠ '\n') = true :=
    fun c hc => decide_eq_true (ne_of_mem_lastLine hc)
  have next : cs[offset]? = (cs.drop offset).head? := List.head?_drop.symm
  rw [List.take_append_drop] at split
  rw [getElem?_splitOn, split, next, Option.map_some, List.takeWhile_append_of_pos begun]
  refine ⟨_, rfl, ?_⟩
  -- The line goes on with what comes at the offset.
  cases cs.drop offset with
  | nil => simp
  | cons c back =>
    by_cases h : c = '\n' <;> simp [h]

end ParseError

/-! ### Bytes of characters -/

/-- The bytes of characters. -/
def encoded (cs : List Char) : List UInt8 := cs.flatMap String.utf8EncodeChar

/-- The bytes of a source are those of its characters. -/
theorem utf8_eq (text : String) : utf8 text = encoded text.toList := by
  have bytes : text.toUTF8 = (encoded text.toList).toByteArray := by
    conv_lhs => rw [← String.ofList_toList (s := text), String.toUTF8_eq_toByteArray]
    exact String.toByteArray_ofList
  rw [utf8, bytes, List.data_toByteArray]

/-- The bytes of two parts are those of the first and then those of the second. -/
@[simp] theorem encoded_append (cs cs' : List Char) : encoded (cs ++ cs') = encoded cs ++ encoded cs' :=
  List.flatMap_append

/-- There are as many bytes as the characters take. -/
theorem length_encoded (cs : List Char) : (encoded cs).length = String.utf8Len cs := by
  induction cs with
  | nil => rfl
  | cons c cs ih =>
    rw [encoded, List.flatMap_cons, List.length_append, String.length_utf8EncodeChar, String.utf8Len_cons,
      ← ih, Nat.add_comm]
    rfl

/-- The byte of a line feed stands between the bytes of the lines. -/
theorem encoded_append_lineFeed (line back : List Char) :
    encoded (line ++ '\n' :: back) = encoded line ++ lineFeed :: encoded back := encoded_append _ _

/-- A byte has the number that it was made of. -/
theorem toNat_ofNat_of_lt {n : Nat} (h : n < 256) : (UInt8.ofNat n).toNat = n := by
  rw [UInt8.toNat_ofNat', Nat.mod_eq_of_lt h]

/-- The bytes of a character that takes more than one have their highest bit set. -/
theorem high_bytes {c : Char} (h : 127 < c.val.toNat) :
    ∀ byte ∈ String.utf8EncodeChar c, 128 ≤ byte.toNat := by
  have high (n : Nat) (hle : 128 ≤ n) (hlt : n < 256) : 128 ≤ (UInt8.ofNat n).toNat := by
    rwa [toNat_ofNat_of_lt hlt]
  -- There are two bytes, three or four, and to each something from 128 on is added.
  rw [String.utf8EncodeChar, if_neg (by omega)]
  split
  · simp only [List.forall_mem_cons]
    exact ⟨high _ (by omega) (by omega), high _ (by omega) (by omega), List.forall_mem_nil _⟩
  · split
    · simp only [List.forall_mem_cons]
      exact ⟨high _ (by omega) (by omega), high _ (by omega) (by omega), high _ (by omega) (by omega),
        List.forall_mem_nil _⟩
    · simp only [List.forall_mem_cons]
      exact ⟨high _ (by omega) (by omega), high _ (by omega) (by omega), high _ (by omega) (by omega),
        high _ (by omega) (by omega), List.forall_mem_nil _⟩

/-- No byte of another character looks like a line feed. -/
theorem lineFeed_mem_utf8EncodeChar {c : Char} (h : lineFeed ∈ String.utf8EncodeChar c) : c = '\n' := by
  have value : lineFeed.toNat = 10 := rfl
  rcases Nat.lt_or_ge 127 c.val.toNat with large | small
  · have := high_bytes large lineFeed h
    omega
  · rw [String.utf8EncodeChar, if_pos small, List.mem_singleton] at h
    rw [h, toNat_ofNat_of_lt (by omega)] at value
    exact Char.ext (UInt32.toNat_inj.1 value)

/-- The byte of a line feed is only found where that character is. -/
theorem lineFeed_mem_encoded {cs : List Char} : lineFeed ∈ encoded cs ↔ '\n' ∈ cs := by
  rw [encoded, List.mem_flatMap]
  constructor
  · rintro ⟨c, hc, h⟩
    rwa [lineFeed_mem_utf8EncodeChar h] at hc
  · intro h
    exact ⟨'\n', h, List.mem_singleton.2 rfl⟩

/-! ### Lines of bytes -/

namespace ByteSearch

variable {search : ByteSearch} {byte : UInt8} {bytes before after : List UInt8}

namespace Exact

/-- A byte that is nowhere has no places. -/
theorem all_of_notMem (h : search.Exact) (hbytes : byte ∉ bytes) : search.all byte bytes = [] := by
  rw [List.eq_nil_iff_forall_not_mem]
  intro place hplace
  exact hbytes (List.mem_of_getElem? ((h.mem_all_iff byte bytes place).1 hplace))

/-- A byte that is not in the front is not found there. -/
theorem notMem_of_lt {place : Nat} (hbefore : byte ∉ before) (hlt : place < before.length) :
    (before ++ after)[place]? ≠ some byte := by
  rw [List.getElem?_append_left hlt]
  exact fun found => hbefore (List.mem_of_getElem? found)

/-- The places of a byte are that of the first one and those behind it. -/
theorem all_append (h : search.Exact) (hbefore : byte ∉ before) :
    search.all byte (before ++ byte :: after) =
      before.length :: (search.all byte after).map (· + (before.length + 1)) := by
  refine List.Pairwise.eq_of_mem_iff (h.ascending _ _) ?_ ?_
  · refine List.pairwise_cons.2 ⟨?_, List.pairwise_map.2 ((h.ascending _ _).imp ?_)⟩
    · simp only [List.mem_map]
      rintro _ ⟨place, -, rfl⟩
      omega
    · intro place place' hlt
      omega
  · -- Both are in ascending order, so it is enough that they have the same places.
    intro place
    rw [h.mem_all_iff, List.mem_cons, List.mem_map]
    rcases Nat.lt_trichotomy place before.length with lt | rfl | gt
    · refine iff_of_false (notMem_of_lt hbefore lt) ?_
      rintro (rfl | ⟨inner, -, rfl⟩) <;> omega
    · simp
    · obtain ⟨inner, rfl⟩ : ∃ inner, place = inner + (before.length + 1) :=
        ⟨place - (before.length + 1), by omega⟩
      have behind : (before ++ byte :: after)[inner + (before.length + 1)]? = after[inner]? := by
        rw [List.getElem?_append_right (by omega)]
        have index : inner + (before.length + 1) - before.length = inner + 1 := by omega
        rw [index, List.getElem?_cons_succ]
      rw [behind]
      constructor
      · intro found
        exact .inr ⟨inner, (h.mem_all_iff _ _ _).2 found, rfl⟩
      · rintro (same | ⟨inner', found, same⟩)
        · omega
        · obtain rfl : inner' = inner := by omega
          exact (h.mem_all_iff _ _ _).1 found

/-- A byte is first found behind all that come before it. -/
theorem first?_append (h : search.Exact) (hbefore : byte ∉ before) :
    search.first? byte (before ++ byte :: after) = some before.length := by
  rw [h.first?_eq_some_iff]
  refine ⟨by simp, ?_⟩
  intro place hplace
  by_contra hlt
  exact notMem_of_lt hbefore (Nat.lt_of_not_le hlt) hplace

/-- A byte that is nowhere has no first place. -/
theorem first?_of_notMem (h : search.Exact) (hbytes : byte ∉ bytes) : search.first? byte bytes = none := by
  rw [Option.eq_none_iff_forall_ne_some]
  intro place hplace
  exact hbytes (List.mem_of_getElem? ((h.first?_eq_some_iff _ _ _).1 hplace).1)

end Exact

/-- The search that looks at byte after byte finds what there is. -/
theorem plain_exact : plain.Exact where
  first?_eq_some_iff byte bytes place := by
    show ((List.range bytes.length).find? fun i => bytes[i]? = some byte) = some place ↔ _
    rw [List.find?_range_eq_some]
    constructor
    · rintro ⟨found, -, none⟩
      refine ⟨of_decide_eq_true found, ?_⟩
      intro other hother
      by_contra hlt
      have missed := none other (Nat.lt_of_not_le hlt)
      have present : bytes[other]? = some byte := hother
      simp [present] at missed
    · rintro ⟨found, least⟩
      refine ⟨decide_eq_true found, List.mem_range.2 (List.getElem?_eq_some_iff.1 found).1, ?_⟩
      intro other hlt
      rw [Bool.not_eq_true', decide_eq_false_iff_not]
      exact fun hother => Nat.not_le_of_lt hlt (least hother)
  ascending byte bytes := List.pairwise_lt_range.filter _
  mem_all_iff byte bytes place := by
    show place ∈ (List.range bytes.length).filter (fun i => bytes[i]? = some byte) ↔ _
    rw [List.mem_filter, List.mem_range, decide_eq_true_iff]
    exact ⟨And.right, fun found => ⟨(List.getElem?_eq_some_iff.1 found).1, found⟩⟩

end ByteSearch

section Lines

variable {search : ByteSearch} (h : search.Exact) {bytes before after : List UInt8}
include h

/-- Without line feeds no later line has a start. -/
theorem lineStart?_of_notMem (hbytes : lineFeed ∉ bytes) (n : Nat) :
    lineStart? search bytes (n + 2) = none := by
  rw [lineStart?, h.all_of_notMem hbytes]
  rfl

omit h in
/-- Number 0 is taken for the first line. -/
theorem lineStart?_eq_pred (line : Nat) :
    lineStart? search bytes line = lineStart? search bytes (line - 1 + 1) := by
  match line with
  | 0 | 1 | line + 2 => rfl

/-- A line behind a line feed is found as if there were no bytes before. -/
theorem lineStart?_append (hbefore : lineFeed ∉ before) (n : Nat) :
    lineStart? search (before ++ lineFeed :: after) (n + 2) =
      (lineStart? search after (n + 1)).map (· + (before.length + 1)) := by
  rw [lineStart?, h.all_append hbefore]
  cases n with
  | zero =>
    rw [List.getElem?_cons_zero, lineStart?]
    simp
  | succ n =>
    rw [List.getElem?_cons_succ, List.getElem?_map, lineStart?, Option.map_map, Option.map_map]
    refine congrArg (Option.map · _) (funext fun place => ?_)
    show place + (before.length + 1) + 1 = place + 1 + (before.length + 1)
    omega

/-- A line starts at the same place among the characters and among their bytes, if there is one. -/
theorem lineStart?_encoded (cs : List Char) (n : Nat) :
    (ParseError.afterLineFeeds n cs = none ∧ lineStart? search (encoded cs) (n + 1) = none) ∨
      ∃ front rest, cs = front ++ rest ∧ ParseError.afterLineFeeds n cs = some rest ∧
        lineStart? search (encoded cs) (n + 1) = some (encoded front).length := by
  -- By induction on the number of the line. The first line feed takes both walks to a source with one
  -- line less to go; if there is none, neither goes on.
  induction n generalizing cs with
  | zero => exact .inr ⟨[], cs, rfl, rfl, rfl⟩
  | succ n ih =>
    by_cases hcs : '\n' ∈ cs
    · obtain ⟨line, back, rfl, hline⟩ := List.eq_append_cons_of_mem hcs
      rw [ParseError.afterLineFeeds_succ_append hline, encoded_append_lineFeed,
        lineStart?_append h (fun hmem => hline (lineFeed_mem_encoded.1 hmem))]
      rcases ih back with ⟨hnone, hstart⟩ | ⟨front, rest, rfl, hsome, hstart⟩
      · exact .inl ⟨hnone, by rw [hstart]; rfl⟩
      · refine .inr ⟨line ++ '\n' :: front, rest, by simp, hsome, ?_⟩
        rw [hstart, encoded_append_lineFeed, List.length_append, List.length_cons, Option.map_some]
        congr 1
        omega
    · exact .inl ⟨ParseError.afterLineFeeds_of_notMem hcs n,
        lineStart?_of_notMem h (fun hmem => hcs (lineFeed_mem_encoded.1 hmem)) n⟩

/-- A line ends where the next line feed is found, or the source ends. -/
theorem lineStop_encoded (rest : List Char) (start : Nat) :
    (search.first? lineFeed (encoded rest)).elim (start + (encoded rest).length) (start + ·) =
      start + (encoded (rest.takeWhile (· ≠ '\n'))).length := by
  by_cases hrest : '\n' ∈ rest
  · obtain ⟨line, back, rfl, hline⟩ := List.eq_append_cons_of_mem hrest
    rw [encoded_append_lineFeed, h.first?_append fun hmem => hline (lineFeed_mem_encoded.1 hmem),
      ParseError.takeWhile_append_lineFeed hline]
    rfl
  · rw [h.first?_of_notMem fun hmem => hrest (lineFeed_mem_encoded.1 hmem),
      ParseError.takeWhile_of_notMem hrest]
    rfl

end Lines

/-! ### Rendering -/

/-- A source is cut between two characters by the number of bytes of the first ones. -/
theorem bytesFrom_encoded (front rest : List Char) :
    bytesFrom (encoded (front ++ rest)) (encoded front).length = .ok (encoded rest) := by
  rw [encoded_append, bytesFrom, if_pos, List.drop_left]
  rw [List.length_append]
  exact Nat.le_add_right _ _

/-- What lies between others is sliced out whole. -/
theorem slice_encoded (front line back : List Char) :
    slice (String.ofList (front ++ line ++ back)) (encoded front).length
      ((encoded front).length + (encoded line).length) = .ok (String.ofList line) := by
  rw [length_encoded, length_encoded, slice, if_pos, String.extract_of_valid]
  simp only [Bool.and_eq_true, decide_eq_true_iff, String.Pos.Raw.isValid_eq_true_iff,
    String.Pos.Raw.isValid_iff_exists_append]
  refine ⟨⟨Nat.le_add_right _ _, String.ofList front, String.ofList (line ++ back), ?_, ?_⟩,
    String.ofList (front ++ line), String.ofList back, ?_, ?_⟩
  · rw [← String.ofList_append, List.append_assoc]
  · rw [String.rawEndPos_ofList]
  · rw [← String.ofList_append]
  · rw [String.rawEndPos_ofList, String.utf8Len_append]

/-- A line is found among the bytes as it is among the characters, and it lies between characters. -/
theorem findLine_eq {search : ByteSearch} (h : search.Exact) (source : String) (number : Nat) :
    findLine search source number = .ok (ParseError.sourceLine? source number) := by
  have start := lineStart?_encoded h source.toList (number - 1)
  rw [← lineStart?_eq_pred] at start
  rw [findLine, ParseError.sourceLine?, utf8_eq]
  rcases start with ⟨hnone, hstart⟩ | ⟨front, rest, hsource, hsome, hstart⟩
  · simp only [hstart, hnone]
    rfl
  · -- The source is what stands before the line, the line, and what stands behind it.
    have behind := bytesFrom_encoded front rest
    have stop := lineStop_encoded h rest (encoded front).length
    have sliced := slice_encoded front (rest.takeWhile (· ≠ '\n')) (rest.dropWhile (· ≠ '\n'))
    have whole : (encoded source.toList).length = (encoded front).length + (encoded rest).length := by
      rw [hsource, encoded_append, List.length_append]
    rw [List.append_assoc, List.takeWhile_append_dropWhile, ← hsource, String.ofList_toList] at sliced
    rw [← hsource] at behind
    simp only [hstart, hsome, behind, whole, bind, Except.bind, stop, sliced, String.toList_ofList]
    rfl

namespace ParseError

variable {ε τ : Type} [Token τ] [ToString ε] {search : ByteSearch}

/-- A line and what stands below it. -/
theorem ofList_underlined (line marks : List Char) :
    String.ofList (line ++ '\n' :: marks) = String.ofList line ++ "\n" ++ String.ofList marks := by
  have ended : String.ofList line ++ "\n" = String.ofList (line ++ ['\n']) := by
    rw [String.ofList_append]
  rw [ended, ← String.ofList_append, List.append_assoc]
  rfl

/-- The line that is shown is one of those that the source is split into. -/
theorem excerpt_eq (e : ParseError ε τ) (source : String) :
    e.excerpt source =
      s!"Error at line {e.position.line}, column {e.position.column}:\n" ++
        (match (source.toList.splitOn '\n')[e.position.line.toNat - 1]? with
          | some line => String.ofList (line.rdropWhile (· = '\r')) ++ "\n" ++
              String.ofList (List.replicate (e.position.column.toNat - 1) ' ') ++ "^\n"
          | none => "") ++
        e.message := by
  unfold excerpt
  rw [sourceLine?, getElem?_splitOn]
  cases afterLineFeeds (e.position.line.toNat - 1) source.toList with
  | none => dsimp only [Option.map_none]
  | some rest =>
    dsimp only [Option.map_some]
    rw [ofList_underlined, trimReturns, List.rdropWhile]

/-- The text of an error over its source is the header, the line that it points at, and the message. The
line is found among the bytes, which are only ever sliced where characters begin or end, by a search that
finds the first place of a byte and all of them in order. It is the one with the number of the position when
the source is split at line feeds, number 0 being taken for 1, and is shown without the carriage returns at
its end and with a caret below the column; a line that there is not is left out. If the line and the column
count what comes before the offset, then this line has the character at the offset in that column, or it
ends there. -/
theorem render_excerpt (h : search.Exact) (e : ParseError ε τ) (source : String) :
    e.render search source = .ok (e.excerpt source) ∧
      (e.excerpt source =
        s!"Error at line {e.position.line}, column {e.position.column}:\n" ++
          (match (source.toList.splitOn '\n')[max e.position.line.toNat 1 - 1]? with
            | some line => String.ofList (line.rdropWhile (· = '\r')) ++ "\n" ++
                String.ofList (List.replicate (e.position.column.toNat - 1) ' ') ++ "^\n"
            | none => "") ++
          e.message) ∧
      (e.position.line.toNat - 1 = (source.toList.take e.position.offset.toNat).count '\n' →
        e.position.column.toNat - 1 =
          ((source.toList.take e.position.offset.toNat).rtakeWhile (· ≠ '\n')).length →
        ∃ shown, (source.toList.splitOn '\n')[max e.position.line.toNat 1 - 1]? = some shown ∧
          (∀ c, source.toList[e.position.offset.toNat]? = some c → c ≠ '\n' →
            shown[e.position.column.toNat - 1]? = some c) ∧
          (source.toList[e.position.offset.toNat]? = none ∨
              source.toList[e.position.offset.toNat]? = some '\n' →
            shown.length = e.position.column.toNat - 1)) := by
  have number : max e.position.line.toNat 1 - 1 = e.position.line.toNat - 1 := by omega
  refine ⟨?_, ?_, ?_⟩
  · rw [render, findLine_eq h]
    rfl
  · rw [number]
    exact e.excerpt_eq source
  · intro hline hcolumn
    rw [number, hline, hcolumn]
    exact exists_line_at source.toList e.position.offset.toNat

/-- A letter on the second line of a source, behind characters of two bytes and of three. -/
def foundLetter : ParseError String Char := .trivial ⟨⟨4, 2, 3⟩, "text"⟩ (some (.token 'b')) ∅

/-- A letter on the second line is shown under it, behind characters that take two bytes and three. -/
theorem render_excerpt_of_foundLetter :
    foundLetter.render .plain "é\nä→b\r\n" =
        .ok "Error at line 2, column 3:\nä→b\n  ^\nunexpected 'b'" ∧
      ∃ shown, ("é\nä→b\r\n".toList.splitOn '\n')[1]? = some shown ∧ shown[2]? = some 'b' := by
  obtain ⟨rendered, -, located⟩ := render_excerpt ByteSearch.plain_exact foundLetter "é\nä→b\r\n"
  obtain ⟨shown, picked, letter, -⟩ := located (by decide +kernel) (by decide +kernel)
  refine ⟨?_, shown, picked, letter 'b' (by decide +kernel) (by decide)⟩
  rw [rendered]
  exact congrArg Except.ok (by decide +kernel)

end ParseError

end ParserMachine
