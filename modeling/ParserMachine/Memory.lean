/-!
# Regions of an array

Writing a run of elements into an array, reading one, and moving one towards the front. The
containers of the library keep their contents in such regions: the window of a double-ended buffer,
the arena and the index table of a value stack.

All three are total. What lies outside the array is not written, and reads and moves take a missing
element for the default one; the containers stay inside. `getElem?_overwrite`, `getElem?_region` and
`getElem?_moveDown` say place by place what each does.
-/

set_option autoImplicit false

namespace ParserMachine.Memory

variable {α : Type}

/-- Writes a run into an array, from the given place on. -/
def overwrite (memory : Array α) (place : Nat) : List α → Array α
  | [] => memory
  | a :: run => overwrite (memory.setIfInBounds place a) (place + 1) run

/-- The elements of a region. -/
def region (memory : Array α) (place size : Nat) : List α :=
  (memory.extract place (place + size)).toList

/-- Moves a region of the given size from one place to another that is nearer the front; the two may
overlap. -/
def moveDown [Inhabited α] (memory : Array α) (source target : Nat) : Nat → Array α
  | 0 => memory
  | n + 1 =>
    moveDown (memory.setIfInBounds target (memory.getD source default)) (source + 1) (target + 1) n

/-- Writing never makes an array grow, not even a run that reaches past its end. -/
@[simp] theorem size_overwrite (memory : Array α) (place : Nat) (run : List α) :
    (overwrite memory place run).size = memory.size := by
  induction run generalizing memory place with
  | nil => rfl
  | cons a run ih => rw [overwrite, ih, Array.size_setIfInBounds]

/-- Moving within an array leaves its size as it is. -/
@[simp] theorem size_moveDown [Inhabited α] (memory : Array α) (source target n : Nat) :
    (moveDown memory source target n).size = memory.size := by
  induction n generalizing memory source target with
  | zero => rfl
  | succ n ih => rw [moveDown, ih, Array.size_setIfInBounds]

/-! ### What regions hold -/

/-- A write replaces the places it covers, as far as there are such, and leaves the others alone. -/
theorem getElem?_overwrite (memory : Array α) (place : Nat) (run : List α) (i : Nat) :
    (overwrite memory place run)[i]? =
      if place ≤ i ∧ i < place + run.length ∧ i < memory.size then run[i - place]? else memory[i]? := by
  induction run generalizing memory place with
  | nil =>
    simp only [overwrite, List.length_nil]
    rw [if_neg (by omega)]
  | cons a run ih =>
    rw [overwrite, ih, Array.size_setIfInBounds, List.length_cons]
    -- The first element is written here, and the others by induction.
    by_cases hi : place = i
    · subst hi
      rw [if_neg (by omega)]
      by_cases hs : place < memory.size
      · rw [if_pos (by omega)]; simp [hs]
      · rw [if_neg (by omega)]; simp [hs]
    · rw [Array.getElem?_setIfInBounds_ne hi]
      by_cases hr : place + 1 ≤ i ∧ i < place + 1 + run.length ∧ i < memory.size
      · rw [if_pos hr, if_pos (by omega)]
        obtain ⟨d, rfl⟩ : ∃ d, i = place + 1 + d := ⟨i - (place + 1), by omega⟩
        have h₁ : place + 1 + d - (place + 1) = d := by omega
        have h₂ : place + 1 + d - place = d + 1 := by omega
        rw [h₁, h₂, List.getElem?_cons_succ]
      · rw [if_neg hr, if_neg (by omega)]

/-- A region holds the elements of its places; where the array has ended, it ends, too. -/
theorem getElem?_region (memory : Array α) (place size i : Nat) :
    (region memory place size)[i]? = if i < size then memory[place + i]? else none := by
  rw [region, Array.getElem?_toList, Array.getElem?_extract]
  split <;> split <;> grind

/-- A region that lies in the array is as long as it was asked to be. -/
theorem length_region {memory : Array α} {place size : Nat} (h : place + size ≤ memory.size) :
    (region memory place size).length = size := by
  simp only [region, Array.length_toList, Array.size_extract]
  omega

/-- A region is read in one piece or in two, with the same result. -/
theorem region_append (memory : Array α) (place a b : Nat) :
    region memory place (a + b) = region memory place a ++ region memory (place + a) b := by
  rw [region, region, region, ← Array.toList_append, Array.extract_append_extract,
    Nat.min_eq_left (Nat.le_add_right place a), Nat.max_eq_right (Nat.le_add_right _ b),
    Nat.add_assoc]

/-- A region depends on its own places only. -/
theorem region_congr {memory memory' : Array α} {place place' size : Nat}
    (h : ∀ i < size, memory[place + i]? = memory'[place' + i]?) :
    region memory place size = region memory' place' size := by
  apply List.ext_getElem?
  intro i
  rw [getElem?_region, getElem?_region]
  grind

/-- What was written is read back. -/
theorem region_overwrite {memory : Array α} {place : Nat} {run : List α}
    (h : place + run.length ≤ memory.size) :
    region (overwrite memory place run) place run.length = run := by
  apply List.ext_getElem?
  intro i
  rw [getElem?_region, getElem?_overwrite]
  grind

/-- A region that a write does not touch is read as before. -/
theorem region_overwrite_of_disjoint {memory : Array α} {place size start : Nat} {run : List α}
    (h : start + size ≤ place ∨ place + run.length ≤ start) :
    region (overwrite memory place run) start size = region memory start size := by
  apply region_congr
  intro i hi
  rw [getElem?_overwrite, if_neg (by omega)]

/-- A move puts the source at the target's place, also where the two overlap. -/
theorem getElem?_moveDown [Inhabited α] {memory : Array α} {source target n : Nat}
    (hle : target ≤ source) (hs : source + n ≤ memory.size) (i : Nat) :
    (moveDown memory source target n)[i]? =
      if target ≤ i ∧ i < target + n then memory[source + (i - target)]? else memory[i]? := by
  induction n generalizing memory source target with
  | zero =>
    rw [moveDown, if_neg (by omega)]
  | succ n ih =>
    have hsource : source < memory.size := by omega
    have hvalue : memory.getD source default = memory[source] := by simp [hsource]
    rw [moveDown, ih (by omega) (by rw [Array.size_setIfInBounds]; omega), hvalue]
    by_cases hi : i = target
    · subst hi
      rw [if_neg (by omega), if_pos (by omega)]
      simp [hsource, show i < memory.size by omega]
    · by_cases hr : target + 1 ≤ i ∧ i < target + 1 + n
      · rw [if_pos hr, if_pos (by omega), Array.getElem?_setIfInBounds_ne (by omega)]
        congr 1
        omega
      · rw [if_neg hr, if_neg (by omega), Array.getElem?_setIfInBounds_ne (by omega)]

end ParserMachine.Memory
