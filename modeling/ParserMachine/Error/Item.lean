import ParserMachine.Token

/-!
# Error items

What a parser found, or wanted to find: a token, a run of tokens, a named category, or the end of
the input.

Items are ordered by kind first, in the order just given, and within a kind by content, where a
longer run ranks above a shorter one. The order is a lawful linear order (`Item.instTransOrd`,
`Item.instLawfulEqOrd`), so that sets of items are well defined and the greater of two items is
unique.
-/

set_option autoImplicit false

namespace ParserMachine

/-- Something a parser found, or wanted to find. -/
inductive Item (τ : Type) where
  /-- One token. -/
  | token (t : τ)
  /-- A run of tokens. -/
  | tokens (run : List τ)
  /-- A named category. -/
  | label (name : String)
  /-- The end of the input. -/
  | endOfInput
  deriving DecidableEq, Repr

namespace Item

variable {τ : Type}

/-- The place of an item's kind in the order of kinds. -/
def rank : Item τ → Nat
  | token _ => 0
  | tokens _ => 1
  | label _ => 2
  | endOfInput => 3

/-- The tokens that an item speaks of. -/
def run : Item τ → List τ
  | token t => [t]
  | tokens ts => ts
  | label _ => []
  | endOfInput => []

/-- The name that an item speaks of. -/
def name : Item τ → String
  | label s => s
  | _ => ""

/-- The text of an item in a message. -/
def describe [Token τ] : Item τ → String
  | token t => Token.describe [t]
  | tokens ts => Token.describe ts
  | label s => s
  | endOfInput => "end of input"

variable [Ord τ]

/-- By kind, then by the length of the run, then by the run, then by the name. -/
instance : Ord (Item τ) where
  compare :=
    compareLex (compareOn rank) <| compareLex (compareOn (·.run.length)) <|
      compareLex (compareOn run) (compareOn name)

instance instTransOrd [Std.TransOrd τ] : Std.TransOrd (Item τ) :=
  inferInstanceAs (Std.TransCmp (compareLex (compareOn rank) <|
    compareLex (compareOn (·.run.length)) <| compareLex (compareOn run) (compareOn name)))

instance instLawfulEqOrd [Std.TransOrd τ] [Std.LawfulEqOrd τ] : Std.LawfulEqOrd (Item τ) where
  compare_self := Std.ReflCmp.compare_self
  eq_of_compare {a b} h := by
    change (compare a.rank b.rank).then ((compare a.run.length b.run.length).then
      ((compare a.run b.run).then (compare a.name b.name))) = .eq at h
    simp only [Ordering.then_eq_eq, Std.compare_eq_iff_eq] at h
    obtain ⟨hrank, _, hrun, hname⟩ := h
    cases a <;> cases b <;> simp_all [rank, run, name]

/-- The greater of two items, the second where neither is. -/
def greater (a b : Item τ) : Item τ :=
  if compare a b = .gt then a else b

/-- The greater of two items that may be missing; a missing one never wins. -/
def greater? : Option (Item τ) → Option (Item τ) → Option (Item τ)
  | some a, some b => some (a.greater b)
  | a, none => a
  | none, b => b

end Item

/-! ### Items of tokens -/

namespace Token

variable {τ : Type} [Token τ]

instance instTransOrdItem : Std.TransOrd (Item τ) := inferInstance

instance instLawfulEqOrdItem : Std.LawfulEqOrd (Item τ) := inferInstance

end Token

end ParserMachine
