/-!
# Complaints

Errors that are not told by expected and unexpected items: a message of the grammar's author, an
indentation that is not as required, or an error of a type of the caller's own.

Complaints of the caller's type are compared by that type's `==`, which need not be equality:
`Complaint.instEquivBEq` carries its being an equivalence over to complaints.
-/

set_option autoImplicit false

namespace ParserMachine

/-- An error told in its own words. -/
inductive Complaint (ε : Type) where
  /-- A message. -/
  | fail (message : String)
  /-- The indentation found is not related to the reference level as required. -/
  | indentation (required : Ordering) (reference actual : Nat)
  /-- An error of the caller's own type. -/
  | custom (error : ε)
  deriving Repr

namespace Complaint

variable {ε : Type}

/-- Equality of complaints, up to equality of the caller's errors. -/
def same [BEq ε] : Complaint ε → Complaint ε → Bool
  | fail a, fail b => a == b
  | indentation o r a, indentation o' r' a' => o == o' && r == r' && a == a'
  | custom a, custom b => a == b
  | _, _ => false

instance [BEq ε] : BEq (Complaint ε) := ⟨same⟩

instance instEquivBEq [BEq ε] [EquivBEq ε] : EquivBEq (Complaint ε) where
  rfl {a} := by
    show same a a = true
    cases a <;> simp [same]
  symm {a b} h := by
    change same a b = true at h
    show same b a = true
    cases a <;> cases b <;> simp_all [same, BEq.comm]
  trans {a b c} h₁ h₂ := by
    change same a b = true at h₁
    change same b c = true at h₂
    show same a c = true
    cases a <;> cases b <;> cases c <;> simp_all [same]
    exact BEq.trans h₁ h₂

/-- A required relation in words. -/
def relation : Ordering → String
  | .lt => "less than"
  | .eq => "equal to"
  | .gt => "greater than"

/-- The text of a complaint in a message. -/
def describe [ToString ε] : Complaint ε → String
  | fail message => message
  | indentation required reference actual =>
    s!"incorrect indentation (got {actual}, should be {relation required} {reference})"
  | custom error => toString error

/-- Adds complaints to others, each unless one like it is there already. -/
def pool [BEq ε] (complaints more : List (Complaint ε)) : List (Complaint ε) :=
  more.foldl (fun kept c => if kept.contains c then kept else kept ++ [c]) complaints

end Complaint

end ParserMachine
