import Mathlib

namespace NftData

/-! # Saturating counters

A machine counter that stops at its greatest value. Its additions may be grouped and
ordered in any way. -/

def Saturating (greatest : Nat) : Type := { value : Nat // value ≤ greatest }

namespace Saturating

variable {greatest : Nat}

instance : DecidableEq (Saturating greatest) :=
  inferInstanceAs (DecidableEq { value : Nat // value ≤ greatest })

def ofNat (greatest value : Nat) : Saturating greatest := ⟨min value greatest, min_le_right _ _⟩

/-- `saturating_add`. -/
instance : Add (Saturating greatest) := ⟨fun left right => ofNat greatest (left.1 + right.1)⟩

instance : Zero (Saturating greatest) := ⟨⟨0, Nat.zero_le _⟩⟩

theorem ext {left right : Saturating greatest} (equal : left.1 = right.1) : left = right :=
  Subtype.ext equal

@[simp] theorem val_ofNat (value : Nat) : (ofNat greatest value).1 = min value greatest := rfl

@[simp] theorem val_add (left right : Saturating greatest) :
    (left + right).1 = min (left.1 + right.1) greatest := rfl

@[simp] theorem val_zero : (0 : Saturating greatest).1 = 0 := rfl

instance : AddCommMonoid (Saturating greatest) where
  add_assoc first second third := by
    apply ext
    simp only [val_add]
    omega
  zero_add value := by
    apply ext
    have fits := value.2
    simp only [val_add, val_zero]
    omega
  add_zero value := by
    apply ext
    have fits := value.2
    simp only [val_add, val_zero]
    omega
  add_comm first second := by
    apply ext
    simp only [val_add, Nat.add_comm]
  nsmul := nsmulRec

theorem sum_ofNat (values : List Nat) :
    (values.map (ofNat greatest)).sum = ofNat greatest values.sum := by
  induction values with
  | nil =>
      apply ext
      simp
  | cons head tail induction =>
      apply ext
      rw [List.map_cons, List.sum_cons, induction, List.sum_cons]
      simp only [val_add, val_ofNat]
      omega

end Saturating

end NftData
