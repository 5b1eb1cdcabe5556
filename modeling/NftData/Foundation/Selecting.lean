import Mathlib

namespace NftData

/-! # Selecting one entry

What a list of lists holds when only one of its parts, or none but some, holds anything. -/

open List

section Selecting

variable {α β : Type*} {parts : α → List β} {values : List α}

theorem flatMap_single (distinct : values.Nodup) {value : α} (member : value ∈ values)
    (others : ∀ other ∈ values, other ≠ value → parts other = []) :
    values.flatMap parts = parts value := by
  induction values with
  | nil => cases member
  | cons head tail induction =>
      rw [nodup_cons] at distinct
      rw [flatMap_cons]
      rcases mem_cons.mp member with rfl | inTail
      · have rest : tail.flatMap parts = [] := flatMap_eq_nil_iff.mpr fun other inside =>
          others other (mem_cons_of_mem _ inside) fun same => distinct.1 (same ▸ inside)
        rw [rest, append_nil]
      · have apart : head ≠ value := fun same => distinct.1 (same ▸ inTail)
        rw [others head mem_cons_self apart, nil_append]
        exact induction distinct.2 inTail fun other inside =>
          others other (mem_cons_of_mem _ inside)

/-- Values without a part may be left out. -/
theorem flatMap_filter_of {keep : α → Bool}
    (empty : ∀ value ∈ values, keep value = false → parts value = []) :
    (values.filter keep).flatMap parts = values.flatMap parts := by
  induction values with
  | nil => rfl
  | cons head tail induction =>
      have rest := induction fun value inside => empty value (mem_cons_of_mem _ inside)
      cases kept : keep head with
      | true => rw [filter_cons_of_pos kept, flatMap_cons, flatMap_cons, rest]
      | false =>
          rw [filter_cons_of_neg (by simp [kept]), flatMap_cons, rest,
            empty head mem_cons_self kept, nil_append]

theorem coe_map_filter (values : List α) (keep : α → Bool) (result : α → β) :
    (((values.filter keep).map result : List β) : Multiset β) =
      (values : Multiset α).bind fun value => if keep value then {result value} else 0 := by
  induction values with
  | nil => rfl
  | cons head tail induction =>
      rw [← Multiset.cons_coe, Multiset.cons_bind, ← induction]
      cases kept : keep head with
      | true =>
          rw [filter_cons_of_pos kept]
          rfl
      | false =>
          rw [filter_cons_of_neg (by simp [kept])]
          exact (zero_add _).symm

theorem flatMap_swap {γ : Type*} (rows : List α) (columns : List β) (keep : α → β → Bool)
    (value : α → β → γ) :
    (columns.flatMap fun column =>
        (rows.filter fun row => keep row column).map fun row => value row column).Perm
      (rows.flatMap fun row =>
        (columns.filter fun column => keep row column).map (value row)) := by
  rw [← Multiset.coe_eq_coe, ← Multiset.coe_bind, ← Multiset.coe_bind]
  simp only [coe_map_filter]
  exact Multiset.bind_bind _ _

end Selecting

end NftData
