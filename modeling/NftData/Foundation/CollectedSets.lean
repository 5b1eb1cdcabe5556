import Mathlib

namespace NftData

/-! # Sets collected from entries

A scan adds the values of every entry that it admits to a set. Scans that admit the same entries
collect the same set, whatever else they do on the way. -/

section

variable {Entry Value : Type*} [DecidableEq Value] (admits : Entry → Bool)
  (values : Entry → Finset Value)

def collectEntry (collected : Finset Value) (entry : Entry) : Finset Value :=
  if admits entry then collected ∪ values entry else collected

def collectValues (entries : List Entry) : Finset Value :=
  entries.foldl (collectEntry admits values) ∅

@[simp] theorem collectValues_nil : collectValues admits values [] = ∅ := rfl

theorem collectValues_concat (entries : List Entry) (entry : Entry) :
    collectValues admits values (entries ++ [entry]) =
      collectEntry admits values (collectValues admits values entries) entry := by
  rw [collectValues, List.foldl_concat, ← collectValues]

theorem mem_collectValues {entries : List Entry} {value : Value} :
    value ∈ collectValues admits values entries ↔
      ∃ entry ∈ entries, admits entry = true ∧ value ∈ values entry := by
  induction entries using List.reverseRecOn with
  | nil => simp
  | append_singleton entries entry induction =>
      rw [collectValues_concat, collectEntry]
      by_cases admitted : admits entry = true
      · rw [if_pos admitted, Finset.mem_union, induction]
        simp only [List.mem_append, List.mem_singleton, or_and_right, exists_or,
          exists_eq_left, admitted, true_and]
      · rw [if_neg admitted, induction]
        simp only [List.mem_append, List.mem_singleton, or_and_right, exists_or,
          exists_eq_left, admitted, Bool.false_eq_true, false_and, or_false]

end

end NftData
