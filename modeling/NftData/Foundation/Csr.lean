import NftData.Foundation.Runs

namespace NftData

/-! # Compressed sparse rows

Rows of values stored one after the other: row `index` is
`values[offsets[index]..offsets[index + 1]]`. -/

open List

/-- `slice.get(start..stop)`. -/
def getRange {α : Type*} (values : List α) (start stop : Nat) : Option (List α) :=
  if start ≤ stop ∧ stop ≤ values.length then
    some ((values.take stop).drop start)
  else
    none

def rowAt {α : Type*} (offsets : List Nat) (values : List α) (index : Nat) :
    Option (List α) :=
  offsets[index]?.bind fun start => offsets[index + 1]?.bind (getRange values start)

variable {index : Nat}

section Rows

variable {α : Type*}

theorem rowAt_partialSums (rows : List (List α)) (inside : index < rows.length) :
    rowAt (rows.map List.length).partialSums rows.flatten index = some rows[index] := by
  rcases slice_partialSums rows inside with ⟨startAt, stopAt, slice⟩
  have ordered : ((rows.map List.length).take index).sum ≤
      ((rows.map List.length).take (index + 1)).sum := by
    rw [take_add_one, sum_append]
    exact Nat.le_add_right _ _
  have fits : ((rows.map List.length).take (index + 1)).sum ≤ rows.flatten.length := by
    rw [length_flatten]
    exact (take_sublist _ _).sum_le_sum (by simp)
  rw [rowAt, startAt, stopAt, Option.bind_some, Option.bind_some, getRange, if_pos ⟨ordered, fits⟩, slice]

end Rows

/-- Rows stored one after the other, each under its number. -/
structure Rows (α : Type*) where
  offsets : List Nat
  values : List α

namespace Rows

variable {α : Type*}

def ofLists (rows : List (List α)) : Rows α where
  offsets := (rows.map List.length).partialSums
  values := rows.flatten

def row (rows : Rows α) (index : Nat) : List α :=
  (rowAt rows.offsets rows.values index).getD []

theorem row_ofLists {rows : List (List α)} (inside : index < rows.length) :
    (ofLists rows).row index = rows[index] := by
  rw [row, ofLists, rowAt_partialSums rows inside]
  rfl

theorem row_ofLists_getD (rows : List (List α)) (index : Nat) :
    (ofLists rows).row index = rows.getD index [] := by
  by_cases inside : index < rows.length
  · rw [row_ofLists inside, getD_eq_getElem _ _ inside]
  · have missing : (rows.map List.length).partialSums[index + 1]? = none := by
      rw [List.getElem?_eq_none_iff, length_partialSums, length_map]
      omega
    rw [getD_eq_default _ _ (Nat.le_of_not_lt inside), row, ofLists, rowAt, missing]
    cases (rows.map List.length).partialSums[index]? <;> rfl

theorem row_ofLists_range (make : Nat → List α) {count : Nat} (inside : index < count) :
    (ofLists ((List.range count).map make)).row index = make index := by
  rw [row_ofLists (by rw [length_map, length_range]; exact inside),
    getElem_map, getElem_range]

end Rows

end NftData
