import Mathlib

namespace NftData

/-! # Contiguous chunks

Work is split into contiguous chunks that are processed on their own. The results are put
together again in order: one after the other, along a binary tree, or on any schedule. -/

open List

/-- `(0..count).step_by(step)`. -/
def stepBy (count step : Nat) : List Nat :=
  (List.range (count ⌈/⌉ step)).map (· * step)

/-- The slices `start..min(start + step, length)` for the starts `stepBy` yields. -/
def chunks {α : Type*} (values : List α) (step : Nat) : List (List α) :=
  (stepBy values.length step).map fun start => (values.drop start).take step

example : chunks [1, 2, 3, 4, 5] 2 = [[1, 2], [3, 4], [5]] := by decide

theorem flatten_slices {α : Type*} (values : List α) (step count : Nat) :
    ((List.range count).map fun index => (values.drop (index * step)).take step).flatten =
      values.take (count * step) := by
  induction count with
  | zero => simp
  | succ count induction =>
      rw [range_succ, map_append, flatten_append, induction, Nat.succ_mul,
        take_add]
      simp

theorem flatten_chunks {α : Type*} (values : List α) {step : Nat} (positive : 0 < step) :
    (chunks values step).flatten = values := by
  rw [chunks, stepBy, map_map]
  change ((List.range _).map fun index => (values.drop (index * step)).take step).flatten = _
  rw [flatten_slices]
  apply take_of_length_le
  rw [Nat.mul_comm]
  exact le_smul_ceilDiv positive

/-- Split the results in the middle, merge both halves on their own, and merge the right
half into the left one. -/
def mergeTree {ε σ : Type} (empty : σ) (merge : σ → σ → Except ε σ) :
    List (Except ε σ) → Except ε σ
  | [] => .ok empty
  | [result] => result
  | first :: second :: rest => do
      let results := first :: second :: rest
      let left ← mergeTree empty merge (results.take (results.length / 2))
      let right ← mergeTree empty merge (results.drop (results.length / 2))
      merge left right
termination_by results => results.length
decreasing_by
  · simp only [length_take, length_cons]
    omega
  · simp only [length_drop, length_cons]
    omega

/-- The rule of merge trees: what holds of the result of one part, and of two merged results
for the parts taken together, holds of the tree over all parts. -/
theorem mergeTree_induction {ε σ α : Type} {empty : σ} {merge : σ → σ → Except ε σ}
    {load : α → Except ε σ} (Loads : List α → Except ε σ → Prop)
    (none : Loads [] (.ok empty)) (single : ∀ part, Loads [part] (load part))
    (join : ∀ {first second left right}, first ≠ [] → second ≠ [] →
      Loads first left → Loads second right → Loads (first ++ second) (do
        let left ← left
        let right ← right
        merge left right)) (parts : List α) :
    Loads parts (mergeTree empty merge (parts.map load)) := by
  generalize isResults : parts.map load = results
  induction results using mergeTree.induct generalizing parts
  case case1 =>
    rw [map_eq_nil_iff.mp isResults, mergeTree]
    exact none
  case case2 result =>
    rcases map_eq_singleton_iff.mp isResults with ⟨part, isParts, isResult⟩
    rw [isParts, mergeTree, ← isResult]
    exact single part
  case case3 first second rest results leftInduction rightInduction =>
    have sameLength : parts.length = results.length := by
      rw [← length_map load, isResults]
    have twoParts : 2 ≤ results.length := by simp [results]
    have leftSome : parts.take (results.length / 2) ≠ [] :=
      ne_nil_of_length_pos (by rw [length_take]; omega)
    have rightSome : parts.drop (results.length / 2) ≠ [] :=
      ne_nil_of_length_pos (by rw [length_drop]; omega)
    have joined := join leftSome rightSome
      (leftInduction _ (by rw [map_take, isResults]))
      (rightInduction _ (by rw [map_drop, isResults]))
    rw [take_append_drop] at joined
    rw [mergeTree]
    exact joined

/-! ## Schedules -/

/-- How a reduction divides the results: it folds them onto the unit, or splits them at a
position and merges the outcomes of both sides. -/
inductive Schedule
  | fold
  | split (position : Nat) (left right : Schedule)

def Schedule.reduce {Worker : Type*} (unit : Worker) (merge : Worker → Worker → Worker) :
    Schedule → List Worker → Worker
  | .fold, results => results.foldl merge unit
  | .split position left right, results =>
      merge (left.reduce unit merge (results.take position))
        (right.reduce unit merge (results.drop position))

section Reduction

variable {α Worker : Type*} {unit : Worker} {merge : Worker → Worker → Worker}
  {total : List α → Worker}

/-- When merging the totals of two parts gives the total of both, every schedule gives the
total of the whole list. -/
theorem Schedule.reduce_eq (empty : total [] = unit)
    (append : ∀ first second, total (first ++ second) = merge (total first) (total second))
    (schedule : Schedule) (chunks : List (List α)) :
    schedule.reduce unit merge (chunks.map total) = total chunks.flatten := by
  induction schedule generalizing chunks with
  | fold =>
      rw [reduce]
      have onto : ∀ before : List α,
          (chunks.map total).foldl merge (total before) = total (before ++ chunks.flatten) := by
        induction chunks with
        | nil => simp
        | cons chunk chunks induction =>
            intro before
            rw [map_cons, foldl_cons, ← append, induction, flatten_cons, List.append_assoc]
      simpa [empty] using onto []
  | split position left right leftInduction rightInduction =>
      rw [reduce, ← map_take, ← map_drop, leftInduction, rightInduction, ← append, ← flatten_append,
        take_append_drop]

end Reduction

end NftData
