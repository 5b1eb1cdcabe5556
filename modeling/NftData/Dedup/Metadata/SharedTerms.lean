import NftData.Foundation.BinarySearch
import NftData.Dedup.Metadata.PairCosine

namespace NftData.Dedup.Bm25

/-! # Shared terms

The common terms of two documents are visited in the order of their numbers, by a walk over both
lists, or by a gallop through the longer one. -/

open List

/-- The steps double while they end before the target. Lists are shorter than 2³², so no step
saturates. -/
def gallopStep (terms : List (Nat × Nat)) (start target step : Nat) (positive : 0 < step) : Nat :=
  if _ : step < terms.length - start ∧
      ∃ entry ∈ terms[start + step]?, entry.1 < target then
    gallopStep terms start target (step * 2) (Nat.mul_pos positive Nat.two_pos)
  else
    step
termination_by terms.length - start - step
decreasing_by omega

def gallopingLowerBound (terms : List (Nat × Nat)) (start target : Nat) : Nat :=
  if terms.length ≤ start ∨ ∃ entry ∈ terms[start]?, target ≤ entry.1 then
    start
  else
    let step := gallopStep terms start target 1 Nat.one_pos
    let low := start + step / 2 + 1
    let high := min (start + step + 1) terms.length
    low + partitionPoint ((terms.take high).drop low) fun entry => entry.1 < target

/-- The visits of a gallop, with the frequencies of the shorter list first. -/
def gallopVisits (longer : List (Nat × Nat)) : Nat → List (Nat × Nat) → List (Nat × Nat)
  | _, [] => []
  | longerPos, (term, shortTf) :: shorter =>
      let found := gallopingLowerBound longer longerPos term
      match longer[found]? with
      | none => []
      | some (candidate, longTf) =>
          if candidate ≠ term then gallopVisits longer found shorter
          else (shortTf, longTf) :: gallopVisits longer (found + 1) shorter

/-- The frequencies that `for_each_shared_term` visits. -/
def forEachSharedTerm (left right : List (Nat × Nat)) : List (Nat × Nat) :=
  if left.length ≤ right.length then
    if left.length * 4 < right.length then gallopVisits right 0 left
    else sharedFrequencies left right
  else
    if right.length * 4 < left.length then (gallopVisits left 0 right).map Prod.swap
    else sharedFrequencies left right

/-! ## The gallop stops at the target -/

/-- Before the half of the last step all terms are below the target, and behind the step none is. -/
structure Gallops (terms : List (Nat × Nat)) (start target step : Nat) : Prop where
  below : ∀ index entry, index ≤ start + step / 2 → start ≤ index →
    terms[index]? = some entry → entry.1 < target
  above : ∀ index entry, start + step ≤ index → terms[index]? = some entry → target ≤ entry.1

variable {terms : List (Nat × Nat)} {otherEntry entry : Nat × Nat} {index other : Nat}

theorem KeySorted.lt_of_lt (sorted : KeySorted terms) (less : index < other)
    (isEntry : terms[index]? = some entry) (isOther : terms[other]? = some otherEntry) :
    entry.1 < otherEntry.1 := by
  rcases List.getElem?_eq_some_iff.mp isEntry with ⟨inside, rfl⟩
  rcases List.getElem?_eq_some_iff.mp isOther with ⟨otherInside, rfl⟩
  exact pairwise_iff_getElem.mp sorted index other inside otherInside less

theorem KeySorted.le_of_le (sorted : KeySorted terms) (atMost : index ≤ other)
    (isEntry : terms[index]? = some entry) (isOther : terms[other]? = some otherEntry) :
    entry.1 ≤ otherEntry.1 := by
  rcases atMost.eq_or_lt with rfl | less
  · rw [isEntry, Option.some.injEq] at isOther
    exact (congrArg Prod.fst isOther).le
  · exact (KeySorted.lt_of_lt sorted less isEntry isOther).le

theorem gallops_gallopStep {terms : List (Nat × Nat)} (sorted : KeySorted terms)
    {start target step : Nat} (positive : 0 < step)
    (below : ∀ index entry, index ≤ start + step / 2 → start ≤ index →
      terms[index]? = some entry → entry.1 < target) :
    Gallops terms start target (gallopStep terms start target step positive) := by
  fun_induction gallopStep terms start target step positive with
  | case1 step positive inside induction =>
      apply induction
      rcases inside with ⟨_, probed, isProbed, less⟩
      intro index entry atMost _ isEntry
      have isBefore : index ≤ start + step := by omega
      exact (KeySorted.le_of_le sorted isBefore isEntry isProbed).trans_lt less
  | case2 step positive outside =>
      refine ⟨below, fun index entry behind isEntry => ?_⟩
      by_contra less
      have short := (List.getElem?_eq_some_iff.mp isEntry).1
      have inside : start + step < terms.length := behind.trans_lt short
      have probed := List.getElem?_eq_getElem inside
      apply outside
      refine ⟨by omega, terms[start + step], probed, ?_⟩
      exact (KeySorted.le_of_le sorted behind probed isEntry).trans_lt (not_le.mp less)

/-- The lower bound splits the terms from the start on by the target. -/
structure LowerBound (terms : List (Nat × Nat)) (start target found : Nat) : Prop where
  start_le : start ≤ found
  below : ∀ index entry, start ≤ index → index < found → terms[index]? = some entry →
    entry.1 < target
  above : ∀ index entry, found ≤ index → terms[index]? = some entry → target ≤ entry.1

theorem lowerBound_gallopingLowerBound (sorted : KeySorted terms) (start target : Nat) :
    LowerBound terms start target (gallopingLowerBound terms start target) := by
  rw [gallopingLowerBound]
  split
  · next stays =>
      refine ⟨le_rfl, fun index entry atLeast less => absurd less atLeast.not_gt, ?_⟩
      intro index entry atLeast isEntry
      have short := (List.getElem?_eq_some_iff.mp isEntry).1
      rcases stays with past | ⟨first, isFirst, reached⟩
      · omega
      · exact reached.trans (KeySorted.le_of_le sorted atLeast isFirst isEntry)
  · next moves =>
      rw [not_or, not_le] at moves
      rcases moves with ⟨inside, notReached⟩
      have gallops := @gallops_gallopStep terms sorted start target 1 Nat.one_pos
        (by
          intro index entry atMost atLeast isEntry
          have same : index = start := by omega
          rw [same] at isEntry
          by_contra reached
          exact notReached ⟨entry, isEntry, not_lt.mp reached⟩)
      generalize gallopStep terms start target 1 Nat.one_pos = step at gallops
      simp only
      generalize isLow : start + step / 2 + 1 = low
      generalize isHigh : min (start + step + 1) terms.length = high
      have partitioned : Partitioned (fun entry : Nat × Nat => decide (entry.1 < target))
          ((terms.take high).drop low) := by
        apply Partitioned.sublist _ ((drop_sublist ..).trans (take_sublist ..))
        refine @partitioned_of_sorted _ _ _ _ _ Prod.fst (sorted.imp fun less => le_of_lt less) ?_
        intro left right atMost isBelow
        exact decide_eq_true (atMost.trans_lt (of_decide_eq_true isBelow))
      have split := partitionPoint_spec partitioned
      generalize partitionPoint ((terms.take high).drop low)
        (fun entry => decide (entry.1 < target)) = point at split
      rcases split with ⟨pointAtMost, isBelow, isAbove⟩
      rw [length_drop, length_take] at pointAtMost
      refine ⟨by omega, ?_, ?_⟩
      · intro index entry atLeast less isEntry
        by_cases early : index ≤ start + step / 2
        · exact gallops.below index entry early atLeast isEntry
        · have inWindow : entry ∈ ((terms.take high).drop low).take point := by
            apply mem_of_getElem? (i := index - low)
            have position : low + (index - low) = index := by omega
            rw [List.getElem?_take_of_lt (by omega), List.getElem?_drop, position,
              List.getElem?_take_of_lt (by omega), isEntry]
          exact of_decide_eq_true (isBelow entry inWindow)
      · intro index entry atLeast isEntry
        have short := (List.getElem?_eq_some_iff.mp isEntry).1
        by_cases late : start + step ≤ index
        · exact gallops.above index entry late isEntry
        · have inWindow : entry ∈ ((terms.take high).drop low).drop point := by
            apply mem_of_getElem? (i := index - low - point)
            have position : low + (point + (index - low - point)) = index := by omega
            rw [List.getElem?_drop, List.getElem?_drop, position,
              List.getElem?_take_of_lt (by omega), isEntry]
          exact not_lt.mp (of_decide_eq_false (isAbove entry inWindow))

theorem gallopVisits_eq {longer shorter : List (Nat × Nat)} (longerSorted : KeySorted longer)
    (longerPos : Nat) :
    gallopVisits longer longerPos shorter =
      sharedFrequencies shorter (longer.drop longerPos) := by
  induction shorter generalizing longerPos with
  | nil => rw [gallopVisits, sharedFrequencies_nil_left]
  | cons head shorter induction =>
      rcases head with ⟨term, shortTf⟩
      have bound := lowerBound_gallopingLowerBound longerSorted longerPos term
      rw [gallopVisits]
      generalize gallopingLowerBound longer longerPos term = found at bound ⊢
      have skipped : ∀ entry ∈ (longer.drop longerPos).take (found - longerPos),
          entry.1 < term := by
        intro entry member
        rcases mem_take_iff_getElem.mp member with ⟨index, inside, rfl⟩
        rw [length_drop] at inside
        apply bound.below (longerPos + index) _ (Nat.le_add_right ..) (by omega)
        rw [getElem_drop, List.getElem?_eq_getElem]
      have split : longer.drop longerPos =
          (longer.drop longerPos).take (found - longerPos) ++ longer.drop found := by
        conv_lhs => rw [← take_append_drop (found - longerPos) (longer.drop longerPos)]
        rw [drop_drop, Nat.add_sub_cancel' bound.start_le]
      rw [split, sharedFrequencies, mergeJoin_skip_right _ skipped, ← sharedFrequencies]
      cases isFound : longer[found]? with
      | none =>
          rw [drop_eq_nil_of_le (List.getElem?_eq_none_iff.mp isFound),
            sharedFrequencies_nil_right]
      | some entry =>
          rcases entry with ⟨candidate, longTf⟩
          rcases List.getElem?_eq_some_iff.mp isFound with ⟨inside, isEntry⟩
          have reached : term ≤ candidate := bound.above found _ le_rfl isFound
          simp only
          split
          · next different =>
              have less : term < candidate := lt_of_le_of_ne reached (Ne.symm different)
              rw [induction, drop_eq_getElem_cons inside, isEntry, sharedFrequencies,
                sharedFrequencies, mergeJoin, if_neg less.ne, if_pos less]
          · next same =>
              rw [not_not.mp same] at isEntry
              rw [induction, drop_eq_getElem_cons inside, isEntry, sharedFrequencies,
                sharedFrequencies, mergeJoin, if_pos rfl, map_cons]

theorem sharedFrequencies_swap (left right : List (Nat × Nat)) :
    (sharedFrequencies right left).map Prod.swap = sharedFrequencies left right := by
  rw [sharedFrequencies, sharedFrequencies, ← mergeJoin_swap left right, map_map,
    map_map]
  rfl

theorem forEachSharedTerm_eq {left right : List (Nat × Nat)} (leftSorted : KeySorted left)
    (rightSorted : KeySorted right) :
    forEachSharedTerm left right = sharedFrequencies left right := by
  rw [forEachSharedTerm]
  split
  · split
    · rw [gallopVisits_eq rightSorted, drop_zero]
    · rfl
  · split
    · rw [gallopVisits_eq leftSorted, drop_zero, sharedFrequencies_swap]
    · rfl

end NftData.Dedup.Bm25
