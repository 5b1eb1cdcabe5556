import Mathlib

namespace NftData

/-! ## Binary search

`slice::binary_search_by`: the search keeps a window that holds every place
where the comparison can change and halves it. Which of several equal elements
it reports is the one this loop stops at. -/

/-- Narrow the window `[base, base + size)` until it holds one element.
`fuel` bounds the number of halvings. -/
def searchBase {α : Type*} (order : α → Ordering) (values : List α) :
    Nat → Nat → Nat → Nat
  | 0, base, _ => base
  | fuel + 1, base, size =>
      if size ≤ 1 then
        base
      else
        let half := size / 2
        let middle := base + half
        match values[middle]? with
        | none => base
        | some value =>
            searchBase order values fuel
              (if order value = .gt then base else middle) (size - half)

/-- `Except.ok` is the position of an equal element and `Except.error` the
position where one could be inserted. -/
def binarySearchBy {α : Type*} (values : List α) (order : α → Ordering) :
    Except Nat Nat :=
  let base := searchBase order values values.length 0 values.length
  match values[base]? with
  | none => .error 0
  | some value =>
      match order value with
      | .eq => .ok base
      | .lt => .error (base + 1)
      | .gt => .error base

/-- `unwrap_or_else(|position| position)` on a search result. -/
def searchPosition {α : Type*} (values : List α) (order : α → Ordering) : Nat :=
  match binarySearchBy values order with
  | .ok position => position
  | .error position => position

example : searchPosition [1, 3, 4, 8] (fun value => compare value 5) = 3 := by
  decide

/-- The comparison never falls along the list: `lt` first, then `eq`, then `gt`. -/
structure SearchSorted {α : Type*} (order : α → Ordering) (values : List α) :
    Prop where
  greater : values.Pairwise fun left right => order left = .gt → order right = .gt
  less : values.Pairwise fun left right => order right = .lt → order left = .lt

namespace SearchSorted

variable {α : Type*} {order : α → Ordering} {values : List α} {rightValue leftValue : α} {right left
  : Nat}

private theorem related_of_le {Related : α → α → Prop} (pairwise : values.Pairwise Related)
    (refl : ∀ value, Related value value) (le : left ≤ right)
    (leftAt : values[left]? = some leftValue) (rightAt : values[right]? = some rightValue) :
    Related leftValue rightValue := by
  rcases List.getElem?_eq_some_iff.mp leftAt with ⟨leftLt, rfl⟩
  rcases List.getElem?_eq_some_iff.mp rightAt with ⟨rightLt, rfl⟩
  rcases Nat.lt_or_eq_of_le le with less | rfl
  · exact List.pairwise_iff_getElem.mp pairwise left right leftLt rightLt less
  · exact refl _

section

variable (sorted : SearchSorted order values)
include sorted

private theorem gt_of_le (le : left ≤ right) (leftAt : values[left]? = some leftValue)
    (rightAt : values[right]? = some rightValue) (isGreater : order leftValue = .gt) :
    order rightValue = .gt :=
  related_of_le sorted.greater (fun _ => id) le leftAt rightAt isGreater

private theorem lt_of_le (le : left ≤ right) (leftAt : values[left]? = some leftValue)
    (rightAt : values[right]? = some rightValue) (isLess : order rightValue = .lt) :
    order leftValue = .lt :=
  related_of_le sorted.less (fun _ => id) le leftAt rightAt isLess

/-- The window keeps its two promises: its first element is not greater unless
nothing before it was passed, and everything after it is greater. -/
private theorem searchBase_spec :
    ∀ fuel base size, size ≤ fuel + 1 → 0 < size → base + size ≤ values.length →
      (base = 0 ∨ ∀ value, values[base]? = some value → order value ≠ .gt) →
      (∀ position value, base + size ≤ position →
        values[position]? = some value → order value = .gt) →
      let final := searchBase order values fuel base size
      final < values.length ∧
        (final = 0 ∨ ∀ value, values[final]? = some value → order value ≠ .gt) ∧
        ∀ position value, final < position →
          values[position]? = some value → order value = .gt := by
  intro fuel
  induction fuel with
  | zero =>
      intro base size enough positive inside first after
      have : size = 1 := by omega
      subst this
      exact ⟨by simp [searchBase]; omega, first, after⟩
  | succ fuel induction =>
      intro base size enough positive inside first after
      by_cases small : size ≤ 1
      · have : size = 1 := by omega
        subst this
        simp only [searchBase, le_refl, if_true]
        exact ⟨by omega, first, after⟩
      · have middleLt : base + size / 2 < values.length := by omega
        simp only [searchBase, small, if_false, List.getElem?_eq_getElem middleLt]
        split
        · next isGreater =>
            apply induction base (size - size / 2) (by omega) (by omega) (by omega) first
            intro position value atLeast found
            have middleAt := List.getElem?_eq_getElem middleLt
            exact sorted.gt_of_le (by omega) middleAt found isGreater
        · next notGreater =>
            apply induction (base + size / 2) (size - size / 2)
              (by omega) (by omega) (by omega)
            · right
              intro value found
              rw [List.getElem?_eq_getElem middleLt] at found
              exact Option.some.inj found ▸ notGreater
            · intro position value atLeast found
              exact after position value (by omega) found

private theorem searchBase_whole (positive : 0 < values.length) :
    let final := searchBase order values values.length 0 values.length
    final < values.length ∧
      (final = 0 ∨ ∀ value, values[final]? = some value → order value ≠ .gt) ∧
      ∀ position value, final < position →
        values[position]? = some value → order value = .gt := by
  apply sorted.searchBase_spec values.length 0 values.length (by omega) positive (by omega)
    (Or.inl rfl)
  intro position value atLeast found
  have inside := (List.getElem?_eq_some_iff.mp found).1
  omega

/-- The reported position splits the list: nothing before it compares greater
and nothing from it on compares less. -/
theorem searchPosition_spec :
    searchPosition values order ≤ values.length ∧
      (∀ value ∈ values.take (searchPosition values order), order value ≠ .gt) ∧
      ∀ value ∈ values.drop (searchPosition values order), order value ≠ .lt := by
  cases valuesEqual : values with
  | nil => simp [searchPosition, binarySearchBy, searchBase]
  | cons head tail =>
      rw [← valuesEqual]
      have positive : 0 < values.length := by simp [valuesEqual]
      have final := sorted.searchBase_whole positive
      rcases final with ⟨finalLt, finalFirst, finalAfter⟩
      generalize finalEqual :
        searchBase order values values.length 0 values.length = final at *
      have finalAt := List.getElem?_eq_getElem finalLt
      have before : ∀ index value, index < final → values[index]? = some value →
          order value ≠ .gt := by
        intro index value lt found isGreater
        rcases finalFirst with isZero | notGreater
        · omega
        · exact notGreater _ finalAt
            (sorted.gt_of_le (Nat.le_of_lt lt) found finalAt isGreater)
      have splits : ∀ count ≤ values.length,
          (∀ index value, index < count → values[index]? = some value → order value ≠ .gt) →
          (∀ index value, count ≤ index → values[index]? = some value → order value ≠ .lt) →
          count ≤ values.length ∧ (∀ value ∈ values.take count, order value ≠ .gt) ∧
            ∀ value ∈ values.drop count, order value ≠ .lt := by
        intro count inside notGreater notLess
        refine ⟨inside, fun value member => ?_, fun value member => ?_⟩
        · rcases List.mem_iff_getElem?.mp member with ⟨index, found⟩
          rw [List.getElem?_take] at found
          split at found
          · next lt => exact notGreater index value lt found
          · cases found
        · rcases List.mem_iff_getElem?.mp member with ⟨index, found⟩
          rw [List.getElem?_drop] at found
          exact notLess (count + index) value (by omega) found
      have position : searchPosition values order =
          if order values[final] = .lt then final + 1 else final := by
        cases finalOrder : order values[final] <;>
          simp [searchPosition, binarySearchBy, finalEqual, finalAt, finalOrder]
      rw [position]
      cases finalOrder : order values[final] with
      | eq =>
          refine splits final (by omega) before fun index value le found isLess => ?_
          have := sorted.lt_of_le le finalAt found isLess
          simp [finalOrder] at this
      | lt =>
          refine splits (final + 1) (by omega) ?_ ?_
          · intro index value lt found
            rcases Nat.lt_or_eq_of_le (Nat.le_of_lt_succ lt) with less | equal
            · exact before index value less found
            · subst equal
              rw [finalAt] at found
              rw [← Option.some.inj found, finalOrder]
              decide
          · intro index value le found isLess
            have := finalAfter index value (by omega) found
            simp [this] at isLess
      | gt =>
          refine splits final (by omega) before fun index value le found isLess => ?_
          have := sorted.gt_of_le le finalAt found finalOrder
          simp [this] at isLess

end

variable {position : Nat}

theorem getElem?_of_binarySearchBy (found : binarySearchBy values order = .ok position) :
    ∃ value, values[position]? = some value ∧ order value = .eq := by
  rw [binarySearchBy] at found
  split at found
  · cases found
  · next value valueAt =>
      split at found
      · next isEqual =>
          cases found
          exact ⟨value, valueAt, isEqual⟩
      · cases found
      · cases found

theorem binarySearchBy_of_mem (sorted : SearchSorted order values) {value : α}
    (member : value ∈ values) (isEqual : order value = .eq) :
    ∃ position, binarySearchBy values order = .ok position := by
  rcases List.mem_iff_getElem?.mp member with ⟨index, found⟩
  have positive : 0 < values.length := List.length_pos_of_mem member
  have final := sorted.searchBase_whole positive
  rcases final with ⟨finalLt, finalFirst, finalAfter⟩
  rw [binarySearchBy]
  generalize searchBase order values values.length 0 values.length = final at *
  have finalAt := List.getElem?_eq_getElem finalLt
  have atMost : index ≤ final := by
    by_contra beyond
    have isGreater := finalAfter index value (by omega) found
    simp [isEqual] at isGreater
  rw [finalAt]
  cases finalOrder : order values[final] with
  | eq => exact ⟨final, by simp [finalOrder]⟩
  | lt =>
      have isLess := sorted.lt_of_le atMost found finalAt finalOrder
      simp [isEqual] at isLess
  | gt =>
      -- A greater element is the last of the window only when nothing stands before it.
      rcases finalFirst with isZero | notGreater
      · have same : index = final := by omega
        rw [same, finalAt] at found
        rw [Option.some.inj found, isEqual] at finalOrder
        cases finalOrder
      · exact absurd finalOrder (notGreater _ finalAt)

theorem greater_of_binarySearchBy (sorted : SearchSorted order values)
    (found : binarySearchBy values order = .ok position) :
    ∀ value ∈ values.drop (position + 1), order value = .gt := by
  rcases getElem?_of_binarySearchBy found with ⟨equalValue, equalAt, _⟩
  have positive : 0 < values.length :=
    (List.getElem?_eq_some_iff.mp equalAt).1.trans_le' (Nat.zero_le _)
  have final := sorted.searchBase_whole positive
  intro value member
  rcases List.mem_iff_getElem?.mp member with ⟨index, valueAt⟩
  rw [List.getElem?_drop] at valueAt
  rw [binarySearchBy] at found
  split at found
  · cases found
  · split at found
    · cases found
      exact final.2.2 _ value (by omega) valueAt
    · cases found
    · cases found

end SearchSorted

/-! ## Partition points

`slice::partition_point`: the length of the part of a list where a condition holds, when it
holds of a first part only. -/

section PartitionPoint

variable {α : Type*}

def partitionPoint (values : List α) (holds : α → Bool) : Nat :=
  searchPosition values fun value => if holds value then .lt else .gt

/-- The condition holds of a first part of the list only. -/
def Partitioned (holds : α → Bool) (values : List α) : Prop :=
  values.Pairwise fun left right => holds right = true → holds left = true

variable {holds : α → Bool} {values : List α}

theorem Partitioned.sublist {part : List α} (partitioned : Partitioned holds values)
    (isPart : part.Sublist values) : Partitioned holds part :=
  List.Pairwise.sublist isPart partitioned

theorem partitioned_of_sorted {Key : Type*} [Preorder Key] {key : α → Key}
    (sorted : values.Pairwise fun left right => key left ≤ key right)
    (lower : ∀ left right, key left ≤ key right → holds right = true → holds left = true) :
    Partitioned holds values :=
  sorted.imp fun atMost => lower _ _ atMost

private theorem searchSorted_partitioned (partitioned : Partitioned holds values) :
    SearchSorted (fun value => if holds value then Ordering.lt else .gt) values := by
  constructor
  · refine partitioned.imp fun {left right} down => ?_
    cases leftHolds : holds left <;> cases rightHolds : holds right <;>
      simp_all
  · refine partitioned.imp fun {left right} down => ?_
    cases leftHolds : holds left <;> cases rightHolds : holds right <;>
      simp_all

theorem partitionPoint_spec (partitioned : Partitioned holds values) :
    partitionPoint values holds ≤ values.length ∧
      (∀ value ∈ values.take (partitionPoint values holds), holds value = true) ∧
      ∀ value ∈ values.drop (partitionPoint values holds), holds value = false := by
  have split := (searchSorted_partitioned partitioned).searchPosition_spec
  refine ⟨split.1, ?_, ?_⟩
  · intro value member
    have notGreater := split.2.1 value member
    by_contra fails
    exact notGreater (if_neg fails)
  · intro value member
    have notLess := split.2.2 value member
    by_contra succeeds
    exact notLess (if_pos (by simpa using succeeds))

end PartitionPoint

end NftData
