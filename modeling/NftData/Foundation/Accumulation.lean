import Mathlib

namespace NftData

/-! # Accumulated sums

Loops that add the amounts of events to totals, and comparisons of two such sums. -/

open List

section
variable {State Event Amount : Type*}

theorem foldl_total [AddCommMonoid Amount] {step : State → Event → State}
    {total : State → Amount} {amount : Event → Amount}
    (adds : ∀ state event, total (step state event) = total state + amount event)
    (events : List Event) (state : State) :
    total (events.foldl step state) = total state + (events.map amount).sum := by
  induction events generalizing state with
  | nil => simp
  | cons event rest induction =>
      rw [foldl_cons, induction, adds, map_cons, sum_cons, add_assoc]

theorem foldl_unchanged {step : State → Event → State} {Part : Type*} {part : State → Part}
    (keeps : ∀ state event, part (step state event) = part state) (events : List Event)
    (state : State) : part (events.foldl step state) = part state := by
  induction events generalizing state with
  | nil => rfl
  | cons event rest induction => exact (induction (step state event)).trans (keeps state event)

theorem sum_eq_iff_of_le [AddCommMonoid Amount] [PartialOrder Amount]
    [IsOrderedCancelAddMonoid Amount]
    {lower upper : Event → Amount} {events : List Event}
    (below : ∀ event ∈ events, lower event ≤ upper event) :
    (events.map lower).sum = (events.map upper).sum ↔
      ∀ event ∈ events, lower event = upper event := by
  induction events with
  | nil => simp
  | cons event rest induction =>
      have headBelow := below event mem_cons_self
      have restBelow : ∀ other ∈ rest, lower other ≤ upper other := fun other member =>
        below other (mem_cons_of_mem event member)
      rw [map_cons, sum_cons, map_cons, sum_cons, forall_mem_cons,
        ← induction restBelow]
      exact add_eq_add_iff_eq_and_eq headBelow (sum_le_sum restBelow)

theorem sum_map_set_lt {values : List Event} {lower upper : Event → Nat} {place : Nat}
    {before after : Event} (found : values[place]? = some before)
    (less : lower after < upper before) (below : ∀ value ∈ values, lower value ≤ upper value) :
    ((values.set place after).map lower).sum < (values.map upper).sum := by
  induction values generalizing place with
  | nil => cases found
  | cons head tail induction =>
      have headBelow := below head mem_cons_self
      have tailBelow : ∀ value ∈ tail, lower value ≤ upper value := fun value member =>
        below value (mem_cons_of_mem head member)
      cases place with
      | zero =>
          cases found
          have rest := sum_le_sum tailBelow
          simp only [set_cons_zero, map_cons, sum_cons]
          omega
      | succ place =>
          have rest := induction found tailBelow
          simp only [set_cons_succ, map_cons, sum_cons]
          omega

/-- Changing one value changes a sum of weights by that value's. -/
theorem sum_update_add {Place : Type*} [Fintype Place] [DecidableEq Place] {Value : Type*}
    (weight : Value → Nat) (values : Place → Value) (place : Place) (value : Value) :
    ∑ other, weight (Function.update values place value other) + weight (values place) =
      ∑ other, weight (values other) + weight value := by
  have updated := Finset.sum_update_of_mem (Finset.mem_univ place) (weight ∘ values) (weight value)
  have whole := Finset.add_sum_erase Finset.univ (weight ∘ values) (Finset.mem_univ place)
  simp only [← Function.comp_update, Finset.sdiff_singleton_eq_erase, Function.comp_apply] at updated whole
  omega

end

theorem sum_le_sum_drop {Value : Type*} [AddCommMonoid Value] [PartialOrder Value]
    [IsOrderedAddMonoid Value] {values chosen : List Value} {count : Nat}
    (sorted : values.Pairwise (· ≤ ·)) (nonneg : ∀ value ∈ values, 0 ≤ value)
    (isPart : chosen.Sublist values) (few : chosen.length ≤ count) :
    chosen.sum ≤ (values.drop (values.length - count)).sum := by
  induction values generalizing chosen count with
  | nil => rw [sublist_nil.mp isPart, drop_nil]
  | cons head tail induction =>
      have tailNonneg := fun value member => nonneg value (mem_cons_of_mem head member)
      rw [length_cons]
      rcases Nat.lt_or_ge tail.length count with all | some
      · have start : tail.length + 1 - count = 0 := by omega
        rw [start, drop_zero]
        exact isPart.sum_le_sum nonneg
      · have start : tail.length + 1 - count = tail.length - count + 1 := by omega
        rw [start, drop_succ_cons]
        cases isPart with
        | cons _ isPart => exact induction sorted.of_cons tailNonneg isPart few
        | @cons_cons rest _ _ isPart =>
            -- The head is the least of all, so a value that was left out may take its place.
            rw [length_cons] at few
            have inside : tail.length - count < tail.length := by omega
            have next : tail.length - count + 1 = tail.length - (count - 1) := by omega
            have least : head ≤ tail[tail.length - count] :=
              rel_of_pairwise_cons sorted (getElem_mem inside)
            rw [drop_eq_getElem_cons inside, sum_cons, sum_cons, next]
            exact add_le_add least (induction sorted.of_cons tailNonneg isPart (by omega))

end NftData
