import Mathlib

namespace NftData

open Function

/-! # Cycle walking

A permutation of a set is turned into one of a part of it: a value is mapped until it is
inside the part again. -/

section CycleWalk

variable {α : Type*}

def cycleWalk (step : α → α) (inside : α → Prop) [DecidablePred inside] : Nat → α → Option α
  | 0, _ => none
  | fuel + 1, value =>
      if inside (step value) then some (step value)
      else cycleWalk step inside fuel (step value)

variable {step : α → α} {inside : α → Prop} [DecidablePred inside] {value result : α} {fuel : Nat}

/-- A walk ends at the first value inside. -/
theorem cycleWalk_eq_some_iff :
    cycleWalk step inside fuel value = some result ↔
      ∃ turns < fuel, step^[turns + 1] value = result ∧ inside result ∧
        ∀ earlier < turns, ¬ inside (step^[earlier + 1] value) := by
  induction fuel generalizing value with
  | zero => simp [cycleWalk]
  | succ fuel induction =>
      rw [cycleWalk]
      by_cases here : inside (step value)
      · rw [if_pos here, Option.some.injEq]
        constructor
        · intro equal
          exact ⟨0, Nat.succ_pos _, equal, equal ▸ here,
            fun _ less => absurd less (Nat.not_lt_zero _)⟩
        · rintro ⟨turns, _, equal, _, first⟩
          cases turns with
          | zero => exact equal
          | succ turns => exact absurd here (first 0 (Nat.succ_pos _))
      · rw [if_neg here, induction]
        constructor
        · rintro ⟨turns, less, equal, isInside, first⟩
          refine ⟨turns + 1, Nat.succ_lt_succ less, equal, isInside, ?_⟩
          intro earlier before
          cases earlier with
          | zero => exact here
          | succ earlier => exact first earlier (Nat.lt_of_succ_lt_succ before)
        · rintro ⟨turns, less, equal, isInside, first⟩
          cases turns with
          | zero =>
              subst equal
              exact absurd isInside here
          | succ turns =>
              refine ⟨turns, Nat.lt_of_succ_lt_succ less, equal, isInside, ?_⟩
              intro earlier before
              exact first (earlier + 1) (Nat.succ_lt_succ before)

theorem inside_of_cycleWalk {fuel : Nat} {value result : α}
    (walks : cycleWalk step inside fuel value = some result) : inside result := by
  rcases cycleWalk_eq_some_iff.mp walks with ⟨_, _, _, isInside, _⟩
  exact isInside

theorem cycleWalk_mono {more : Nat} (atMost : fuel ≤ more)
    (walks : cycleWalk step inside fuel value = some result) :
    cycleWalk step inside more value = some result := by
  rcases cycleWalk_eq_some_iff.mp walks with ⟨turns, less, rest⟩
  exact cycleWalk_eq_some_iff.mpr ⟨turns, less.trans_le atMost, rest⟩

section Domain

variable {domain : Finset α} (stays : ∀ value ∈ domain, step value ∈ domain)
  (injective : Set.InjOn step domain)

include stays

theorem iterate_mem (member : value ∈ domain) (turns : Nat) :
    step^[turns] value ∈ domain := by
  induction turns with
  | zero => exact member
  | succ turns induction =>
      rw [iterate_succ_apply']
      exact stays _ induction

include injective

variable {second first : α}

theorem eq_of_iterate_eq (firstIn : first ∈ domain) (secondIn : second ∈ domain) (turns : Nat)
    (equal : step^[turns] first = step^[turns] second) : first = second := by
  induction turns with
  | zero => exact equal
  | succ turns induction =>
      rw [iterate_succ_apply', iterate_succ_apply'] at equal
      exact induction (injective (iterate_mem stays firstIn turns)
        (iterate_mem stays secondIn turns) equal)

/-- Every value comes back to itself. -/
theorem exists_iterate_eq (member : value ∈ domain) :
    ∃ turns < domain.card, step^[turns + 1] value = value := by
  have crowded : domain.card < (Finset.range (domain.card + 1)).card := by simp
  rcases Finset.exists_ne_map_eq_of_card_lt_of_maps_to crowded
    (fun turns _ => iterate_mem stays member turns) with
    ⟨first, firstIn, second, secondIn, different, equal⟩
  rw [Finset.mem_range] at firstIn secondIn
  have returns : ∀ less more : Nat, less < more → more < domain.card + 1 →
      step^[less] value = step^[more] value →
      ∃ turns < domain.card, step^[turns + 1] value = value := by
    intro less more before inRange same
    refine ⟨more - less - 1, by omega, ?_⟩
    have split : step^[more] value = step^[less] (step^[more - less] value) := by
      rw [← iterate_add_apply, Nat.add_sub_cancel' before.le]
    have back := eq_of_iterate_eq stays injective member
      (iterate_mem stays member (more - less)) less (same.trans split)
    rw [Nat.sub_add_cancel (by omega)]
    exact back.symm
  rcases Nat.lt_or_gt_of_ne different with before | after
  · exact returns first second before secondIn equal
  · exact returns second first after firstIn equal.symm

/-- A walk that starts inside ends. -/
theorem cycleWalk_returns {value : α} (member : value ∈ domain) (starts : inside value) :
    ∃ result ∈ domain, cycleWalk step inside domain.card value = some result := by
  rcases exists_iterate_eq stays injective member with ⟨turns, less, back⟩
  have again : inside (step^[turns + 1] value) := by
    rw [back]
    exact starts
  have reached : ∃ turns, inside (step^[turns + 1] value) := ⟨turns, again⟩
  classical
  refine ⟨step^[Nat.find reached + 1] value, iterate_mem stays member _,
    cycleWalk_eq_some_iff.mpr ⟨Nat.find reached, ?_, rfl, Nat.find_spec reached, ?_⟩⟩
  · exact (Nat.find_min' reached again).trans_lt less
  · intro earlier before
    exact Nat.find_min reached before

theorem cycleWalk_injective {firstFuel secondFuel : Nat} (firstIn : first ∈ domain)
    (secondIn : second ∈ domain) (firstStarts : inside first) (secondStarts : inside second)
    (firstWalks : cycleWalk step inside firstFuel first = some result)
    (secondWalks : cycleWalk step inside secondFuel second = some result) :
    first = second := by
  have shorter : ∀ {left right : α} {less more : Nat}, left ∈ domain → right ∈ domain →
      inside left → less ≤ more → step^[less + 1] left = step^[more + 1] right →
      (∀ earlier < more, ¬ inside (step^[earlier + 1] right)) → left = right := by
    intro left right less more leftIn rightIn leftStarts atMost equal noneBefore
    have split : step^[more + 1] right = step^[less + 1] (step^[more - less] right) := by
      rw [← iterate_add_apply]
      congr 1
      omega
    have back := eq_of_iterate_eq stays injective leftIn
      (iterate_mem stays rightIn (more - less)) (less + 1) (equal.trans split)
    rcases Nat.eq_or_lt_of_le atMost with same | before
    · rw [back, same, Nat.sub_self]
      rfl
    · have isInside := leftStarts
      rw [back, show more - less = more - less - 1 + 1 by omega] at isInside
      exact absurd isInside (noneBefore _ (by omega))
  rcases cycleWalk_eq_some_iff.mp firstWalks with ⟨less, _, firstEq, _, firstNone⟩
  rcases cycleWalk_eq_some_iff.mp secondWalks with ⟨more, _, secondEq, _, secondNone⟩
  rcases Nat.le_total less more with atMost | atMost
  · exact shorter firstIn secondIn firstStarts atMost (firstEq.trans secondEq.symm) secondNone
  · exact (shorter secondIn firstIn secondStarts atMost (secondEq.trans firstEq.symm)
      firstNone).symm

end Domain

end CycleWalk

end NftData
