import Mathlib

namespace NftData

/-! # Lists related item by item -/

open List

namespace Related

variable {α β γ : Type*} {first : α → β → Prop} {second : β → γ → Prop} {values : List α} {others :
  List β} {value : α}

theorem exists_right (related : List.Forall₂ first values others) (member : value ∈ values) :
    ∃ other ∈ others, first value other := by
  induction related with
  | nil => exact absurd member not_mem_nil
  | cons head _ induction =>
      rcases mem_cons.mp member with rfl | inTail
      · exact ⟨_, mem_cons_self, head⟩
      · rcases induction inTail with ⟨other, inOthers, holds⟩
        exact ⟨other, mem_cons_of_mem _ inOthers, holds⟩

variable {other : α → β → Prop}

theorem both (left : List.Forall₂ first values others) (right : List.Forall₂ other values others) :
    List.Forall₂ (fun value result => first value result ∧ other value result) values others := by
  induction left with
  | nil => exact .nil
  | cons head _ induction =>
      cases right with
      | cons otherHead tail => exact .cons ⟨head, otherHead⟩ (induction tail)

theorem forall₂_comp {results : List γ} :
    List.Forall₂ (fun value result => ∃ other, first value other ∧ second other result)
        values results ↔
      ∃ others, List.Forall₂ first values others ∧ List.Forall₂ second others results := by
  constructor
  · intro related
    induction related with
    | nil => exact ⟨[], .nil, .nil⟩
    | cons head _ induction =>
        rcases head with ⟨other, left, right⟩
        rcases induction with ⟨others, lefts, rights⟩
        exact ⟨other :: others, .cons left lefts, .cons right rights⟩
  · rintro ⟨others, lefts, rights⟩
    induction lefts generalizing results with
    | nil =>
        cases rights
        exact .nil
    | cons head _ induction =>
        cases rights with
        | cons right rights => exact .cons ⟨_, head, right⟩ (induction rights)

theorem collect_eq_some {change : α → Option β} {collect : List α → Option (List β)}
    (nil : collect [] = some []) (cons : ∀ head tail, collect (head :: tail) =
      (change head).bind fun value => (collect tail).map (value :: ·)) {results : List β} :
    collect values = some results ↔
      List.Forall₂ (fun value result => change value = some result) values results := by
  induction values generalizing results with
  | nil => simp [nil, eq_comm]
  | cons head tail induction =>
      rw [cons, forall₂_cons_left_iff]
      simp only [Option.bind_eq_some_iff, Option.map_eq_some_iff, induction]
      constructor
      · rintro ⟨value, isValue, rest, related, rfl⟩
        exact ⟨value, rest, isValue, related, rfl⟩
      · rintro ⟨value, rest, isValue, related, rfl⟩
        exact ⟨value, isValue, rest, related, rfl⟩

/-- Two relations from the same values meet in common results. -/
theorem exists_common {α β γ δ : Type*} {first : α → β → Prop} {second : α → γ → Prop}
    {values : List α} {lefts : List β} {rights : List γ}
    (toLefts : List.Forall₂ first values lefts) (toRights : List.Forall₂ second values rights)
    (third : β → δ → Prop) (fourth : γ → δ → Prop)
    (meet : ∀ value ∈ values, ∀ left ∈ lefts, ∀ right ∈ rights, first value left →
      second value right → ∃ result, third left result ∧ fourth right result) :
    ∃ results, List.Forall₂ third lefts results ∧ List.Forall₂ fourth rights results := by
  induction toLefts generalizing rights with
  | nil =>
      cases toRights
      exact ⟨[], .nil, .nil⟩
  | cons left _ induction =>
      cases toRights with
      | cons right rights =>
          rcases meet _ mem_cons_self _ mem_cons_self _ mem_cons_self left right
            with ⟨result, isThird, isFourth⟩
          rcases induction rights fun value member other otherMember another anotherMember =>
            meet value (mem_cons_of_mem _ member) other
              (mem_cons_of_mem _ otherMember) another (mem_cons_of_mem _ anotherMember)
            with ⟨results, thirds, fourths⟩
          exact ⟨result :: results, .cons isThird thirds, .cons isFourth fourths⟩

variable {before after : List α}

/-- The partner of an item in the middle. -/
theorem exists_middle (related : List.Forall₂ first (before ++ value :: after) others) :
    ∃ front other back, others = front ++ other :: back ∧ List.Forall₂ first before front ∧
      first value other ∧ List.Forall₂ first after back := by
  induction before generalizing others with
  | nil =>
      cases related with
      | cons head tail => exact ⟨[], _, _, rfl, .nil, head, tail⟩
  | cons item rest induction =>
      cases related with
      | cons head tail =>
          rcases induction tail with ⟨front, other, back, rfl, fronts, isOther, backs⟩
          exact ⟨_ :: front, other, back, rfl, .cons head fronts, isOther, backs⟩

theorem forall₂_middle {front back : List β} {other : β} (fronts : List.Forall₂ first before front)
    (isOther : first value other) (backs : List.Forall₂ first after back) :
    List.Forall₂ first (before ++ value :: after) (front ++ other :: back) :=
  rel_append fronts (.cons isOther backs)

theorem eq_of_perm_middle {other : α}
    (perm : (before ++ value :: after).Perm (before ++ other :: after)) : value = other := by
  have tails := (perm_append_left_iff before).mp perm
  have singles : ([value] ++ after).Perm ([other] ++ after) := tails
  exact singleton_perm_singleton.mp ((perm_append_right_iff after).mp singles)

variable {otherWeight : β → Nat} {weight : α → Nat}

section

variable (related : List.Forall₂ (fun value other => otherWeight other ≤ weight value) values others)
include related

theorem sum_le : (others.map otherWeight).sum ≤ (values.map weight).sum := by
  induction related with
  | nil => exact le_rfl
  | cons head _ induction => simpa using Nat.add_le_add head induction

theorem forall₂_of_sum_eq (equal : (others.map otherWeight).sum = (values.map weight).sum) :
    List.Forall₂ (fun value other => otherWeight other = weight value) values others := by
  induction related with
  | nil => exact .nil
  | cons head tail induction =>
      simp only [map_cons, sum_cons] at equal
      have rest := sum_le tail
      exact .cons (by omega) (induction (by omega))

end

theorem sum_eq (related : List.Forall₂ (fun value other => otherWeight other = weight value)
      values others) : (others.map otherWeight).sum = (values.map weight).sum := by
  induction related with
  | nil => rfl
  | cons head _ induction => simp [head, induction]

theorem imp_of_mem (related : List.Forall₂ first values others)
    (step : ∀ value ∈ values, ∀ result ∈ others, first value result → other value result) :
    List.Forall₂ other values others := by
  induction related with
  | nil => exact .nil
  | cons head _ induction =>
      exact .cons (step _ mem_cons_self _ mem_cons_self head)
        (induction fun value member result resultMember =>
          step value (mem_cons_of_mem _ member) result (mem_cons_of_mem _ resultMember))

end Related

theorem exists_of_mem_forall₂ {α β : Type*} {Holds : α → β → Prop} {values : List α}
    {results : List β} (related : List.Forall₂ Holds values results) {result : β}
    (member : result ∈ results) : ∃ value ∈ values, Holds value result :=
  Related.exists_right related.flip member

end NftData
