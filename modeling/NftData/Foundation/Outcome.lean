import Mathlib

namespace NftData

/-! # Outcomes

A fallible operation is an `Except` value. These rules take a sequence of operations
apart at its first step. -/

universe u

@[simp] theorem ok_bind {ε : Type*} {α β : Type u} (value : α) (next : α → Except ε β) :
    (Except.ok value >>= next) = next value := rfl

theorem bind_eq_ok {ε α β : Type*} {action : Except ε α} {next : α → Except ε β}
    {result : β} (ok : action.bind next = .ok result) :
    ∃ value, action = .ok value ∧ next value = .ok result := by
  cases action with
  | error error => cases ok
  | ok value => exact ⟨value, rfl, ok⟩

theorem error_cases {ε α β : Type*} {action : Except ε α} {next : α → Except ε β} {error : ε}
    (failed : action.bind next = .error error) :
    action = .error error ∨ ∃ value, action = .ok value ∧ next value = .error error := by
  cases action with
  | error inner => exact .inl (congrArg Except.error (Except.error.inj failed))
  | ok value => exact .inr ⟨value, rfl, failed⟩

theorem mapM_eq_ok {ε α β : Type} {operation : α → Except ε β} {result : α → β}
    {values : List α} (each : ∀ value ∈ values, operation value = .ok (result value)) :
    values.mapM operation = .ok (values.map result) := by
  induction values with
  | nil => rfl
  | cons head tail induction =>
      rw [List.mapM_cons, each head List.mem_cons_self,
        induction fun value member => each value (List.mem_cons_of_mem _ member)]
      rfl

/-- A fold whose steps all succeed on the way keeps what every step keeps. -/
theorem foldlM_induction {ε State α : Type*} {step : State → α → Except ε State}
    (Invariant : State → Prop)
    (keeps : ∀ state value next, Invariant state → step state value = .ok next →
      Invariant next) (values : List α) :
    ∀ {start final : State}, Invariant start → values.foldlM step start = .ok final →
      Invariant final := by
  induction values with
  | nil =>
      intro start final holds ok
      cases ok
      exact holds
  | cons head tail induction =>
      intro start final holds ok
      rw [List.foldlM_cons] at ok
      rcases bind_eq_ok ok with ⟨next, stepOk, rest⟩
      exact induction (keeps start head next holds stepOk) rest

end NftData
