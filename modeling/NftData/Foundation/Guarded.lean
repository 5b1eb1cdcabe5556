import NftData.Foundation.Outcome
import NftData.Foundation.Related

namespace NftData

/-! # Operations that avoid one error

A panic is one of the errors of a fallible operation. An operation is guarded against
it when its failures are other errors; its rules follow the structure of the program. -/

open List

/-- A success satisfies the postcondition, and a failure is not the panic. -/
def Guarded {ε α : Type*} (panic : ε) (Post : α → Prop) : Except ε α → Prop
  | .ok value => Post value
  | .error error => error ≠ panic

namespace Guarded

variable {ε : Type} {panic : ε} {α β State : Type} {action : Except ε α} {Post : α → Prop}

section

variable (guarded : Guarded panic Post action)
include guarded

theorem weaken {Weaker : α → Prop} (implies : ∀ value, Post value → Weaker value) :
    Guarded panic Weaker action := by
  cases action with
  | error failure => exact guarded
  | ok value => exact implies value guarded

theorem holds {value : α} (succeeded : action = .ok value) :
    Post value := by
  subst succeeded
  exact guarded

theorem not_panic : action ≠ .error panic := by
  intro panics
  rw [panics] at guarded
  exact guarded rfl

theorem bind {Next : β → Prop} {next : α → Except ε β}
    (continues : ∀ value, action = .ok value → Post value → Guarded panic Next (next value)) :
    Guarded panic Next (action >>= next) := by
  cases action with
  | error failure => exact guarded
  | ok value => exact continues value rfl guarded

end

variable {values : List α}

theorem mapM {Post : α → β → Prop} {operation : α → Except ε β}
    (guarded : ∀ value ∈ values, Guarded panic (Post value) (operation value)) :
    Guarded panic (List.Forall₂ Post values) (values.mapM operation) := by
  induction values with
  | nil => exact List.Forall₂.nil
  | cons head tail induction =>
      rw [mapM_cons]
      apply (guarded head mem_cons_self).bind
      intro first _ firstHolds
      apply (induction fun value member => guarded value (mem_cons_of_mem _ member)).bind
      intro rest _ restHolds
      exact List.Forall₂.cons firstHolds restHolds

/-- A loop whose steps keep an invariant. -/
theorem foldlM {Invariant : State → Prop} {step : State → α → Except ε State}
    (keeps : ∀ state, ∀ value ∈ values, Invariant state →
      Guarded panic Invariant (step state value)) {start : State} (initially : Invariant start) :
    Guarded panic Invariant (values.foldlM step start) := by
  induction values generalizing start with
  | nil => exact initially
  | cons head tail induction =>
      rw [foldlM_cons]
      apply (keeps start head mem_cons_self initially).bind
      intro next _ nextHolds
      exact induction (fun state value member =>
        keeps state value (mem_cons_of_mem _ member)) nextHolds

end Guarded

theorem mapM_succeeds_iff {ε α β : Type} {operation : α → Except ε β} {values : List α} :
    (∃ results, values.mapM operation = .ok results) ↔
      ∀ value ∈ values, ∃ result, operation value = .ok result := by
  induction values with
  | nil => exact ⟨fun _ => by simp, fun _ => ⟨[], rfl⟩⟩
  | cons head tail induction =>
      rw [mapM_cons, forall_mem_cons, ← induction]
      cases headOk : operation head with
      | error failure =>
          constructor
          · rintro ⟨results, ok⟩
            cases ok
          · rintro ⟨⟨result, ok⟩, _⟩
            cases ok
      | ok first =>
          cases tailOk : tail.mapM operation with
          | error failure =>
              constructor
              · rintro ⟨results, ok⟩
                cases ok
              · rintro ⟨_, ⟨results, ok⟩⟩
                cases ok
          | ok rest => exact ⟨fun _ => ⟨⟨first, rfl⟩, ⟨rest, rfl⟩⟩, fun _ => ⟨_, rfl⟩⟩

theorem forall₂_of_mapM {ε α β : Type} {operation : α → Except ε β} {values : List α}
    {results : List β} (ok : values.mapM operation = .ok results) :
    List.Forall₂ (fun value result => operation value = .ok result) values results := by
  induction values generalizing results with
  | nil =>
      cases ok
      exact .nil
  | cons head tail induction =>
      rw [mapM_cons] at ok
      rcases bind_eq_ok ok with ⟨first, headOk, rest⟩
      rcases bind_eq_ok rest with ⟨others, tailOk, isResults⟩
      cases isResults
      exact .cons headOk (induction tailOk)

theorem mapM_failure {ε α β : Type} {operation : α → Except ε β} {values : List α}
    {failure : ε} (failed : values.mapM operation = .error failure) :
    ∃ value ∈ values, operation value = .error failure := by
  induction values with
  | nil => cases failed
  | cons head tail induction =>
      rw [mapM_cons] at failed
      rcases error_cases failed with headFailed | ⟨first, _, restFailed⟩
      · exact ⟨head, mem_cons_self, headFailed⟩
      · rcases error_cases restFailed with tailFailed | ⟨rest, _, impossible⟩
        · rcases induction tailFailed with ⟨value, member, fails⟩
          exact ⟨value, mem_cons_of_mem _ member, fails⟩
        · cases impossible

/-- An operation whose only failure is the panic panics on a list with an element it
fails on. -/
theorem mapM_panics {ε α β : Type} {panic : ε} {operation : α → Except ε β} {values : List α}
    (onlyPanics : ∀ value failure, operation value = .error failure → failure = panic)
    {failing : α} (member : failing ∈ values) (fails : operation failing = .error panic) :
    values.mapM operation = .error panic := by
  induction values with
  | nil => cases member
  | cons head tail induction =>
      rw [mapM_cons]
      cases headResult : operation head with
      | error failure => exact congrArg Except.error (onlyPanics head failure headResult)
      | ok first =>
          have inTail : failing ∈ tail := by
            apply (mem_cons.mp member).resolve_left
            intro isHead
            rw [isHead, headResult] at fails
            cases fails
          rw [induction inTail]
          rfl

theorem bind_succeeds_iff {ε α β : Type} {action : Except ε α} {next : α → Except ε β} :
    (∃ result, action >>= next = .ok result) ↔
      ∃ value, action = .ok value ∧ ∃ result, next value = .ok result := by
  cases action with
  | error failure =>
      constructor
      · rintro ⟨result, ok⟩
        cases ok
      · rintro ⟨value, ok, _⟩
        cases ok
  | ok value =>
      constructor
      · rintro ⟨result, ok⟩
        exact ⟨value, rfl, result, ok⟩
      · rintro ⟨same, equal, result, ok⟩
        cases equal
        exact ⟨result, ok⟩

end NftData
