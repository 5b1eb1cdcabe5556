import Mathlib

namespace NftData

open Option

/-! # Simulation of fallible computations

A program step that returns a value or an error is compared with an abstract
step that returns a value or nothing: both succeed together, and then their
results are related. -/

open List

/-- Both computations succeed with related results, or both fail. -/
def Simulates {ε σ τ : Type*} (Related : σ → τ → Prop) :
    Except ε σ → Option τ → Prop
  | .ok concrete, some abstract => Related concrete abstract
  | .error _, none => True
  | _, _ => False

namespace Simulates

variable {ε σ τ σ' τ' : Type} {Related : σ → τ → Prop} {Related' : σ' → τ' → Prop} {concrete :
  Except ε σ} {abstract : Option τ}

theorem ok_iff (simulates : Simulates Related concrete abstract) :
    (∃ value, concrete = .ok value) ↔ ∃ value, abstract = some value := by
  cases concrete <;> cases abstract <;> simp_all [Simulates]

theorem related (simulates : Simulates Related concrete abstract) {value : σ}
    (ok : concrete = .ok value) :
    ∃ image, abstract = some image ∧ Related value image := by
  subst ok
  cases abstract with
  | none => exact simulates.elim
  | some image => exact ⟨image, rfl, simulates⟩

theorem bind {concreteNext : σ → Except ε σ'} {abstractNext : τ → Option τ'}
    (first : Simulates Related concrete abstract)
    (next : ∀ value image, concrete = .ok value → abstract = some image →
      Related value image →
      Simulates Related' (concreteNext value) (abstractNext image)) :
    Simulates Related' (concrete >>= concreteNext) (abstract.bind abstractNext) := by
  cases concrete with
  | error error =>
      cases abstract with
      | none => exact trivial
      | some image => exact first.elim
  | ok value =>
      cases abstract with
      | none => exact first.elim
      | some image => exact next value image rfl rfl first

theorem weaken {Weaker : σ → τ → Prop} (simulates : Simulates Related concrete abstract)
    (implies : ∀ value image, concrete = .ok value → Related value image →
      Weaker value image) :
    Simulates Weaker concrete abstract := by
  cases concrete with
  | error error => cases abstract <;> exact simulates
  | ok value =>
      cases abstract with
      | none => exact simulates
      | some image => exact implies value image rfl simulates

theorem filter {fits : τ → Bool} (passes : ∀ value image, Related value image → fits image = true)
    (simulates : Simulates Related concrete abstract) :
    Simulates Related concrete (abstract.filter fits) := by
  cases concrete with
  | error error =>
      cases abstract with
      | none => exact trivial
      | some image => exact simulates.elim
  | ok value =>
      cases abstract with
      | none => exact simulates.elim
      | some image =>
          rw [filter_some, if_pos (passes value image simulates)]
          exact simulates

theorem thenOk {concreteNext : σ → Except ε σ'} {Final : σ' → τ → Prop}
    (first : Simulates Related concrete abstract)
    (next : ∀ value image, concrete = .ok value → Related value image →
      ∃ final, concreteNext value = .ok final ∧ Final final image) :
    Simulates Final (concrete >>= concreteNext) abstract := by
  cases concrete with
  | error error => cases abstract <;> exact first
  | ok value =>
      cases abstract with
      | none => exact first.elim
      | some image =>
          rcases next value image rfl first with ⟨final, ok, related⟩
          change Simulates Final (concreteNext value) (some image)
          rw [ok]
          exact related

theorem foldlM {α β : Type} {RelatedInput : α → β → Prop}
    {step : σ → α → Except ε σ} {abstractStep : τ → β → Option τ}
    (steps : ∀ state table value image, Related state table → RelatedInput value image →
      Simulates Related (step state value) (abstractStep table image)) :
    ∀ {values : List α} {images : List β} {state : σ} {table : τ},
      Related state table → List.Forall₂ RelatedInput values images →
      Simulates Related (values.foldlM step state) (images.foldlM abstractStep table) := by
  intro values images state table holds inputs
  induction inputs generalizing state table with
  | nil => exact holds
  | cons headRelated _ induction =>
      rw [foldlM_cons, foldlM_cons]
      apply (steps _ _ _ _ holds headRelated).bind
      intro next nextTable _ _ nextRelated
      exact induction nextRelated

end Simulates

/-- Two fallible programs succeed with related results, or both fail. -/
def LockStep {ε δ σ τ : Type*} (Related : σ → τ → Prop) : Except ε σ → Except δ τ → Prop
  | .ok first, .ok second => Related first second
  | .error _, .error _ => True
  | _, _ => False

namespace LockStep

variable {ε δ σ τ σ' τ' : Type} {Related : σ → τ → Prop} {Related' : σ' → τ' → Prop} {second :
  Except δ τ} {first : Except ε σ}

theorem bind {firstNext : σ → Except ε σ'} {secondNext : τ → Except δ τ'}
    (step : LockStep Related first second)
    (next : ∀ value image, first = .ok value → second = .ok image → Related value image →
      LockStep Related' (firstNext value) (secondNext image)) :
    LockStep Related' (first >>= firstNext) (second >>= secondNext) := by
  cases first with
  | error error =>
      cases second with
      | error other => exact trivial
      | ok image => exact step.elim
  | ok value =>
      cases second with
      | error other => exact step.elim
      | ok image => exact next value image rfl rfl step

theorem weaken {Weaker : σ → τ → Prop} (step : LockStep Related first second)
    (implies : ∀ value image, first = .ok value → second = .ok image → Related value image →
      Weaker value image) : LockStep Weaker first second := by
  cases first with
  | error error => cases second <;> exact step
  | ok value =>
      cases second with
      | error other => exact step
      | ok image => exact implies value image rfl rfl step

theorem foldlM {α β : Type} {RelatedInput : α → β → Prop} {step : σ → α → Except ε σ}
    {otherStep : τ → β → Except δ τ}
    (steps : ∀ state other value image, Related state other → RelatedInput value image →
      LockStep Related (step state value) (otherStep other image)) :
    ∀ {values : List α} {images : List β} {state : σ} {other : τ},
      Related state other → List.Forall₂ RelatedInput values images →
      LockStep Related (values.foldlM step state) (images.foldlM otherStep other) := by
  intro values images state other holds inputs
  induction inputs generalizing state other with
  | nil => exact holds
  | cons headRelated _ induction =>
      rw [foldlM_cons, foldlM_cons]
      apply (steps _ _ _ _ holds headRelated).bind
      intro next nextOther _ _ nextRelated
      exact induction nextRelated

theorem of_second_ok {image : τ} (step : LockStep Related first second) (ok : second = .ok image) :
    ∃ value, first = .ok value ∧ Related value image := by
  subst ok
  cases first with
  | error error => exact step.elim
  | ok value => exact ⟨value, rfl, step⟩

theorem simulates {α : Type} {Abstract : τ → α → Prop} {abstract : Option α}
    (step : LockStep Related first second) (simulation : Simulates Abstract second abstract) :
    Simulates (fun value image => ∃ middle, second = .ok middle ∧ Related value middle ∧
      Abstract middle image) first abstract := by
  cases first with
  | error error =>
      cases second with
      | error other => cases abstract <;> exact simulation
      | ok middle => exact step.elim
  | ok value =>
      cases second with
      | error other => exact step.elim
      | ok middle =>
          cases abstract with
          | none => exact simulation
          | some image => exact ⟨middle, rfl, step, simulation⟩

end LockStep

/-- A check on every intermediate result is the check on the last one when a
failed check can never be repaired. -/
theorem foldlM_filter {τ β : Type} (fits : τ → Bool) (step : τ → β → Option τ)
    (shrinks : ∀ table input next, step table input = some next →
      fits next = true → fits table = true) :
    ∀ (inputs : List β) (table : τ), fits table = true →
      inputs.foldlM (fun table input => (step table input).filter fits) table =
        (inputs.foldlM step table).filter fits := by
  have unrepaired : ∀ (inputs : List β) (table : τ), fits table = false →
      (inputs.foldlM step table).filter fits = none := by
    intro inputs
    induction inputs with
    | nil =>
        intro table bad
        change (some table).filter fits = none
        rw [filter_some, bad]
        rfl
    | cons head tail induction =>
        intro table bad
        rw [foldlM_cons]
        cases stepped : step table head with
        | none => rfl
        | some next =>
            apply induction next
            by_contra good
            have := shrinks table head next stepped (by simpa using good)
            simp [bad] at this
  intro inputs
  induction inputs with
  | nil =>
      intro table good
      change some table = (some table).filter fits
      rw [filter_some, if_pos good]
  | cons head tail induction =>
      intro table good
      rw [foldlM_cons, foldlM_cons]
      cases stepped : step table head with
      | none => rfl
      | some next =>
          cases nextFits : fits next with
          | true =>
              rw [filter_some, if_pos nextFits]
              exact induction next nextFits
          | false =>
              rw [filter_some, nextFits]
              exact (unrepaired tail next nextFits).symm

/-- A fold computes a function of what it has read, at every moment, exactly when each
of its steps meets the condition under which one step does. -/
theorem foldl_eq_iff {State α : Type*} {step : State → α → State} {start : State}
    {result : List α → State} {Meets : State → α → Prop} (values : List α)
    (initially : result [] = start)
    (follows : ∀ read value, read ++ [value] <+: values →
      (step (result read) value = result (read ++ [value]) ↔ Meets (result read) value)) :
    (∀ read, read <+: values → read.foldl step start = result read) ↔
      ∀ read value, read ++ [value] <+: values → Meets (read.foldl step start) value := by
  constructor
  · intro equal read value isPrefix
    have before := equal read ((prefix_append _ _).trans isPrefix)
    have after := equal (read ++ [value]) isPrefix
    rw [List.foldl_append, before] at after
    rw [before]
    exact (follows read value isPrefix).mp after
  · intro meets read
    induction read using List.reverseRecOn with
    | nil =>
        intro _
        exact initially.symm
    | append_singleton read value induction =>
        intro isPrefix
        have before := induction ((prefix_append _ _).trans isPrefix)
        have met := meets read value isPrefix
        rw [before] at met
        rw [List.foldl_append, before]
        exact (follows read value isPrefix).mpr met

end NftData
