import Mathlib

namespace NftData

/-! # Machines

A machine is a state with a partial step for every event. What each step keeps holds of every
state that a history of events reaches. -/

section Machine

variable {State Event : Type*}

/-- The states that a history reaches whose events all meet a condition in the state in which
they occur. -/
inductive Reaches (step : State → Event → Option State) (Meets : State → Event → Prop)
    (start : State) : State → Prop
  | start : Reaches step Meets start start
  | step {state next : State} (event : Event) (before : Reaches step Meets start state)
      (meets : Meets state event) (taken : step state event = some next) :
      Reaches step Meets start next

variable {step : State → Event → Option State} {Meets : State → Event → Prop}
  {start state : State}

/-- What holds at the start and is kept by every step that meets the condition holds of every
reached state. -/
theorem Reaches.invariant (Invariant : State → Prop) (initially : Invariant start)
    (keeps : ∀ state event next, Invariant state → Meets state event →
      step state event = some next → Invariant next)
    (reached : Reaches step Meets start state) : Invariant state := by
  induction reached with
  | start => exact initially
  | step event before meets taken induction => exact keeps _ event _ induction meets taken

theorem Reaches.mono {MeetsAlso : State → Event → Prop}
    (weaker : ∀ state event, Meets state event → MeetsAlso state event)
    (reached : Reaches step Meets start state) : Reaches step MeetsAlso start state := by
  induction reached with
  | start => exact .start
  | step event before meets taken induction =>
      exact .step event induction (weaker _ _ meets) taken

variable {final : State}

theorem Reaches.of_foldlM (events : List Event)
    (meets : ∀ state event, event ∈ events → Meets state event)
    (before : Reaches step Meets start state) (ran : events.foldlM step state = some final) :
    Reaches step Meets start final := by
  induction events generalizing state with
  | nil =>
      cases ran
      exact before
  | cons event events induction =>
      rw [List.foldlM_cons] at ran
      rcases Option.bind_eq_some_iff.mp ran with ⟨next, taken, rest⟩
      apply induction _ _ rest
      · exact fun state other inside => meets state other (List.mem_cons_of_mem _ inside)
      · exact .step event before (meets state event List.mem_cons_self) taken

def AllMeet (step : State → Event → Option State) (Meets : State → Event → Prop) :
    State → List Event → Prop
  | _, [] => True
  | state, event :: events =>
      Meets state event ∧ ∀ next, step state event = some next → AllMeet step Meets next events

theorem AllMeet.cons {event : Event} {next : State} {events : List Event}
    (meets : Meets state event) (taken : step state event = some next)
    (rest : AllMeet step Meets next events) : AllMeet step Meets state (event :: events) := by
  refine ⟨meets, fun other isOther => ?_⟩
  rw [taken] at isOther
  exact Option.some.inj isOther ▸ rest

theorem Reaches.of_allMeet (events : List Event) (meets : AllMeet step Meets state events)
    (before : Reaches step Meets start state) (ran : events.foldlM step state = some final) :
    Reaches step Meets start final := by
  induction events generalizing state with
  | nil =>
      cases ran
      exact before
  | cons event events induction =>
      rw [List.foldlM_cons] at ran
      rcases Option.bind_eq_some_iff.mp ran with ⟨next, taken, rest⟩
      exact induction (meets.2 next taken) (.step event before meets.1 taken) rest

end Machine

end NftData
