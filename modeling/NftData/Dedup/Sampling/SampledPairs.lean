import NftData.Dedup.Sampling.Reservoirs

namespace NftData.Dedup

open Multiset

/-! # What the reservoirs of a sampler keep

Every reservoir keeps the least entries of the observed pairs of its part of the report, however
the observations were spread over workers. -/

def SampleScope.Admits (contractChains : ContractId → ChainId) (pair : ContractPair) :
    SampleScope → Prop
  | .allChains => True
  | .intraChain chain => contractChains pair.left = chain ∧ contractChains pair.right = chain
  | .chainPair chains => chains.1 < chains.2 ∧
      (contractChains pair.left = chains.1 ∧ contractChains pair.right = chains.2 ∨
        contractChains pair.right = chains.1 ∧ contractChains pair.left = chains.2)
  | .crossChainSummary chain => contractChains pair.left ≠ contractChains pair.right ∧
      (contractChains pair.left = chain ∨ contractChains pair.right = chain)

instance (contractChains : ContractId → ChainId) (pair : ContractPair) (scope : SampleScope) :
    Decidable (scope.Admits contractChains pair) :=
  match scope with
  | .allChains => inferInstanceAs (Decidable True)
  | .intraChain _ => inferInstanceAs (Decidable (_ ∧ _))
  | .chainPair _ => inferInstanceAs (Decidable (_ ∧ _))
  | .crossChainSummary _ => inferInstanceAs (Decidable (_ ∧ _))

def PairSamplingPlan.entry (sha256 : Sha256) (plan : PairSamplingPlan) (pair : ContractPair) :
    SampleEntry where
  priority := plan.randomness.score sha256 "contract-pair-priority" [pair.left, pair.right]
  pair := pair

def PairSamplingPlan.scopeEntry (sha256 : Sha256) (plan : PairSamplingPlan) (scope : SampleScope)
    (contracts : ContractId × ContractId) : Option SampleEntry :=
  match ContractPair.new contracts.1 contracts.2 with
  | some pair =>
      if scope.Admits plan.contractChains pair then some (plan.entry sha256 pair) else none
  | none => none

/-- The distinct entries of the observed pairs of a part of the report. -/
def PairSamplingPlan.scopeEntries (sha256 : Sha256) (plan : PairSamplingPlan)
    (scope : SampleScope) (observed : Multiset (ContractId × ContractId)) : Finset SampleEntry :=
  (observed.filterMap (plan.scopeEntry sha256 scope)).toFinset

variable {pair : ContractPair}

theorem ContractPair.new_spec {left right : ContractId}
    (isPair : ContractPair.new left right = some pair) :
    pair = ⟨left, right⟩ ∨ pair = ⟨right, left⟩ := by
  rw [ContractPair.new] at isPair
  split_ifs at isPair
  · exact .inl (Option.some.inj isPair).symm
  · exact .inr (Option.some.inj isPair).symm

namespace SampleScope

variable (contractChains : ContractId → ChainId) (left right : ContractId)

theorem admits_swap (scope : SampleScope) :
    scope.Admits contractChains ⟨right, left⟩ ↔ scope.Admits contractChains ⟨left, right⟩ := by
  cases scope with
  | allChains => exact Iff.rfl
  | intraChain chain => exact and_comm
  | chainPair chains => exact and_congr_right fun _ => or_comm
  | crossChainSummary chain => exact and_congr ne_comm or_comm

theorem admits_new {left right : ContractId} (isPair : ContractPair.new left right = some pair)
    (scope : SampleScope) :
    scope.Admits contractChains pair ↔ scope.Admits contractChains ⟨left, right⟩ := by
  rcases ContractPair.new_spec isPair with rfl | rfl
  · exact Iff.rfl
  · exact admits_swap contractChains left right scope

end SampleScope

namespace PairSampler

variable (sha256 : Sha256) (sampler : PairSampler) (left right : ContractId)

@[simp] theorem plan_observe : (sampler.observe sha256 left right).2.plan = sampler.plan := by
  rw [observe]
  split_ifs
  · rfl
  · cases ContractPair.new left right with
    | none => rfl
    | some pair =>
        simp only
        split_ifs <;> rfl

theorem chainPair_eq {leftChain rightChain : Nat} (different : leftChain ≠ rightChain)
    (chains : Nat × Nat) :
    chains = (if leftChain < rightChain then (leftChain, rightChain)
        else (rightChain, leftChain)) ↔
      chains.1 < chains.2 ∧ (leftChain = chains.1 ∧ rightChain = chains.2 ∨
        rightChain = chains.1 ∧ leftChain = chains.2) := by
  obtain ⟨first, second⟩ := chains
  split_ifs <;> simp only [Prod.mk.injEq] <;> omega

theorem observeAt_apply {Key : Type*} [DecidableEq Key] (reservoirs : Key → PairReservoir)
    (key other : Key) (entry : SampleEntry) (capacity : Nat) :
    observeAt reservoirs key entry capacity other =
      if other = key then ((reservoirs other).observe entry capacity).2 else reservoirs other := by
  rw [observeAt, Function.update_apply]
  split_ifs with same
  · rw [same]
  · rfl

theorem observeAt_both {Key : Type*} [DecidableEq Key] {first second : Key}
    (different : first ≠ second) (reservoirs : Key → PairReservoir) (other : Key)
    (entry : SampleEntry) (capacity : Nat) :
    observeAt (observeAt reservoirs first entry capacity) second entry capacity other =
      if first = other ∨ second = other then ((reservoirs other).observe entry capacity).2
      else reservoirs other := by
  rw [observeAt_apply, observeAt_apply]
  by_cases isSecond : other = second
  · have notFirst : other ≠ first := fun isFirst => different (isFirst.symm.trans isSecond)
    rw [if_pos isSecond, if_neg notFirst, if_pos (.inr isSecond.symm)]
  · have sides : (other = first) ↔ first = other ∨ second = other := by
      rw [or_iff_left (Ne.symm isSecond), eq_comm]
    rw [if_neg isSecond]
    exact if_congr sides rfl rfl

/-- Exactly the reservoirs of the parts that the pair belongs to observe it. -/
theorem reservoir_observe (enabled : sampler.plan.capacity ≠ 0) (scope : SampleScope) :
    (sampler.observe sha256 left right).2.reservoir scope =
      match sampler.plan.scopeEntry sha256 scope (left, right) with
      | some entry => ((sampler.reservoir scope).observe entry sampler.plan.capacity).2
      | none => sampler.reservoir scope := by
  rw [observe, PairSamplingPlan.scopeEntry, if_neg enabled]
  cases isPair : ContractPair.new left right with
  | none => rfl
  | some pair =>
      have admits := scope.admits_new sampler.plan.contractChains isPair
      simp only [admits]
      by_cases sameChain : sampler.plan.contractChains left = sampler.plan.contractChains right
      · rw [if_pos sameChain]
        cases scope with
        | allChains => rfl
        | intraChain chain =>
            simp only [reservoir, observeAt_apply, SampleScope.Admits, ← sameChain, and_self,
              eq_comm (a := chain)]
            split_ifs <;> rfl
        | chainPair chains =>
            have outside : ¬(SampleScope.chainPair chains).Admits sampler.plan.contractChains
                ⟨left, right⟩ := by
              rintro ⟨ordered, forward | backward⟩
              · exact ordered.ne (forward.1.symm.trans (sameChain.trans forward.2))
              · exact ordered.ne (backward.1.symm.trans (sameChain.symm.trans backward.2))
            rw [if_neg outside]
            rfl
        | crossChainSummary chain =>
            simp only [SampleScope.Admits, sameChain, ne_eq, not_true, false_and]
            rfl
      · rw [if_neg sameChain]
        cases scope with
        | allChains => rfl
        | intraChain chain =>
            have outside : ¬(SampleScope.intraChain chain).Admits sampler.plan.contractChains
                ⟨left, right⟩ := fun both => sameChain (both.1.trans both.2.symm)
            rw [if_neg outside]
            rfl
        | chainPair chains =>
            have chosen := chainPair_eq sameChain chains
            by_cases inside : (SampleScope.chainPair chains).Admits sampler.plan.contractChains
              ⟨left, right⟩
            · rw [if_pos inside]
              exact (observeAt_apply _ _ _ _ _).trans (if_pos (chosen.mpr inside))
            · rw [if_neg inside]
              exact (observeAt_apply _ _ _ _ _).trans (if_neg (mt chosen.mp inside))
        | crossChainSummary chain =>
            have summary : (SampleScope.crossChainSummary chain).Admits
                sampler.plan.contractChains ⟨left, right⟩ ↔ _ := and_iff_right sameChain
            by_cases inside : (SampleScope.crossChainSummary chain).Admits
              sampler.plan.contractChains ⟨left, right⟩
            · rw [if_pos inside]
              exact (observeAt_both sameChain _ _ _ _).trans (if_pos (summary.mp inside))
            · rw [if_neg inside]
              exact (observeAt_both sameChain _ _ _ _).trans (if_neg (mt summary.mpr inside))

@[simp] theorem plan_merge (entries : SampleScope → List SampleEntry) :
    (sampler.merge entries).plan = sampler.plan := rfl

theorem reservoir_merge (entries : SampleScope → List SampleEntry) (scope : SampleScope) :
    (sampler.merge entries).reservoir scope =
      (sampler.reservoir scope).merge (entries scope) sampler.plan.capacity := by
  cases scope <;> rfl

variable {sha256 sampler} {plan : PairSamplingPlan}
  {observed : Multiset (ContractId × ContractId)}

theorem Sampled.plan_eq (sampled : Sampled sha256 plan observed sampler) :
    sampler.plan = plan := by
  induction sampled with
  | fresh => rfl
  | observe left right _ same => rw [plan_observe, same]
  | merge entries _ _ _ same _ => rw [plan_merge, same]

theorem observe_of_disabled (disabled : sampler.plan.capacity = 0) :
    (sampler.observe sha256 left right).2 = sampler := by
  rw [observe, if_pos disabled]

/-- A sampler without capacity keeps nothing. -/
theorem Sampled.empty_of_disabled (sampled : Sampled sha256 plan observed sampler)
    (disabled : plan.capacity = 0) (scope : SampleScope) :
    sampler.reservoir scope = .empty := by
  induction sampled with
  | fresh => cases scope <;> rfl
  | observe left right before same =>
      rw [observe_of_disabled left right (before.plan_eq.symm ▸ disabled), same]
  | merge entries _ _ isOrder same otherSame =>
      have none : entries scope = [] := by
        have isOrder := isOrder scope
        rw [otherSame] at isOrder
        exact isOrder.eq_nil
      rw [reservoir_merge, none, same]
      rfl

theorem scopeEntries_cons (scope : SampleScope) (contracts : ContractId × ContractId) :
    plan.scopeEntries sha256 scope (contracts ::ₘ observed) =
      match plan.scopeEntry sha256 scope contracts with
      | some entry => insert entry (plan.scopeEntries sha256 scope observed)
      | none => plan.scopeEntries sha256 scope observed := by
  rw [PairSamplingPlan.scopeEntries, PairSamplingPlan.scopeEntries]
  cases found : plan.scopeEntry sha256 scope contracts with
  | none => rw [filterMap_cons_none _ _ found]
  | some entry => rw [filterMap_cons_some _ _ _ found, toFinset_cons]

theorem scopeEntries_add (scope : SampleScope)
    (observed other : Multiset (ContractId × ContractId)) :
    plan.scopeEntries sha256 scope (observed + other) =
      plan.scopeEntries sha256 scope observed ∪ plan.scopeEntries sha256 scope other := by
  rw [PairSamplingPlan.scopeEntries, filterMap_add, toFinset_add]
  rfl

theorem scored_of_scopeEntry {scope : SampleScope} {contracts : ContractId × ContractId}
    {entry : SampleEntry} (found : plan.scopeEntry sha256 scope contracts = some entry) :
    entry.priority = (plan.entry sha256 entry.pair).priority := by
  rw [PairSamplingPlan.scopeEntry] at found
  split at found
  · split_ifs at found
    exact Option.some.inj found ▸ rfl
  · exact nomatch found

theorem Sampled.holds (sampled : Sampled sha256 plan observed sampler)
    (enabled : plan.capacity ≠ 0) (scope : SampleScope) :
    (sampler.reservoir scope).Holds plan.capacity
      (fun pair => (plan.entry sha256 pair).priority)
      (plan.scopeEntries sha256 scope observed) := by
  induction sampled with
  | fresh => cases scope <;> exact .empty _ _
  | @observe observed sampler left right before induction =>
      rw [reservoir_observe sha256 sampler left right (before.plan_eq.symm ▸ enabled),
        scopeEntries_cons, before.plan_eq]
      cases found : plan.scopeEntry sha256 scope (left, right) with
      | none => exact induction
      | some entry => exact induction.observe enabled (scored_of_scopeEntry found)
  | @merge _ _ _ other entries before _ isOrder induction otherInduction =>
      rw [reservoir_merge, before.plan_eq, scopeEntries_add]
      exact induction.merge enabled otherInduction (isOrder scope)

/-- Each reservoir is the least entries of its part of the report. -/
theorem Sampled.reservoir_perm (sampled : Sampled sha256 plan observed sampler)
    (scope : SampleScope) :
    (sampler.reservoir scope).heap.Perm
      (leastValues plan.capacity (plan.scopeEntries sha256 scope observed)) ∧
    (sampler.reservoir scope).retained =
      ((sampler.reservoir scope).heap.map SampleEntry.pair).toFinset := by
  by_cases disabled : plan.capacity = 0
  · rw [sampled.empty_of_disabled disabled, leastValues, disabled, List.take_zero]
    exact ⟨List.Perm.nil, rfl⟩
  · have holds := sampled.holds disabled scope
    exact ⟨holds.least.perm_leastValues holds.distinct, holds.retained⟩

end PairSampler

end NftData.Dedup
