import NftData.Dedup.Metadata.SamplerRounds

namespace NftData.Dedup

/-! # Termination of the sampling rounds

A redistribution that moves a target resets the count of stagnant rounds. The rounds
therefore end only if some redistribution leaves nothing to hand on, and a deficit that
no bucket can absorb travels for ever. -/

open List
open FastSampleCollector (largestShare)

variable {supply : SampleSupply}

def NextRound (supply : SampleSupply) (loop next : SampleLoop) : Prop :=
  ∃ order : PermutationOrder, order.IsPermutation ∧
    sampleRound supply order loop = .next next

def LastRound (supply : SampleSupply) (loop : SampleLoop)
    (collector : FastSampleCollector) : Prop :=
  ∃ order : PermutationOrder, order.IsPermutation ∧
    sampleRound supply order loop = .stopped collector

/-- There is no infinite sequence of rounds. -/
def Terminates (supply : SampleSupply) (loop : SampleLoop) : Prop :=
  Acc (fun next loop => NextRound supply loop next) loop

def SampleLoop.start (collector : FastSampleCollector) : SampleLoop where
  collector := collector
  round := 0
  stagnantMaxRounds := 0

/-- The buckets whose supply does not reach their target. -/
def shortBuckets (supply : SampleSupply) (targets : BucketTargets) :
    List FastSampleBucket :=
  targets.buckets.filter fun bucket =>
    decide (successes (supply bucket) < targets.target bucket)

def suppliedIn (supply : SampleSupply) (targets : BucketTargets)
    (pool : MetadataSamplePool) : List FastSampleBucket :=
  targets.buckets.filter fun bucket =>
    decide (bucket.pool = pool) && !decide (bucket ∈ shortBuckets supply targets)

def largestGain (supply : SampleSupply) (targets : BucketTargets)
    (bucket : FastSampleBucket) : Nat :=
  (((shortBuckets supply targets).filter fun other => other.pool = bucket.pool).map
    fun other => largestShare (targets.target other - successes (supply other))
      (suppliedIn supply targets bucket.pool).length).sum

/-- Every bucket that reaches its target has spare candidates for the most it can get of
the deficits of its pool. -/
def Absorbing (supply : SampleSupply) (targets : BucketTargets) : Prop :=
  ∀ bucket ∈ targets.buckets, targets.target bucket ≤ successes (supply bucket) →
    targets.target bucket + largestGain supply targets bucket ≤ successes (supply bucket)

instance (targets : BucketTargets) : Decidable (Absorbing supply targets) :=
  inferInstanceAs (Decidable (∀ bucket ∈ targets.buckets, _ → _))

/-- Every pool is either short in all its buckets or in none. -/
def Quiet (supply : SampleSupply) (targets : BucketTargets) : Prop :=
  ∀ bucket ∈ shortBuckets supply targets, suppliedIn supply targets bucket.pool = []

variable {targets : BucketTargets} {bucket : FastSampleBucket}

theorem mem_shortBuckets :
    bucket ∈ shortBuckets supply targets ↔
      bucket ∈ targets.buckets ∧ successes (supply bucket) < targets.target bucket := by
  rw [shortBuckets, mem_filter, decide_eq_true_eq]

theorem mem_suppliedIn {pool : MetadataSamplePool} :
    bucket ∈ suppliedIn supply targets pool ↔
      bucket ∈ targets.buckets ∧ bucket.pool = pool ∧
        targets.target bucket ≤ successes (supply bucket) := by
  rw [suppliedIn, mem_filter, Bool.and_eq_true, decide_eq_true_eq,
    Bool.not_eq_true', decide_eq_false_iff_not, mem_shortBuckets]
  constructor
  · intro filtered
    exact ⟨filtered.1, filtered.2.1,
      not_lt.mp fun short => filtered.2.2 ⟨filtered.1, short⟩⟩
  · intro supplied
    exact ⟨supplied.1, supplied.2.1, fun short => absurd short.2 (not_lt.mpr supplied.2.2)⟩

theorem largestShare_positive {deficit : Nat} (recipients : Nat) (positive : 0 < deficit) :
    0 < largestShare deficit recipients := by
  rw [largestShare]
  by_cases even : deficit % recipients = 0
  · have divides := Nat.div_add_mod deficit recipients
    have quotient : deficit / recipients ≠ 0 := by
      intro zero
      rw [zero, even] at divides
      omega
    rw [if_pos even]
    exact Nat.pos_of_ne_zero quotient
  · rw [if_neg even]
    exact Nat.succ_pos _

theorem not_absorbing_of_exhausted {short full : FastSampleBucket}
    (isShort : short ∈ shortBuckets supply targets) (member : full ∈ targets.buckets)
    (samePool : short.pool = full.pool) (exhausted : targets.target full = successes (supply full))
    :
    ¬ Absorbing supply targets := by
  intro absorbing
  have spare := absorbing full member exhausted.le
  have deficit := (mem_shortBuckets.mp isShort).2
  have gain : largestShare (targets.target short - successes (supply short))
      (suppliedIn supply targets full.pool).length ≤ largestGain supply targets full :=
    single_le_sum (fun _ _ => Nat.zero_le _) _
      (mem_map.mpr ⟨short, mem_filter.mpr ⟨isShort, by simpa using samePool⟩, rfl⟩)
  have positive := largestShare_positive (suppliedIn supply targets full.pool).length
    (Nat.sub_pos_of_lt deficit)
  omega

theorem overloaded_of_not_absorbing (overloaded : ¬ Absorbing supply targets) :
    ∃ bucket ∈ targets.buckets, targets.target bucket ≤ successes (supply bucket) ∧
      successes (supply bucket) < targets.target bucket + largestGain supply targets bucket ∧
      ∃ short ∈ shortBuckets supply targets, short.pool = bucket.pool := by
  simp only [Absorbing, not_forall, not_le] at overloaded
  rcases overloaded with ⟨bucket, member, full, scarce⟩
  refine ⟨bucket, member, full, scarce, ?_⟩
  by_contra nobody
  have none : (shortBuckets supply targets).filter
      (fun other => other.pool = bucket.pool) = [] := by
    rw [filter_eq_nil_iff]
    intro other isShort samePool
    exact nobody ⟨other, isShort, of_decide_eq_true samePool⟩
  rw [largestGain, none] at scarce
  exact absurd full (not_le.mpr scarce)

/-- An order that visits a position first wherever it can. -/
def PermutationOrder.front (position : Nat) : PermutationOrder := fun _ length =>
  if position < length then position :: (List.range length).erase position
  else List.range length

theorem PermutationOrder.front_isPermutation (position : Nat) :
    (PermutationOrder.front position).IsPermutation := by
  intro salt length
  rw [front]
  by_cases inside : position < length
  · rw [if_pos inside]
    exact (perm_cons_erase (mem_range.mpr inside)).symm
  · rw [if_neg inside]

theorem PermutationOrder.front_favours (position : Nat) :
    (PermutationOrder.front position).Favours position := by
  intro salt length inside
  rw [front, if_pos inside]
  rfl

/-! ## One redistribution -/

variable {order : PermutationOrder}

namespace FastSampleCollector

section AllFilled

variable {collector : FastSampleCollector}

section

variable (allFilled : AllFilled supply collector)
include allFilled

theorem AllFilled.accepted_short (isShort : bucket ∈ shortBuckets supply collector.bucketTargets) :
    collector.accepted bucket = successes (supply bucket) := by
  have short := mem_shortBuckets.mp isShort
  rw [(allFilled.filled bucket short.1).accepted]
  exact min_eq_right short.2.le

theorem AllFilled.incompleteBuckets :
    collector.incompleteBuckets = shortBuckets supply collector.bucketTargets := by
  apply filter_congr
  intro bucket member
  rw [bucketIsFull, (allFilled.filled bucket member).accepted, ← decide_not, decide_eq_decide]
  change ¬ collector.target bucket ≤ _ ↔ _ < collector.target bucket
  omega

theorem AllFilled.fullIn (pool : MetadataSamplePool) :
    collector.fullIn collector.incompleteBuckets pool =
      suppliedIn supply collector.bucketTargets pool := by
  rw [allFilled.incompleteBuckets]
  rfl

theorem AllFilled.received (bucket : FastSampleBucket) :
    collector.received collector.incompleteBuckets collector.incompleteBuckets bucket =
      largestGain supply collector.bucketTargets bucket := by
  rw [FastSampleCollector.received, allFilled.fullIn, allFilled.incompleteBuckets, largestGain]
  congr 1
  apply map_congr_left
  intro other member
  rw [allFilled.accepted_short (mem_filter.mp member).1]
  rfl

theorem AllFilled.not_complete (isShort : bucket ∈ shortBuckets supply collector.bucketTargets) :
    collector.complete = false := by
  rw [complete, all_eq_false]
  refine ⟨_, target_mem_bucketTargets (mem_shortBuckets.mp isShort).1, ?_⟩
  rw [decide_eq_true_eq, allFilled.accepted_short isShort]
  exact not_le.mpr (mem_shortBuckets.mp isShort).2

end

theorem Supplied.redistribute (isOrder : order.IsPermutation) (supplied : Supplied supply collector)
    :
    Supplied supply (collector.redistribute order).2 := by
  rcases redistribute_spec isOrder supplied.distinct supplied.notPending with
    ⟨moved, next, equal, _, redistributed⟩
  rcases redistributed.frame with ⟨targets, ordinal, nextEqual⟩
  have sameAccepted : ∀ bucket, next.accepted bucket = collector.accepted bucket := by
    intro bucket
    rw [nextEqual]
    rfl
  rw [equal]
  constructor
  case distinct => exact redistributed.buckets.symm ▸ supplied.distinct
  case settled => rw [nextEqual]; exact supplied.settled
  case notViable => rw [nextEqual]; exact supplied.notViable
  case notPending => rw [nextEqual]; exact supplied.notPending
  case withinTarget =>
    intro bucket member
    rw [sameAccepted]
    have known : bucket ∈ collector.bucketTargets.buckets := redistributed.buckets ▸ member
    have within := supplied.withinTarget bucket known
    by_cases isIncomplete : bucket ∈ collector.incompleteBuckets
    · by_cases nobody : collector.fullIn collector.incompleteBuckets bucket.pool = []
      · rw [redistributed.kept bucket isIncomplete (.inr nobody)]
        exact within
      · rw [redistributed.lowered bucket isIncomplete nobody]
    · exact within.trans (redistributed.grown bucket known isIncomplete).1
  case reserve =>
    rw [nextEqual]
    exact supplied.reserve

theorem redistribute_unmoved (order : PermutationOrder)
    (nobody : ∀ bucket ∈ collector.incompleteBuckets,
      collector.fullIn collector.incompleteBuckets bucket.pool = []) :
    collector.redistribute order = (false, collector) := by
  have step : ∀ bucket ∈ collector.incompleteBuckets,
      redistributeStep order collector.incompleteBuckets (false, collector) bucket =
        (false, collector) := by
    intro bucket member
    rw [redistributeStep, recipientsOf_eq member, nobody bucket member]
    rfl
  rw [FastSampleCollector.redistribute]
  generalize collector.incompleteBuckets = incomplete at step ⊢
  suffices folded : ∀ short : List FastSampleBucket, (∀ bucket ∈ short, bucket ∈ incomplete) →
      short.foldl (redistributeStep order incomplete) (false, collector) =
        (false, collector) from folded incomplete fun _ inside => inside
  intro short
  induction short with
  | nil => exact fun _ => rfl
  | cons bucket short induction =>
      intro subset
      rw [foldl_cons, step bucket (subset bucket mem_cons_self)]
      exact induction fun other inside => subset other (mem_cons_of_mem _ inside)

theorem AllFilled.quiet_redistribute (isOrder : order.IsPermutation)
    (allFilled : AllFilled supply collector) (absorbing : Absorbing supply collector.bucketTargets)
    :
    Quiet supply (collector.redistribute order).2.bucketTargets := by
  rcases redistribute_spec isOrder allFilled.supplied.distinct allFilled.supplied.notPending with
    ⟨moved, next, equal, _, redistributed⟩
  rw [equal]
  have kept : ∀ bucket ∈ collector.bucketTargets.buckets,
      suppliedIn supply collector.bucketTargets bucket.pool ≠ [] →
      next.target bucket ≤ successes (supply bucket) := by
    intro bucket member someone
    by_cases isShort : bucket ∈ shortBuckets supply collector.bucketTargets
    · rw [← allFilled.accepted_short isShort, redistributed.lowered bucket
        (allFilled.incompleteBuckets ▸ isShort) (allFilled.fullIn _ ▸ someone)]
    · have full : collector.target bucket ≤ successes (supply bucket) :=
        not_lt.mp fun short => isShort (mem_shortBuckets.mpr ⟨member, short⟩)
      have bounds := redistributed.grown bucket member
        (allFilled.incompleteBuckets ▸ isShort)
      rw [allFilled.received] at bounds
      exact bounds.2.trans (absorbing bucket member full)
  intro bucket isShort
  rw [mem_shortBuckets, redistributed.buckets] at isShort
  have nobody : suppliedIn supply collector.bucketTargets bucket.pool = [] := by
    by_contra someone
    exact absurd isShort.2 (not_lt.mpr (kept bucket isShort.1 someone))
  rw [eq_nil_iff_forall_not_mem]
  intro other inside
  rw [mem_suppliedIn, redistributed.buckets] at inside
  have otherShort : other ∈ shortBuckets supply collector.bucketTargets := by
    by_contra notShort
    have full : collector.target other ≤ successes (supply other) :=
      not_lt.mp fun short => notShort (mem_shortBuckets.mpr ⟨inside.1, short⟩)
    have := mem_suppliedIn.mpr ⟨inside.1, inside.2.1, full⟩
    rw [nobody] at this
    cases this
  have sameTarget := redistributed.kept other (allFilled.incompleteBuckets ▸ otherShort)
    (.inr (by rw [allFilled.fullIn, inside.2.1, nobody]))
  have stillShort := (mem_shortBuckets.mp otherShort).2
  have reached : next.target other ≤ successes (supply other) := inside.2.2
  rw [sameTarget] at reached
  exact absurd stillShort (not_lt.mpr reached)

/-- If some full bucket cannot absorb what it may get, an order that favours it leaves
it short next to a bucket that has nothing to spare. -/
theorem AllFilled.overloaded_redistribute (allFilled : AllFilled supply collector)
    (overloaded : ¬ Absorbing supply collector.bucketTargets) :
    ∃ order : PermutationOrder, order.IsPermutation ∧
      (collector.redistribute order).1 = true ∧
      ¬ Absorbing supply (collector.redistribute order).2.bucketTargets := by
  rcases overloaded_of_not_absorbing overloaded with
    ⟨bucket, member, full, scarce, short, isShort, samePool⟩
  have inPool : bucket ∈ suppliedIn supply collector.bucketTargets bucket.pool :=
    mem_suppliedIn.mpr ⟨member, rfl, full⟩
  rcases List.getElem?_of_mem inPool with ⟨position, found⟩
  have isOrder := PermutationOrder.front_isPermutation position
  rcases redistribute_spec isOrder allFilled.supplied.distinct allFilled.supplied.notPending with
    ⟨moved, next, equal, movedIff, redistributed⟩
  rw [← allFilled.fullIn] at found
  have gained := redistributed.favoured bucket position
    (PermutationOrder.front_favours position) found
  rw [allFilled.received] at gained
  have someone : collector.fullIn collector.incompleteBuckets short.pool ≠ [] := by
    rw [allFilled.fullIn, samePool]
    exact ne_nil_of_mem inPool
  have lowered := redistributed.lowered short (allFilled.incompleteBuckets ▸ isShort) someone
  refine ⟨_, isOrder, ?_, ?_⟩
  · rw [equal]
    exact movedIff.mpr ⟨short, allFilled.incompleteBuckets ▸ isShort, someone⟩
  · rw [equal]
    apply not_absorbing_of_exhausted _ _ samePool.symm
    · exact lowered.trans (allFilled.accepted_short isShort)
    · rw [mem_shortBuckets, redistributed.buckets]
      exact ⟨member, scarce.trans_eq gained.symm⟩
    · rw [redistributed.buckets]
      exact (mem_shortBuckets.mp isShort).1

end AllFilled

end FastSampleCollector

theorem fastSampleProbeBudget_eq_max (round : Nat) :
    fastSampleProbeBudget round = fastSampleMaxProbes ↔ 2 ≤ round := by
  match round with
  | 0 => decide
  | 1 => decide
  | round + 2 => simp [fastSampleProbeBudget]

/-- The ways in which a round leads to another one. -/
inductive Rounded (supply : SampleSupply) (order : PermutationOrder) (loop : SampleLoop) :
    SampleLoop → Prop where
  | early (isEarly : loop.round < 2) :
      Rounded supply order loop
        ⟨loop.collector.fillBuckets supply, loop.round + 1, loop.stagnantMaxRounds⟩
  | progress (isLate : 2 ≤ loop.round)
      (changed : ((loop.collector.fillBuckets supply).redistribute order).1 = true ∨
        ((loop.collector.fillBuckets supply).redistribute order).2.seenContractPairs.card ≠
          loop.collector.seenContractPairs.card) :
      Rounded supply order loop
        ⟨((loop.collector.fillBuckets supply).redistribute order).2, loop.round + 1, 0⟩
  | stagnant (isLate : 2 ≤ loop.round)
      (few : loop.stagnantMaxRounds + 1 ≠ fastSampleMaxStagnantRounds) :
      Rounded supply order loop
        ⟨((loop.collector.fillBuckets supply).redistribute order).2, loop.round + 1,
          loop.stagnantMaxRounds + 1⟩

variable {loop : SampleLoop}

theorem sampleRound_next {next : SampleLoop} (followed : sampleRound supply order loop = .next next)
    :
    Rounded supply order loop next := by
  simp only [sampleRound, fastSampleProbeBudget_eq_max] at followed
  split at followed
  · cases followed
  split at followed
  · rename_i isLate
    split at followed
    · rename_i changed
      cases followed
      exact .progress isLate (by simpa using changed)
    · split at followed
      · cases followed
      · rename_i few
        cases followed
        exact .stagnant isLate few
  · rename_i isEarly
    cases followed
    exact .early (not_le.mp isEarly)

variable {collector : FastSampleCollector}

theorem sampleRound_stopped (stopped : sampleRound supply order loop = .stopped collector) :
    collector = loop.collector.fillBuckets supply ∨
      collector = ((loop.collector.fillBuckets supply).redistribute order).2 := by
  simp only [sampleRound] at stopped
  split at stopped
  · cases stopped
    exact .inl rfl
  split at stopped
  · split at stopped
    · cases stopped
    · split at stopped
      · cases stopped
        exact .inr rfl
      · cases stopped
  · cases stopped

theorem sampleRound_of_moved (isLate : 2 ≤ loop.round)
    (incomplete : (loop.collector.fillBuckets supply).complete = false)
    (moved : ((loop.collector.fillBuckets supply).redistribute order).1 = true) :
    sampleRound supply order loop =
      .next ⟨((loop.collector.fillBuckets supply).redistribute order).2,
        loop.round + 1, 0⟩ := by
  simp only [sampleRound, fastSampleProbeBudget_eq_max]
  rw [incomplete, if_neg Bool.false_ne_true, if_pos isLate, moved, Bool.true_or,
    if_pos rfl]

theorem sampleRound_of_early (order : PermutationOrder) (isEarly : loop.round < 2)
    (incomplete : (loop.collector.fillBuckets supply).complete = false) :
    sampleRound supply order loop =
      .next ⟨loop.collector.fillBuckets supply, loop.round + 1,
        loop.stagnantMaxRounds⟩ := by
  simp only [sampleRound, fastSampleProbeBudget_eq_max]
  rw [incomplete, if_neg Bool.false_ne_true, if_neg (not_le.mpr isEarly)]

section Termination

variable {loop next : SampleLoop}

theorem terminates_of_allFilled (remaining : Nat) :
    ∀ {loop : SampleLoop}, FastSampleCollector.AllFilled supply loop.collector →
      Quiet supply loop.collector.bucketTargets → 2 ≤ loop.round →
      loop.stagnantMaxRounds + remaining = fastSampleMaxStagnantRounds → 0 < remaining →
      Terminates supply loop := by
  induction remaining with
  | zero => exact fun _ _ _ _ positive => absurd positive (lt_irrefl 0)
  | succ remaining induction =>
      intro loop allFilled quiet isLate budget _
      have unmoved : ∀ order, loop.collector.redistribute order = (false, loop.collector) := by
        intro order
        apply FastSampleCollector.redistribute_unmoved
        intro bucket member
        rw [allFilled.fullIn]
        exact quiet bucket (allFilled.incompleteBuckets ▸ member)
      refine Acc.intro loop fun next followed => ?_
      rcases followed with ⟨order, isOrder, equal⟩
      cases sampleRound_next equal with
      | early isEarly => omega
      | progress _ changed =>
          rw [allFilled.fillBuckets, unmoved] at changed
          simp at changed
      | stagnant _ few =>
          rw [allFilled.fillBuckets, unmoved]
          have positive : 0 < remaining := by
            simp only [fastSampleMaxStagnantRounds] at few budget
            omega
          refine induction allFilled quiet (isLate.trans (Nat.le_succ _)) ?_ positive
          exact (Nat.succ_add_eq_add_succ _ _).trans budget

theorem terminates_of_quiet (isDistinct : supply.Distinct)
    (supplied : FastSampleCollector.Supplied supply loop.collector)
    (quiet : Quiet supply loop.collector.bucketTargets) (isLate : 2 ≤ loop.round)
    (few : loop.stagnantMaxRounds < fastSampleMaxStagnantRounds) :
    Terminates supply loop := by
  have filled := FastSampleCollector.fillBuckets_allFilled isDistinct supplied
  have unmoved : ∀ order, (loop.collector.fillBuckets supply).redistribute order =
      (false, loop.collector.fillBuckets supply) := by
    intro order
    apply FastSampleCollector.redistribute_unmoved
    intro bucket member
    rw [filled.1.fullIn, filled.2]
    exact quiet bucket (filled.2 ▸ filled.1.incompleteBuckets ▸ member)
  refine Acc.intro loop fun next followed => ?_
  rcases followed with ⟨order, isOrder, equal⟩
  have stays : ∀ stagnant, stagnant < fastSampleMaxStagnantRounds →
      Terminates supply ⟨((loop.collector.fillBuckets supply).redistribute order).2,
        loop.round + 1, stagnant⟩ := by
    intro stagnant small
    rw [unmoved]
    exact terminates_of_allFilled (fastSampleMaxStagnantRounds - stagnant) filled.1
      (filled.2.symm ▸ quiet) (isLate.trans (Nat.le_succ _))
      (Nat.add_sub_cancel' small.le) (Nat.sub_pos_of_lt small)
  cases sampleRound_next equal with
  | early isEarly => omega
  | progress => exact stays 0 (by decide)
  | stagnant _ more => exact stays _ (lt_of_le_of_ne few more)

theorem terminates_of_absorbing (isDistinct : supply.Distinct) (remaining : Nat) :
    ∀ {loop : SampleLoop}, FastSampleCollector.Supplied supply loop.collector →
      Absorbing supply loop.collector.bucketTargets →
      loop.stagnantMaxRounds < fastSampleMaxStagnantRounds →
      2 ≤ loop.round + remaining → Terminates supply loop := by
  induction remaining with
  | zero =>
      intro loop supplied absorbing few isLate
      have filled := FastSampleCollector.fillBuckets_allFilled isDistinct supplied
      refine Acc.intro loop fun next followed => ?_
      rcases followed with ⟨order, isOrder, equal⟩
      have handedOn : ∀ stagnant, stagnant < fastSampleMaxStagnantRounds →
          Terminates supply ⟨((loop.collector.fillBuckets supply).redistribute order).2,
            loop.round + 1, stagnant⟩ := by
        intro stagnant small
        apply terminates_of_quiet isDistinct (filled.1.supplied.redistribute isOrder)
          (filled.1.quiet_redistribute isOrder (filled.2.symm ▸ absorbing)) _ small
        exact isLate.trans (Nat.le_succ _)
      cases sampleRound_next equal with
      | early isEarly => omega
      | progress => exact handedOn 0 (by decide)
      | stagnant _ more => exact handedOn _ (lt_of_le_of_ne few more)
  | succ remaining induction =>
      intro loop supplied absorbing few enough
      by_cases isLate : 2 ≤ loop.round + remaining
      · exact induction supplied absorbing few isLate
      · have filled := FastSampleCollector.fillBuckets_allFilled isDistinct supplied
        refine Acc.intro loop fun next followed => ?_
        rcases followed with ⟨order, isOrder, equal⟩
        cases sampleRound_next equal with
        | early =>
            refine induction filled.1.supplied (filled.2.symm ▸ absorbing) few ?_
            change 2 ≤ loop.round + 1 + remaining
            omega
        | progress late => omega
        | stagnant late => omega

/-- A bucket that cannot absorb what it may get is left short by some permutations, and
then the bucket that handed its deficit on is the next to get too much. -/
theorem absorbing_of_terminates (isDistinct : supply.Distinct)
    (terminates : Terminates supply loop) :
    FastSampleCollector.Supplied supply loop.collector →
      Absorbing supply loop.collector.bucketTargets := by
  induction terminates with
  | intro loop _ induction =>
      intro supplied
      by_contra overloaded
      have filled := FastSampleCollector.fillBuckets_allFilled isDistinct supplied
      have filledOverloaded : ¬ Absorbing supply
          (loop.collector.fillBuckets supply).bucketTargets := filled.2.symm ▸ overloaded
      rcases overloaded_of_not_absorbing filledOverloaded with
        ⟨_, _, _, _, short, isShort, _⟩
      have incomplete := filled.1.not_complete isShort
      by_cases isEarly : loop.round < 2
      · have followed := sampleRound_of_early (.front 0) isEarly incomplete
        exact filledOverloaded (induction _
          ⟨_, PermutationOrder.front_isPermutation 0, followed⟩ filled.1.supplied)
      · rcases filled.1.overloaded_redistribute filledOverloaded with
          ⟨order, isOrder, moved, stillOverloaded⟩
        have followed := sampleRound_of_moved (not_lt.mp isEarly) incomplete moved
        exact stillOverloaded (induction _ ⟨order, isOrder, followed⟩
          (filled.1.supplied.redistribute isOrder))

end Termination

namespace BucketTargets

theorem target_of_mem (nodup : targets.buckets.Nodup) {entry : FastSampleBucket × Nat}
    (member : entry ∈ targets) :
    targets.target entry.1 = entry.2 := by
  induction targets with
  | nil => cases member
  | cons head rest induction =>
      rcases head with ⟨candidate, current⟩
      rw [target_cons]
      have parts := nodup_cons.mp nodup
      rcases mem_cons.mp member with isHead | inRest
      · rw [isHead, if_pos rfl]
      · rw [if_neg, induction parts.2 inRest]
        intro same
        exact parts.1 (mem_map.mpr ⟨entry, inRest, same⟩)

theorem poolSum_eq (nodup : targets.buckets.Nodup) (pool : MetadataSamplePool) :
    targets.poolSum pool =
      ((targets.buckets.filter fun bucket => bucket.pool = pool).map targets.target).sum := by
  rw [poolSum, buckets, filter_map, map_map]
  congr 1
  apply map_congr_left
  intro entry member
  exact (target_of_mem nodup (mem_filter.mp member).1).symm

end BucketTargets

namespace FastSampleCollector

def acceptedIn (collector : FastSampleCollector) (pool : MetadataSamplePool) : Nat :=
  ((collector.bucketTargets.buckets.filter fun bucket => bucket.pool = pool).map
    collector.accepted).sum

/-- Each pool keeps the number of samples it was asked for and accepts no more. -/
structure WithinPools (targetPerPool : Nat) (collector : FastSampleCollector) : Prop where
  targets : ∀ pool, collector.bucketTargets.poolSum pool = targetPerPool
  accepted : ∀ pool, collector.acceptedIn pool ≤ targetPerPool

variable {collector : FastSampleCollector} {targetPerPool : Nat}

theorem Supplied.withinPools (supplied : Supplied supply collector)
    (targets : ∀ pool, collector.bucketTargets.poolSum pool = targetPerPool) :
    WithinPools targetPerPool collector := by
  refine ⟨targets, fun pool => ?_⟩
  rw [← targets pool, BucketTargets.poolSum_eq supplied.distinct]
  apply sum_le_sum
  intro bucket member
  exact supplied.withinTarget bucket (mem_filter.mp member).1

theorem Supplied.poolSum_redistribute (isOrder : order.IsPermutation)
    (supplied : Supplied supply collector) (pool : MetadataSamplePool) :
    (collector.redistribute order).2.bucketTargets.poolSum pool =
      collector.bucketTargets.poolSum pool := by
  rcases redistribute_spec isOrder supplied.distinct supplied.notPending with
    ⟨moved, next, equal, _, redistributed⟩
  rw [equal]
  exact redistributed.conserved pool

theorem start_supplied (store : EntityStore) (nodup : targets.buckets.Nodup)
    (maxPhysicalOutstanding : Nat) :
    Supplied supply (start store targets maxPhysicalOutstanding) where
  distinct := nodup
  settled := rfl
  notViable := fun _ => rfl
  notPending := fun _ => rfl
  withinTarget := fun _ _ => Nat.zero_le _
  reserve := by
    intro bucket
    simp [accepted, start, untried, successes]

end FastSampleCollector

section Pools

open FastSampleCollector

variable {targetPerPool : Nat} {loop next : SampleLoop}

theorem supplied_of_nextRound (isDistinct : supply.Distinct)
    (supplied : Supplied supply loop.collector)
    (targets : ∀ pool, loop.collector.bucketTargets.poolSum pool = targetPerPool)
    (followed : NextRound supply loop next) :
    Supplied supply next.collector ∧
      ∀ pool, next.collector.bucketTargets.poolSum pool = targetPerPool := by
  have filled := fillBuckets_allFilled isDistinct supplied
  have filledTargets : ∀ pool,
      (loop.collector.fillBuckets supply).bucketTargets.poolSum pool = targetPerPool :=
    filled.2.symm ▸ targets
  rcases followed with ⟨order, isOrder, equal⟩
  have handedOn : Supplied supply ((loop.collector.fillBuckets supply).redistribute order).2 ∧
      ∀ pool, ((loop.collector.fillBuckets supply).redistribute
        order).2.bucketTargets.poolSum pool = targetPerPool :=
    ⟨filled.1.supplied.redistribute isOrder, fun pool =>
      (filled.1.supplied.poolSum_redistribute isOrder pool).trans (filledTargets pool)⟩
  cases sampleRound_next equal with
  | early => exact ⟨filled.1.supplied, filledTargets⟩
  | progress | stagnant => exact handedOn

theorem withinPools_of_lastRound (isDistinct : supply.Distinct)
    (supplied : Supplied supply loop.collector)
    (targets : ∀ pool, loop.collector.bucketTargets.poolSum pool = targetPerPool)
    (last : LastRound supply loop collector) :
    WithinPools targetPerPool collector := by
  have filled := fillBuckets_allFilled isDistinct supplied
  have filledTargets : ∀ pool,
      (loop.collector.fillBuckets supply).bucketTargets.poolSum pool = targetPerPool :=
    filled.2.symm ▸ targets
  rcases last with ⟨order, isOrder, equal⟩
  rcases sampleRound_stopped equal with isFilled | isRedistributed
  · rw [isFilled]
    exact filled.1.supplied.withinPools filledTargets
  · rw [isRedistributed]
    exact (filled.1.supplied.redistribute isOrder).withinPools fun pool =>
      (filled.1.supplied.poolSum_redistribute isOrder pool).trans (filledTargets pool)

theorem supplied_of_reached (isDistinct : supply.Distinct)
    (supplied : Supplied supply loop.collector)
    (targets : ∀ pool, loop.collector.bucketTargets.poolSum pool = targetPerPool)
    (reached : Relation.ReflTransGen (NextRound supply) loop next) :
    Supplied supply next.collector ∧
      ∀ pool, next.collector.bucketTargets.poolSum pool = targetPerPool := by
  induction reached with
  | refl => exact ⟨supplied, targets⟩
  | tail _ followed induction =>
      exact supplied_of_nextRound isDistinct induction.1 induction.2 followed

end Pools

def twoChainTargets : BucketTargets := [(.intra 0, 1), (.intra 1, 1), (.cross 0 1, 2)]

def twoChainSupply (second : List (Nat × Bool)) : SampleSupply
  | .intra 0 => [(1, true)]
  | .intra 1 => second
  | .cross 0 1 => [(2, true), (3, false), (4, true)]
  | _ => []

theorem twoChainSupply_distinct {second : List (Nat × Bool)}
    (nodup : (second.map Prod.fst).Nodup) (fresh : ∀ pair ∈ second, 4 < pair.1) :
    (twoChainSupply second).Distinct := by
  apply SampleSupply.Distinct.of_owner fun key =>
    if key = 1 then .intra 0 else if key ≤ 4 then .cross 0 1 else .intra 1
  · intro bucket
    unfold twoChainSupply
    split
    · decide
    · exact nodup
    · decide
    · exact nodup_nil
  · intro bucket pair member
    unfold twoChainSupply at member
    split at member
    · fin_cases member
      rfl
    · have large := fresh pair member
      rw [if_neg (by omega), if_neg (by omega)]
    · fin_cases member <;> rfl
    · cases member

end NftData.Dedup
