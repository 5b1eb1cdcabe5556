import NftData.Dedup.Metadata.SamplerTargets

namespace NftData.Dedup

/-! # Sampling rounds

Every round fills each bucket up to its target or to what its candidate pairs can
give. From the third round on, what is missing is redistributed, and the sampler
gives up once three rounds in a row change nothing. -/

open List

/-- The candidate pairs of a bucket in the order in which they are visited, each with
the outcome of its download. -/
abbrev SampleSupply := FastSampleBucket → List (Nat × Bool)

def fastSampleInitialProbes : Nat := 32
def fastSampleSecondProbes : Nat := 128
def fastSampleMaxProbes : Nat := 512
def fastSampleMaxStagnantRounds : Nat := 3

def fastSampleProbeBudget : Nat → Nat
  | 0 => fastSampleInitialProbes
  | 1 => fastSampleSecondProbes
  | _ => fastSampleMaxProbes

structure SampleLoop where
  collector : FastSampleCollector
  round : Nat
  stagnantMaxRounds : Nat

inductive RoundOutcome where
  | stopped (collector : FastSampleCollector)
  | next (loop : SampleLoop)

namespace FastSampleCollector

/-- Observing a candidate pair whose download is reported and committed before the
next one is observed. -/
def tryPair (bucket : FastSampleBucket) (collector : FastSampleCollector)
    (pair : Nat × Bool) : FastSampleCollector :=
  if !collector.bucketWantsCandidate bucket ||
      decide (pair.1 ∈ collector.seenContractPairs) then
    collector
  else
    let seen := { collector with
      seenContractPairs := insert pair.1 collector.seenContractPairs
      attemptedPairs := collector.attemptedPairs + 1 }
    if pair.2 then
      { seen with
        acceptedByBucket := Function.update collector.acceptedByBucket bucket
          (some (collector.accepted bucket + 1)) }
    else
      seen

def fillBucket (supply : SampleSupply) (collector : FastSampleCollector)
    (bucket : FastSampleBucket) : FastSampleCollector :=
  (supply bucket).foldl (tryPair bucket) collector

def fillBuckets (supply : SampleSupply) (collector : FastSampleCollector) :
    FastSampleCollector :=
  collector.bucketTargets.buckets.foldl (fillBucket supply) collector

end FastSampleCollector

def sampleRound (supply : SampleSupply) (order : PermutationOrder) (loop : SampleLoop) :
    RoundOutcome :=
  let attemptedBeforeRound := loop.collector.seenContractPairs.card
  let filled := loop.collector.fillBuckets supply
  if filled.complete then
    .stopped filled
  else if fastSampleProbeBudget loop.round = fastSampleMaxProbes then
    let (redistributed, collector) := filled.redistribute order
    if redistributed ||
        decide (collector.seenContractPairs.card ≠ attemptedBeforeRound) then
      .next ⟨collector, loop.round + 1, 0⟩
    else if loop.stagnantMaxRounds + 1 = fastSampleMaxStagnantRounds then
      .stopped collector
    else
      .next ⟨collector, loop.round + 1, loop.stagnantMaxRounds + 1⟩
  else
    .next ⟨filled, loop.round + 1, loop.stagnantMaxRounds⟩

/-! ## Filling -/

def successes (pairs : List (Nat × Bool)) : Nat :=
  pairs.countP fun pair => pair.2

/-- A candidate pair is a pair of contracts, which belongs to one bucket. -/
structure SampleSupply.Distinct (supply : SampleSupply) : Prop where
  within : ∀ bucket, ((supply bucket).map Prod.fst).Nodup
  across : ∀ bucket other, bucket ≠ other → ∀ pair ∈ supply bucket,
    pair.1 ∉ (supply other).map Prod.fst

theorem SampleSupply.Distinct.of_owner {supply : SampleSupply}
    (owner : Nat → FastSampleBucket)
    (within : ∀ bucket, ((supply bucket).map Prod.fst).Nodup)
    (owned : ∀ bucket, ∀ pair ∈ supply bucket, owner pair.1 = bucket) : supply.Distinct := by
  refine ⟨within, ?_⟩
  intro bucket other different pair member inside
  rcases mem_map.mp inside with ⟨otherPair, otherMember, same⟩
  apply different
  rw [← owned bucket pair member, ← owned other otherPair otherMember, same]

namespace FastSampleCollector

/-- The successful downloads that have not been tried yet. -/
def untried (collector : FastSampleCollector) (pairs : List (Nat × Bool)) : Nat :=
  pairs.countP fun pair => pair.2 && !decide (pair.1 ∈ collector.seenContractPairs)

/-- Between rounds nothing is in flight, no bucket exceeds its target, and every
successful download is either accepted or untried. -/
structure Supplied (supply : SampleSupply) (collector : FastSampleCollector) : Prop where
  distinct : collector.bucketTargets.buckets.Nodup
  settled : collector.uncommittedTotal = 0
  notViable : ∀ bucket, (collector.viableByBucket bucket).getD 0 = 0
  notPending : ∀ bucket, collector.pendingCount bucket = 0
  withinTarget : ∀ bucket ∈ collector.bucketTargets.buckets,
    collector.accepted bucket ≤ collector.target bucket
  reserve : ∀ bucket,
    collector.accepted bucket + collector.untried (supply bucket) =
      successes (supply bucket)

/-- A bucket that has accepted all it can get. -/
structure Filled (supply : SampleSupply) (collector : FastSampleCollector)
    (bucket : FastSampleBucket) : Prop where
  accepted : collector.accepted bucket =
    min (collector.target bucket) (successes (supply bucket))
  exhausted : collector.accepted bucket < collector.target bucket →
    ∀ pair ∈ supply bucket, pair.1 ∈ collector.seenContractPairs

/-- Every bucket has accepted all it can get. -/
structure AllFilled (supply : SampleSupply) (collector : FastSampleCollector) : Prop where
  supplied : Supplied supply collector
  filled : ∀ bucket ∈ collector.bucketTargets.buckets, Filled supply collector bucket

section Fill

variable {supply : SampleSupply} {collector : FastSampleCollector}
  {bucket : FastSampleBucket}

theorem target_mem_bucketTargets (member : bucket ∈ collector.bucketTargets.buckets) :
    (bucket, collector.target bucket) ∈ collector.bucketTargets := by
  cases found : collector.bucketTargets.lookup bucket with
  | none =>
      rw [List.lookup_eq_none_iff] at found
      rcases mem_map.mp member with ⟨entry, inside, same⟩
      have := found entry inside
      simp [same] at this
  | some target =>
      rcases lookup_eq_some_iff.mp found with ⟨before, after, equal, _⟩
      rw [FastSampleCollector.target, found, equal]
      simp

theorem wants_iff_short (member : bucket ∈ collector.bucketTargets.buckets)
    (settled : collector.uncommittedTotal = 0)
    (notViable : (collector.viableByBucket bucket).getD 0 = 0) :
    collector.bucketWantsCandidate bucket =
      decide (collector.accepted bucket < collector.target bucket) := by
  unfold bucketWantsCandidate
  by_cases short : collector.accepted bucket < collector.target bucket
  · rw [if_neg (not_le.mpr short), decide_eq_true short]
    have remaining : collector.target bucket - collector.accepted bucket ≤
        collector.totalTargetRemaining :=
      single_le_sum (fun _ _ => Nat.zero_le _) _
        (mem_map.mpr ⟨_, target_mem_bucketTargets member, rfl⟩)
    have capacity : collector.hasCommitCapacity = true := by
      rw [hasCommitCapacity, decide_eq_true_eq, settled]
      omega
    have uncovered : collector.covered bucket = false := by
      rw [covered, notViable, decide_eq_false_iff_not]
      omega
    rw [capacity, if_neg (by simp), if_pos, uncovered]
    · rfl
    · exact any_eq_true.mpr ⟨_, target_mem_bucketTargets member, by simp [uncovered]⟩
  · rw [if_pos (not_lt.mp short), decide_eq_false short]

theorem tryPairs_full (full : collector.target bucket ≤ collector.accepted bucket)
    (pairs : List (Nat × Bool)) : pairs.foldl (tryPair bucket) collector = collector := by
  induction pairs with
  | nil => rfl
  | cons pair pairs induction =>
      have same : tryPair bucket collector pair = collector := by
        rw [tryPair, bucketWantsCandidate, if_pos full]
        rfl
      rw [foldl_cons, same, induction]

variable {pairs : List (Nat × Bool)}

theorem tryPairs_seen (seen : ∀ pair ∈ pairs, pair.1 ∈ collector.seenContractPairs) :
    pairs.foldl (tryPair bucket) collector = collector := by
  induction pairs with
  | nil => rfl
  | cons pair pairs induction =>
      have same : tryPair bucket collector pair = collector := by
        rw [tryPair, if_pos]
        simp [seen pair mem_cons_self]
      rw [foldl_cons, same,
        induction fun other inside => seen other (mem_cons_of_mem _ inside)]

/-- What trying some pairs of a bucket does. -/
structure Tried (bucket : FastSampleBucket) (pairs : List (Nat × Bool))
    (collector next : FastSampleCollector) : Prop where
  frame : ∃ acceptedByBucket seenContractPairs attemptedPairs, next = { collector with
    acceptedByBucket := acceptedByBucket
    seenContractPairs := seenContractPairs
    attemptedPairs := attemptedPairs }
  others : ∀ other, other ≠ bucket → next.accepted other = collector.accepted other
  grown : collector.seenContractPairs ⊆ next.seenContractPairs
  only : ∀ key ∈ next.seenContractPairs,
    key ∈ collector.seenContractPairs ∨ key ∈ pairs.map Prod.fst
  value : next.accepted bucket =
    min (collector.target bucket) (collector.accepted bucket + collector.untried pairs)
  reserve : next.accepted bucket + next.untried pairs =
    collector.accepted bucket + collector.untried pairs
  exhausted : next.accepted bucket < collector.target bucket →
    ∀ pair ∈ pairs, pair.1 ∈ next.seenContractPairs

/-- What trying a fresh pair does. -/
structure TriedFresh (bucket : FastSampleBucket) (pair : Nat × Bool)
    (collector next : FastSampleCollector) : Prop where
  frame : ∃ acceptedByBucket attemptedPairs, next = { collector with
    acceptedByBucket := acceptedByBucket
    seenContractPairs := insert pair.1 collector.seenContractPairs
    attemptedPairs := attemptedPairs }
  others : ∀ other, other ≠ bucket → next.accepted other = collector.accepted other
  value : next.accepted bucket = collector.accepted bucket + if pair.2 then 1 else 0

variable {pair : Nat × Bool}

theorem tryPair_fresh (wants : collector.bucketWantsCandidate bucket = true)
    (fresh : pair.1 ∉ collector.seenContractPairs) :
    TriedFresh bucket pair collector (tryPair bucket collector pair) := by
  have tried : ¬ (!collector.bucketWantsCandidate bucket ||
      decide (pair.1 ∈ collector.seenContractPairs)) = true := by
    simp [wants, fresh]
  rw [tryPair, if_neg tried]
  cases succeeded : pair.2 with
  | true =>
      refine ⟨⟨_, _, rfl⟩, ?_, ?_⟩
      · intro other different
        simp [accepted, different]
      · simp [accepted, succeeded]
  | false =>
      refine ⟨⟨_, _, rfl⟩, fun _ _ => rfl, ?_⟩
      rw [succeeded]
      rfl

theorem untried_cons_seen (seen : pair.1 ∈ collector.seenContractPairs) (pairs : List (Nat × Bool))
    :
    collector.untried (pair :: pairs) = collector.untried pairs := by
  simp [untried, seen]

theorem untried_cons_fresh (fresh : pair.1 ∉ collector.seenContractPairs)
    (pairs : List (Nat × Bool)) :
    collector.untried (pair :: pairs) =
      collector.untried pairs + if pair.2 then 1 else 0 := by
  simp [untried, fresh, countP_cons]

variable {next : FastSampleCollector}

theorem untried_congr (same : ∀ pair ∈ pairs,
      (pair.1 ∈ next.seenContractPairs ↔ pair.1 ∈ collector.seenContractPairs)) :
    next.untried pairs = collector.untried pairs := by
  apply countP_congr
  intro pair member
  simp [same pair member]

theorem Tried.cons_fresh {middle : FastSampleCollector}
    (fresh : pair.1 ∉ collector.seenContractPairs) (unlisted : pair.1 ∉ pairs.map Prod.fst)
    (first : TriedFresh bucket pair collector middle) (tried : Tried bucket pairs middle next) :
    Tried bucket (pair :: pairs) collector next := by
  rcases first.frame with ⟨acceptedByBucket, attemptedPairs, middleEqual⟩
  rcases tried.frame with ⟨nextAccepted, nextSeen, nextAttempted, nextEqual⟩
  have middleSeen : middle.seenContractPairs =
      insert pair.1 collector.seenContractPairs := by rw [middleEqual]
  have sameTarget : middle.target bucket = collector.target bucket := by
    rw [middleEqual]
    rfl
  have pairSeen : pair.1 ∈ next.seenContractPairs :=
    tried.grown (middleSeen ▸ Finset.mem_insert_self _ _)
  have sameUntried : middle.untried pairs = collector.untried pairs := by
    apply untried_congr
    intro other inside
    have different : other.1 ≠ pair.1 := fun same =>
      unlisted (mem_map.mpr ⟨other, inside, same⟩)
    rw [middleSeen, Finset.mem_insert]
    simp [different]
  constructor
  case frame =>
    refine ⟨nextAccepted, nextSeen, nextAttempted, ?_⟩
    rw [nextEqual, middleEqual]
  case others =>
    intro other different
    rw [tried.others other different, first.others other different]
  case grown =>
    intro key seen
    exact tried.grown (middleSeen ▸ Finset.mem_insert_of_mem seen)
  case only =>
    intro key seen
    rcases tried.only key seen with early | listed
    · rw [middleSeen, Finset.mem_insert] at early
      rcases early with isPair | before
      · exact .inr (isPair ▸ mem_cons_self)
      · exact .inl before
    · exact .inr (mem_cons_of_mem _ listed)
  case value =>
    rw [tried.value, sameTarget, first.value, sameUntried, untried_cons_fresh fresh]
    omega
  case reserve =>
    rw [untried_cons_seen pairSeen, tried.reserve, first.value, sameUntried,
      untried_cons_fresh fresh]
    omega
  case exhausted =>
    intro stillShort other inside
    rcases mem_cons.mp inside with isPair | later
    · exact isPair ▸ pairSeen
    · exact tried.exhausted (sameTarget ▸ stillShort) other later

theorem tryPairs_spec (pairs : List (Nat × Bool)) :
    ∀ {collector : FastSampleCollector}, bucket ∈ collector.bucketTargets.buckets →
      collector.uncommittedTotal = 0 → (collector.viableByBucket bucket).getD 0 = 0 →
      collector.accepted bucket ≤ collector.target bucket → (pairs.map Prod.fst).Nodup →
      Tried bucket pairs collector (pairs.foldl (tryPair bucket) collector) := by
  induction pairs with
  | nil =>
      intro collector _ _ _ within _
      refine ⟨⟨_, _, _, rfl⟩, fun _ _ => rfl, Finset.Subset.refl _, fun _ => .inl, ?_, rfl,
        by simp⟩
      simp [untried, within]
  | cons pair pairs induction =>
      intro collector member settled notViable within nodup
      rw [map_cons, nodup_cons] at nodup
      by_cases full : collector.target bucket ≤ collector.accepted bucket
      · rw [tryPairs_full full]
        refine ⟨⟨_, _, _, rfl⟩, fun _ _ => rfl, Finset.Subset.refl _, fun _ => .inl, ?_, rfl,
          ?_⟩
        · omega
        · intro short
          omega
      · have wants : collector.bucketWantsCandidate bucket = true := by
          rw [wants_iff_short member settled notViable, decide_eq_true_eq]
          omega
        rw [foldl_cons]
        by_cases seen : pair.1 ∈ collector.seenContractPairs
        · have same : tryPair bucket collector pair = collector := by
            rw [tryPair, if_pos]
            simp [seen]
          rw [same]
          have tried := induction member settled notViable within nodup.2
          exact { tried with
            only := fun key inside => (tried.only key inside).imp_right
              fun later => mem_cons_of_mem _ later
            value := by rw [untried_cons_seen seen, tried.value]
            reserve := by
              rw [untried_cons_seen seen, untried_cons_seen (tried.grown seen),
                tried.reserve]
            exhausted := by
              intro short other inside
              rcases mem_cons.mp inside with isPair | later
              · exact isPair ▸ tried.grown seen
              · exact tried.exhausted short other later }
        · have first := tryPair_fresh wants seen
          apply Tried.cons_fresh seen nodup.1 first
          generalize tryPair bucket collector pair = middle at first
          rcases first.frame with ⟨acceptedByBucket, attemptedPairs, middleEqual⟩
          have sameTarget : middle.target bucket = collector.target bucket := by
            rw [middleEqual]
            rfl
          apply induction
          · rw [middleEqual]
            exact member
          · rw [middleEqual]
            exact settled
          · rw [middleEqual]
            exact notViable
          · rw [first.value, sameTarget]
            split <;> omega
          · exact nodup.2

section

variable (isDistinct : supply.Distinct)
include isDistinct

theorem Tried.untried_other {other : FastSampleBucket}
    (different : other ≠ bucket) (tried : Tried bucket (supply bucket) collector next) :
    next.untried (supply other) = collector.untried (supply other) := by
  apply untried_congr
  intro pair member
  constructor
  · intro seen
    rcases tried.only pair.1 seen with before | listed
    · exact before
    · exact absurd listed (isDistinct.across other bucket different pair member)
  · exact fun seen => tried.grown seen

theorem fillBucket_spec (supplied : Supplied supply collector)
    (member : bucket ∈ collector.bucketTargets.buckets) :
    Supplied supply (fillBucket supply collector bucket) ∧
      (fillBucket supply collector bucket).bucketTargets = collector.bucketTargets ∧
      Filled supply (fillBucket supply collector bucket) bucket ∧
      ∀ other, Filled supply collector other →
        Filled supply (fillBucket supply collector bucket) other := by
  have tried : Tried bucket (supply bucket) collector (fillBucket supply collector bucket) :=
    tryPairs_spec (supply bucket) member supplied.settled (supplied.notViable bucket)
      (supplied.withinTarget bucket member) (isDistinct.within bucket)
  generalize fillBucket supply collector bucket = next at tried
  rcases tried.frame with ⟨acceptedByBucket, seenContractPairs, attemptedPairs, equal⟩
  have sameTargets : next.bucketTargets = collector.bucketTargets := by rw [equal]
  have sameTarget : ∀ other, next.target other = collector.target other := by
    intro other
    rw [FastSampleCollector.target, sameTargets]
    rfl
  have filled : Filled supply next bucket := by
    constructor
    · rw [tried.value, supplied.reserve, sameTarget]
    · rw [sameTarget]
      exact tried.exhausted
  refine ⟨?_, sameTargets, filled, ?_⟩
  · constructor
    case distinct => rw [sameTargets]; exact supplied.distinct
    case settled => rw [equal]; exact supplied.settled
    case notViable => rw [equal]; exact supplied.notViable
    case notPending => rw [equal]; exact supplied.notPending
    case withinTarget =>
      intro other otherMember
      by_cases same : other = bucket
      · rw [same, sameTarget, tried.value]
        exact min_le_left _ _
      · rw [tried.others other same, sameTarget]
        exact supplied.withinTarget other (sameTargets ▸ otherMember)
    case reserve =>
      intro other
      by_cases same : other = bucket
      · rw [same, tried.reserve, supplied.reserve]
      · rw [tried.others other same, tried.untried_other isDistinct same,
          supplied.reserve]
  · intro other otherFilled
    by_cases same : other = bucket
    · rw [same]
      exact filled
    · constructor
      · rw [tried.others other same, sameTarget, otherFilled.accepted]
      · rw [tried.others other same, sameTarget]
        exact fun short pair inside => tried.grown (otherFilled.exhausted short pair inside)

theorem fillBuckets_fold (remaining : List FastSampleBucket) :
    ∀ {collector : FastSampleCollector}, Supplied supply collector →
      (∀ bucket ∈ remaining, bucket ∈ collector.bucketTargets.buckets) →
      (∀ bucket ∈ collector.bucketTargets.buckets,
        bucket ∈ remaining ∨ Filled supply collector bucket) →
      AllFilled supply (remaining.foldl (fillBucket supply) collector) ∧
        (remaining.foldl (fillBucket supply) collector).bucketTargets =
          collector.bucketTargets := by
  induction remaining with
  | nil =>
      intro collector supplied _ handled
      refine ⟨⟨supplied, fun bucket member => ?_⟩, rfl⟩
      exact (handled bucket member).resolve_left not_mem_nil
  | cons bucket remaining induction =>
      intro collector supplied members handled
      have step := fillBucket_spec isDistinct supplied (members bucket mem_cons_self)
      have rest := induction step.1
        (fun other inside =>
          step.2.1.symm ▸ members other (mem_cons_of_mem _ inside))
        (by
          intro other member
          rcases handled other (step.2.1 ▸ member) with inside | filled
          · rcases mem_cons.mp inside with isBucket | later
            · exact .inr (isBucket ▸ step.2.2.1)
            · exact .inl later
          · exact .inr (step.2.2.2 other filled))
      rw [foldl_cons]
      exact ⟨rest.1, rest.2.trans step.2.1⟩

theorem fillBuckets_allFilled (supplied : Supplied supply collector) :
    AllFilled supply (collector.fillBuckets supply) ∧
      (collector.fillBuckets supply).bucketTargets = collector.bucketTargets :=
  fillBuckets_fold isDistinct collector.bucketTargets.buckets supplied
    (fun _ inside => inside) fun _ inside => .inl inside

end

theorem AllFilled.fillBuckets (allFilled : AllFilled supply collector) :
    collector.fillBuckets supply = collector := by
  have unchanged : ∀ bucket ∈ collector.bucketTargets.buckets,
      fillBucket supply collector bucket = collector := by
    intro bucket member
    have filled := allFilled.filled bucket member
    by_cases full : collector.target bucket ≤ collector.accepted bucket
    · exact tryPairs_full full _
    · exact tryPairs_seen (filled.exhausted (not_le.mp full))
  rw [FastSampleCollector.fillBuckets]
  generalize collector.bucketTargets.buckets = remaining at unchanged
  induction remaining with
  | nil => rfl
  | cons bucket remaining induction =>
      rw [foldl_cons, unchanged bucket mem_cons_self]
      exact induction fun other inside => unchanged other (mem_cons_of_mem _ inside)

end Fill

end FastSampleCollector

end NftData.Dedup
