import NftData.Dedup.Metadata.Sampler

namespace NftData.Dedup

/-! # What the collector keeps track of

The history of a collector lists the candidates it has observed and the ones whose
download has been reported. Every map and counter of the collector is a function of
that history and of how far each bucket has been committed. -/

open List

structure Observation where
  id : Nat
  bucket : FastSampleBucket
  pair : MetadataImagePair
  sample : MetadataImagePairSample
  deriving DecidableEq, Repr

structure SampleHistory where
  observed : List Observation
  reported : Finset Nat

/-! ## The first successes of a sequence -/

def firstSuccesses (success : Nat → Bool) (target : Nat) (ids : List Nat) : List Nat :=
  (ids.filter success).take target

variable {id : Nat}

section FirstSuccesses

variable {success : Nat → Bool} {target : Nat} {ids : List Nat}

theorem firstSuccesses_failed (failed : success id = false) :
    firstSuccesses success target (ids ++ [id]) = firstSuccesses success target ids := by
  simp [firstSuccesses, filter_append, failed]

theorem firstSuccesses_full (id : Nat)
    (full : target ≤ (firstSuccesses success target ids).length) :
    firstSuccesses success target (ids ++ [id]) = firstSuccesses success target ids := by
  have enough : target ≤ (ids.filter success).length := by
    rw [firstSuccesses, length_take] at full
    omega
  rw [firstSuccesses, firstSuccesses, filter_append,
    take_append_of_le_length enough]

theorem firstSuccesses_open (succeeded : success id = true)
    (room : (firstSuccesses success target ids).length < target) :
    firstSuccesses success target (ids ++ [id]) =
      firstSuccesses success target ids ++ [id] := by
  have few : (ids.filter success).length < target := by
    rw [firstSuccesses, length_take] at room
    omega
  have single : [id].filter success = [id] := by simp [succeeded]
  rw [firstSuccesses, firstSuccesses, filter_append, single,
    take_of_length_le few.le, take_of_length_le]
  rw [length_append, length_singleton]
  exact few

end FirstSuccesses

/-- Excluding one counted element lowers a count by one. -/
theorem countP_exclude {values : List Nat} (nodup : values.Nodup) {value : Nat}
    (member : value ∈ values) (counts : Nat → Bool) (counted : counts value = true) :
    values.countP counts =
      values.countP (fun other => counts other && decide (other ≠ value)) + 1 := by
  induction values with
  | nil => simp at member
  | cons head tail induction =>
      rw [nodup_cons] at nodup
      rw [countP_cons, countP_cons]
      rcases mem_cons.mp member with isHead | inTail
      · subst isHead
        have same : tail.countP (fun other => counts other && decide (other ≠ value)) =
            tail.countP counts := by
          apply countP_congr
          intro other otherMember
          have different : other ≠ value := fun equal => nodup.1 (equal ▸ otherMember)
          simp [different]
        rw [same]
        simp [counted]
      · have different : head ≠ value := fun equal => nodup.1 (equal ▸ inTail)
        rw [induction nodup.2 inTail]
        simp only [different, ne_eq, not_false_eq_true, decide_true, Bool.and_true]
        omega

variable {history : SampleHistory} {candidate : Observation}

namespace SampleHistory

def empty : SampleHistory := ⟨[], ∅⟩

def idsOf (history : SampleHistory) (bucket : FastSampleBucket) : List Nat :=
  (history.observed.filter fun candidate => candidate.bucket = bucket).map Observation.id

def observe (history : SampleHistory) (candidate : Observation) : SampleHistory :=
  { history with observed := history.observed ++ [candidate] }

def report (history : SampleHistory) (id : Nat) : SampleHistory :=
  { history with reported := insert id history.reported }

def sampleIn (history : SampleHistory) (pool : MetadataSamplePool) (id : Nat) :
    Option MetadataImagePairSample :=
  (history.observed.find? fun candidate => candidate.id == id).bind fun candidate =>
    if candidate.bucket.pool = pool then some candidate.sample else none

/-- Not reported as failed. -/
def viable (history : SampleHistory) (success : Nat → Bool) (id : Nat) : Bool :=
  decide (id ∉ history.reported) || success id

theorem mem_idsOf {bucket : FastSampleBucket} :
    id ∈ history.idsOf bucket ↔
      ∃ candidate ∈ history.observed, candidate.bucket = bucket ∧ candidate.id = id := by
  simp only [idsOf, mem_map, mem_filter, decide_eq_true_eq, and_assoc]

theorem sampleIn_of_mem (unique : (history.observed.map Observation.id).Nodup)
    (member : candidate ∈ history.observed) (pool : MetadataSamplePool) :
    history.sampleIn pool candidate.id =
      if candidate.bucket.pool = pool then some candidate.sample else none := by
  have found : history.observed.find? (fun other => other.id == candidate.id) =
      some candidate := by
    cases found : history.observed.find? (fun other => other.id == candidate.id) with
    | none =>
        have := List.find?_eq_none.mp found candidate member
        simp at this
    | some other =>
        have sameId : other.id = candidate.id := by simpa using List.find?_some found
        rw [inj_on_of_nodup_map unique (List.mem_of_find?_eq_some found) member sameId]
  rw [sampleIn, found]
  rfl

theorem idsOf_observe (history : SampleHistory) (candidate : Observation)
    (bucket : FastSampleBucket) :
    (history.observe candidate).idsOf bucket =
      if bucket = candidate.bucket then history.idsOf bucket ++ [candidate.id]
      else history.idsOf bucket := by
  rw [idsOf, observe, filter_append, map_append]
  by_cases same : bucket = candidate.bucket
  · simp [idsOf, same]
  · simp [idsOf, same, Ne.symm same]

end SampleHistory

namespace FastSampleCollector

def samples (collector : FastSampleCollector) :
    MetadataSamplePool → List MetadataImagePairSample
  | .intraChain => collector.intraChain
  | .crossChain => collector.crossChain

/-- Each bucket has accepted the first successes among its committed candidates. -/
structure Accepts (success : Nat → Bool) (targets : BucketTargets)
    (history : SampleHistory) (committed : FastSampleBucket → Nat)
    (collector : FastSampleCollector) : Prop where
  known : ∀ id ∈ collector.acceptedCandidateIds,
    id ∈ history.observed.map Observation.id
  ids : ∀ bucket,
    collector.acceptedCandidateIds.filter (fun id => decide (id ∈ history.idsOf bucket)) =
      firstSuccesses success ((targets.lookup bucket).getD 0)
        ((history.idsOf bucket).take (committed bucket))
  counts : ∀ bucket, collector.accepted bucket =
    (firstSuccesses success ((targets.lookup bucket).getD 0)
      ((history.idsOf bucket).take (committed bucket))).length
  samples : ∀ pool, collector.samples pool =
    collector.acceptedCandidateIds.filterMap (history.sampleIn pool)

/-- The collector after a history in which the first `committed` candidates of each
bucket have been committed. -/
structure Tracks (success : Nat → Bool) (store : EntityStore)
    (targets : BucketTargets) (history : SampleHistory)
    (committed : FastSampleBucket → Nat) (collector : FastSampleCollector) :
    Prop where
  sameStore : collector.store = store
  sameTargets : collector.bucketTargets = targets
  ids : (history.observed.map Observation.id).Nodup
  below : ∀ candidate ∈ history.observed, candidate.id < collector.nextCandidateId
  inTargets : ∀ candidate ∈ history.observed,
    candidate.bucket ∈ targets.map Prod.fst
  sampled : ∀ candidate ∈ history.observed,
    materializeImagePair store candidate.pair = .ok candidate.sample
  reportedKnown : ∀ id ∈ history.reported, id ∈ history.observed.map Observation.id
  pending : collector.pending = []
  pendingBuckets : ∀ id, collector.pendingBuckets id = none
  downloads : collector.downloads = history.observed.map fun candidate =>
    ⟨candidate.id, candidate.bucket.pool, candidate.sample⟩
  pairs : (history.observed.map fun candidate => candidate.pair.contractPair).Nodup
  seen : ∀ candidate ∈ history.observed,
    candidate.pair.contractPair ∈ collector.seenContractPairs
  inFlight : ∀ id entry, collector.inFlight id = some entry ↔
    ∃ candidate ∈ history.observed, candidate.id = id ∧ id ∉ history.reported ∧
      entry = (candidate.bucket, candidate.sample)
  committedLe : ∀ bucket, committed bucket ≤ (history.idsOf bucket).length
  committedReported : ∀ bucket, ∀ id ∈ (history.idsOf bucket).take (committed bucket),
    id ∈ history.reported
  queue : ∀ bucket, (collector.commitOrderByBucket bucket).getD [] =
    (history.idsOf bucket).drop (committed bucket)
  completed : ∀ id entry, collector.completed id = some entry ↔
    ∃ candidate ∈ history.observed, candidate.id = id ∧ id ∈ history.reported ∧
      id ∈ (history.idsOf candidate.bucket).drop (committed candidate.bucket) ∧
      entry = (candidate.bucket, candidate.sample, success id)
  viable : ∀ bucket, (collector.viableByBucket bucket).getD 0 =
    ((history.idsOf bucket).drop (committed bucket)).countP (history.viable success)
  uncommitted : ∀ bucket, (collector.uncommittedByBucket bucket).getD 0 =
    ((history.idsOf bucket).drop (committed bucket)).length
  total : collector.uncommittedTotal = ∑ bucket ∈ (targets.map Prod.fst).toFinset,
    ((history.idsOf bucket).drop (committed bucket)).length
  outstanding : collector.physicalOutstanding =
    (history.observed.map Observation.id).countP fun id => decide (id ∉ history.reported)
  accepts : Accepts success targets history committed collector

/-- Only the accepted candidates matter. -/
theorem Accepts.transfer {success : Nat → Bool} {targets : BucketTargets}
    {committed : FastSampleBucket → Nat} {collector next : FastSampleCollector}
    (accepts : Accepts success targets history committed collector)
    (counts : next.acceptedByBucket = collector.acceptedByBucket)
    (ids : next.acceptedCandidateIds = collector.acceptedCandidateIds)
    (intraChain : next.intraChain = collector.intraChain)
    (crossChain : next.crossChain = collector.crossChain) :
    Accepts success targets history committed next where
  known := ids ▸ accepts.known
  ids := ids ▸ accepts.ids
  counts := by
    intro bucket
    rw [accepted, counts]
    exact accepts.counts bucket
  samples := by
    intro pool
    rw [ids, ← accepts.samples pool]
    cases pool
    · exact intraChain
    · exact crossChain

section Tracks

variable {success : Nat → Bool} {store : EntityStore}
  {targets : BucketTargets} {history : SampleHistory}
  {committed : FastSampleBucket → Nat} {collector : FastSampleCollector}

theorem Tracks.start (success : Nat → Bool) (store : EntityStore)
    (targets : BucketTargets) (maxPhysicalOutstanding : Nat) :
    Tracks success store targets .empty (fun _ => 0)
      (FastSampleCollector.start store targets maxPhysicalOutstanding) := by
  have accepts : Accepts success targets .empty (fun _ => 0)
      (FastSampleCollector.start store targets maxPhysicalOutstanding) := by
    constructor
    case samples =>
      intro pool
      cases pool <;> rfl
    all_goals
      simp [FastSampleCollector.start, SampleHistory.empty, SampleHistory.idsOf,
        firstSuccesses, FastSampleCollector.accepted]
  constructor
  case accepts => exact accepts
  all_goals
    simp [FastSampleCollector.start, SampleHistory.empty, SampleHistory.idsOf]

section

variable (tracks : Tracks success store targets history committed collector)
include tracks

theorem Tracks.unique {left right : Observation} (leftMember : left ∈ history.observed)
    (rightMember : right ∈ history.observed) (same : left.id = right.id) :
    left = right :=
  inj_on_of_nodup_map tracks.ids leftMember rightMember same

theorem Tracks.idsOf_nodup (bucket : FastSampleBucket) : (history.idsOf bucket).Nodup :=
  tracks.ids.sublist (filter_sublist.map _)

theorem Tracks.waiting (member : candidate ∈ history.observed)
    (unreported : candidate.id ∉ history.reported) :
    candidate.id ∈ (history.idsOf candidate.bucket).drop (committed candidate.bucket) := by
  have inIds : candidate.id ∈ history.idsOf candidate.bucket :=
    SampleHistory.mem_idsOf.mpr ⟨candidate, member, rfl, rfl⟩
  rw [← take_append_drop (committed candidate.bucket) (history.idsOf _),
    mem_append] at inIds
  apply inIds.resolve_left
  intro committedAlready
  exact unreported (tracks.committedReported _ _ committedAlready)

end

end Tracks

end FastSampleCollector

end NftData.Dedup
