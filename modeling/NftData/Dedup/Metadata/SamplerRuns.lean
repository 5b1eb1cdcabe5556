import NftData.Dedup.Metadata.SamplerSteps

namespace NftData.Dedup

/-! # Runs of the collector

Candidates are observed and reports arrive in any order and in any batches. What a
bucket accepts depends on the order of the observations only. -/

open List
open Function (update_of_ne update_self)
open SampleHistory (idsOf_observe mem_idsOf sampleIn)

def SampleHistory.reports (history : SampleHistory)
    (results : List MetadataSampleDownloadResult) : SampleHistory :=
  results.foldl (fun history result => history.report result.id) history

namespace FastSampleCollector

variable {success : Nat → Bool} {store : EntityStore} {targets : BucketTargets} {history :
  SampleHistory} {committed : FastSampleBucket → Nat} {collector : FastSampleCollector} {results :
  List MetadataSampleDownloadResult}

theorem Reports.tail {result : MetadataSampleDownloadResult}
    (reports : Reports success history (result :: results)) :
    Reports success (history.report result.id) results where
  once := (nodup_cons.mp reports.once).2
  submitted := fun other member => reports.submitted other (mem_cons_of_mem _ member)
  unreported := by
    intro other member isReported
    rcases Finset.mem_insert.mp isReported with same | before
    · apply (nodup_cons.mp reports.once).1
      rw [← same]
      exact mem_map.mpr ⟨other, member, rfl⟩
    · exact reports.unreported other (mem_cons_of_mem _ member) before
  outcome := fun other member => reports.outcome other (mem_cons_of_mem _ member)

theorem Tracks.receiveAll (results : List MetadataSampleDownloadResult) :
    ∀ {history : SampleHistory} {collector : FastSampleCollector},
      Tracks success store targets history committed collector →
      Reports success history results →
      ∃ next, results.foldlM receiveResult collector = .ok next ∧
        Tracks success store targets (history.reports results) committed next := by
  induction results with
  | nil =>
      intro history collector tracks _
      exact ⟨collector, rfl, tracks⟩
  | cons result results induction =>
      intro history collector tracks reports
      have headMember : result ∈ result :: results := mem_cons_self
      rcases mem_map.mp (reports.submitted result headMember) with
        ⟨candidate, member, sameId⟩
      have unreported := reports.unreported result headMember
      rw [← sameId] at unreported
      rcases tracks.receive member unreported with ⟨middle, receiveOk, middleTracks⟩
      have sameResult : (⟨candidate.id, success candidate.id⟩ :
          MetadataSampleDownloadResult) = result := by
        rw [sameId, ← reports.outcome result headMember]
      rw [sameResult] at receiveOk
      rw [sameId] at middleTracks
      rcases induction middleTracks reports.tail with ⟨next, restOk, nextTracks⟩
      refine ⟨next, ?_, nextTracks⟩
      rw [foldlM_cons, receiveOk, ok_bind, restOk]

/-- Collecting what the sink may report never fails, and then the front of every
queue is still in flight. -/
theorem Tracks.collect (tracks : Tracks success store targets history committed collector)
    (reports : Reports success history results) :
    ∃ accepted next committed', collector.collect results = .ok (accepted, next) ∧
      Tracks success store targets (history.reports results) committed' next ∧
      ∀ bucket, Settled (history.reports results) committed' bucket := by
  rcases tracks.receiveAll results reports with ⟨received, receivedOk, receivedTracks⟩
  rcases receivedTracks.commitBuckets (targets.map Prod.fst) 0 with
    ⟨accepted, next, committed', commitOk, nextTracks, settled, _⟩
  refine ⟨accepted, next, committed', ?_, nextTracks, ?_⟩
  · rw [FastSampleCollector.collect, receivedOk, ok_bind, receivedTracks.sameTargets]
    exact commitOk
  · intro bucket
    by_cases inTargets : bucket ∈ targets.map Prod.fst
    · exact settled bucket inTargets
    · intro id isFront
      have inIds := mem_of_mem_drop (List.mem_of_mem_head? isFront)
      rcases mem_idsOf.mp inIds with ⟨candidate, member, inBucket, _⟩
      exact absurd (inBucket ▸ nextTracks.inTargets candidate member) inTargets

/-! ## Observing -/

variable {bucket : FastSampleBucket}

/-- Only buckets with a target want candidates. -/
theorem inTargets_of_wants (wants : collector.bucketWantsCandidate bucket = true) :
    bucket ∈ collector.bucketTargets.map Prod.fst := by
  unfold bucketWantsCandidate at wants
  split at wants
  · cases wants
  · next short =>
      by_contra notMember
      apply short
      have missing : collector.bucketTargets.lookup bucket = none := by
        rw [List.lookup_eq_none_iff]
        intro entry member
        rw [bne_iff_ne]
        intro same
        exact notMember (mem_map.mpr ⟨entry, member, same.symm⟩)
      rw [target, missing]
      exact Nat.zero_le _

variable {next : FastSampleCollector}

theorem observe_inversion {submitted : Bool} {leftContract leftNft rightContract rightNft : Nat}
    {needs : FastSampleBucket}
    (ok : collector.observe leftContract leftNft rightContract rightNft needs =
      .ok (submitted, next)) :
    submitted = false ∧ next = collector ∨
      submitted = true ∧ collector.bucketWantsCandidate needs = true ∧
        (MetadataImagePair.ordered leftContract leftNft rightContract
          rightNft).contractPair ∉ collector.seenContractPairs ∧
        collector.submit (.ordered leftContract leftNft rightContract rightNft) needs =
          .ok next := by
  unfold observe at ok
  split at ok
  · cases ok
    exact .inl ⟨rfl, rfl⟩
  · rcases bind_eq_ok ok with ⟨contractA, _, ok⟩
    rcases bind_eq_ok ok with ⟨contractB, _, ok⟩
    dsimp only at ok
    split at ok
    · cases ok
      exact .inl ⟨rfl, rfl⟩
    · next sameBucket =>
        rw [not_not.mp sameBucket] at ok
        split at ok
        · cases ok
          exact .inl ⟨rfl, rfl⟩
        · next wanted =>
            rcases bind_eq_ok ok with ⟨after, submitOk, last⟩
            cases last
            rw [Bool.or_eq_true, not_or, Bool.not_eq_true', Bool.not_eq_false,
              decide_eq_true_eq] at wanted
            exact .inr ⟨rfl, wanted.1, wanted.2, submitOk⟩

theorem flush_single {candidate : MetadataSampleDownloadCandidate}
    (pending : collector.pending = [candidate])
    (inBucket : collector.pendingBuckets candidate.id = some bucket)
    (fresh : collector.inFlight candidate.id = none) :
    collector.flush = .ok { collector with
      downloads := collector.downloads ++ [candidate]
      pending := []
      pendingBuckets := Function.update collector.pendingBuckets candidate.id none
      inFlight := Function.update collector.inFlight candidate.id
        (some (bucket, candidate.sample)) } := by
  rw [flush, pending]
  simp only [isEmpty_cons, Bool.false_eq_true, if_false, foldlM_cons,
    foldlM_nil, flushCandidate, inBucket, fresh, ok_bind]
  rfl

variable {candidate : Observation}

theorem exists_observed_iff {property : Observation → Prop} :
    (∃ other ∈ (history.observe candidate).observed, property other) ↔
      (∃ other ∈ history.observed, property other) ∨ property candidate := by
  simp only [SampleHistory.observe, mem_append, mem_singleton]
  constructor
  · intro found
    rcases found with ⟨other, old | new, holds⟩
    · exact .inl ⟨other, old, holds⟩
    · exact .inr (new ▸ holds)
  · intro found
    rcases found with ⟨other, old, holds⟩ | new
    · exact ⟨other, .inl old, holds⟩
    · exact ⟨candidate, .inr rfl, new⟩

section

variable (tracks : Tracks success store targets history committed collector)
include tracks

private theorem Tracks.queue_observe (candidate : Observation) (bucket : FastSampleBucket) :
    ((history.observe candidate).idsOf bucket).drop (committed bucket) =
      (history.idsOf bucket).drop (committed bucket) ++
        if bucket = candidate.bucket then [candidate.id] else [] := by
  rw [idsOf_observe]
  by_cases same : bucket = candidate.bucket
  · rw [if_pos same, if_pos same, drop_append_of_le_length (tracks.committedLe bucket)]
  · rw [if_neg same, if_neg same, append_nil]

private theorem Tracks.taken_observe (candidate : Observation) (bucket : FastSampleBucket) :
    ((history.observe candidate).idsOf bucket).take (committed bucket) =
      (history.idsOf bucket).take (committed bucket) := by
  rw [idsOf_observe]
  by_cases same : bucket = candidate.bucket
  · rw [if_pos same, take_append_of_le_length (tracks.committedLe bucket)]
  · rw [if_neg same]

/-- A candidate with a fresh number has not been accepted. -/
private theorem Tracks.accepts_observe (unnumbered : candidate.id ∉
      history.observed.map Observation.id) :
    Accepts success targets (history.observe candidate) committed collector where
  known := by
    intro id accepted
    rw [SampleHistory.observe, map_append]
    exact mem_append_left _ (tracks.accepts.known id accepted)
  ids := by
    intro bucket
    rw [tracks.taken_observe, ← tracks.accepts.ids bucket]
    apply filter_congr
    intro id accepted
    have different : id ≠ candidate.id := by
      intro same
      exact unnumbered (same ▸ tracks.accepts.known id accepted)
    rw [idsOf_observe]
    by_cases same : bucket = candidate.bucket
    · simp [same, different]
    · simp [same]
  counts := by
    intro bucket
    rw [tracks.taken_observe]
    exact tracks.accepts.counts bucket
  samples := by
    intro pool
    rw [tracks.accepts.samples pool]
    apply filterMap_congr
    intro id accepted
    have known := tracks.accepts.known id accepted
    have found : (history.observed.find? fun other => other.id == id).isSome := by
      rcases mem_map.mp known with ⟨other, member, sameId⟩
      rw [List.find?_isSome]
      exact ⟨other, member, by simp [sameId]⟩
    rcases Option.isSome_iff_exists.mp found with ⟨other, otherFound⟩
    rw [sampleIn, sampleIn, SampleHistory.observe,
      List.find?_append, otherFound, Option.some_or]

/-- Submitting a fresh pair observes one candidate. -/
theorem Tracks.submit {pair : MetadataImagePair} (inTargets : bucket ∈ targets.map Prod.fst)
    (fresh : pair.contractPair ∉ collector.seenContractPairs)
    (ok : collector.submit pair bucket = .ok next) :
    ∃ sample, materializeImagePair store pair = .ok sample ∧
      Tracks success store targets
        (history.observe ⟨collector.nextCandidateId, bucket, pair, sample⟩) committed
        next := by
  rcases bind_eq_ok ok with ⟨sample, sampled, rest⟩
  rw [show ({ collector with
      seenContractPairs := insert pair.contractPair collector.seenContractPairs
      attemptedPairs := collector.attemptedPairs + 1 } : FastSampleCollector).store =
    store from tracks.sameStore] at sampled
  refine ⟨sample, sampled, ?_⟩
  have unnumbered : collector.nextCandidateId ∉ history.observed.map Observation.id := by
    intro numbered
    rcases mem_map.mp numbered with ⟨other, member, sameId⟩
    exact absurd (tracks.below other member) (by omega)
  have unreported : collector.nextCandidateId ∉ history.reported :=
    fun isReported => unnumbered (tracks.reportedKnown _ isReported)
  have notInFlight : collector.inFlight collector.nextCandidateId = none := by
    apply Option.eq_none_iff_forall_ne_some.mpr
    intro entry found
    rcases (tracks.inFlight _ _).mp found with ⟨other, member, sameId, _, _⟩
    exact unnumbered (mem_map.mpr ⟨other, member, sameId⟩)
  dsimp only at rest
  split at rest
  · cases rest
  · rw [flush_single (by rw [tracks.pending]; rfl) (update_self _ _ _)
      notInFlight] at rest
    rw [← Except.ok.inj rest]
    have appended : ∀ property : Observation → Prop,
        (∀ other ∈ history.observed, property other) →
        property ⟨collector.nextCandidateId, bucket, pair, sample⟩ →
        ∀ other ∈ (history.observe ⟨collector.nextCandidateId, bucket, pair,
          sample⟩).observed, property other := by
      intro property old new other member
      rcases mem_append.mp member with inOld | isNew
      · exact old other inOld
      · exact mem_singleton.mp isNew ▸ new
    exact { tracks with
      ids := by
        rw [SampleHistory.observe, map_append, nodup_append]
        refine ⟨tracks.ids, by simp, ?_⟩
        intro id old other isNew same
        rw [map_singleton, mem_singleton] at isNew
        have sameId : id = collector.nextCandidateId := same.trans isNew
        exact unnumbered (sameId ▸ old)
      below := appended _
        (fun other member => Nat.lt_succ_of_lt (tracks.below other member))
        (Nat.lt_succ_self _)
      inTargets := appended _ tracks.inTargets inTargets
      sampled := appended _ tracks.sampled sampled
      reportedKnown := by
        intro id isReported
        rw [SampleHistory.observe, map_append]
        exact mem_append_left _ (tracks.reportedKnown id isReported)
      pending := by rfl
      pendingBuckets := by
        intro id
        change Function.update (Function.update collector.pendingBuckets
          collector.nextCandidateId (some bucket)) collector.nextCandidateId none id = none
        by_cases same : id = collector.nextCandidateId
        · rw [same, update_self]
        · rw [update_of_ne same, update_of_ne same, tracks.pendingBuckets]
      downloads := by
        rw [SampleHistory.observe, map_append, ← tracks.downloads]
        rfl
      pairs := by
        rw [SampleHistory.observe, map_append, nodup_append]
        refine ⟨tracks.pairs, by simp, ?_⟩
        intro key old other isNew same
        rw [map_singleton, mem_singleton] at isNew
        rcases mem_map.mp old with ⟨candidate, member, sameKey⟩
        have sameKey' : candidate.pair.contractPair = pair.contractPair :=
          sameKey.trans (same.trans isNew)
        exact fresh (sameKey' ▸ tracks.seen candidate member)
      seen := appended _
        (fun other member => Finset.mem_insert_of_mem (tracks.seen other member))
        (Finset.mem_insert_self _ _)
      inFlight := by
        intro id entry
        change Function.update collector.inFlight collector.nextCandidateId
          (some (bucket, sample)) id = some entry ↔ _
        rw [exists_observed_iff]
        by_cases same : id = collector.nextCandidateId
        · subst same
          have notOld : ¬ ∃ candidate ∈ history.observed,
              candidate.id = collector.nextCandidateId ∧
                collector.nextCandidateId ∉ history.reported ∧
                entry = (candidate.bucket, candidate.sample) := by
            intro old
            rcases old with ⟨candidate, member, sameId, _⟩
            exact unnumbered (mem_map.mpr ⟨candidate, member, sameId⟩)
          rw [update_self, Option.some.injEq]
          refine Iff.trans ?_ (or_iff_right notOld).symm
          exact ⟨fun equal => ⟨rfl, unreported, equal.symm⟩, fun new => new.2.2.symm⟩
        · rw [update_of_ne same, tracks.inFlight]
          exact (or_iff_left fun new => same new.1.symm).symm
      committedLe := by
        intro other
        apply (tracks.committedLe other).trans
        rw [idsOf_observe]
        split <;> simp
      committedReported := by
        intro other id inside
        rw [tracks.taken_observe] at inside
        exact tracks.committedReported other id inside
      queue := by
        intro other
        change (Function.update collector.commitOrderByBucket bucket (some
          ((collector.commitOrderByBucket bucket).getD [] ++ [collector.nextCandidateId]))
          other).getD [] = _
        rw [tracks.queue_observe]
        by_cases same : other = bucket
        · rw [if_pos same, same, update_self, Option.getD_some, tracks.queue]
        · rw [if_neg same, update_of_ne same, tracks.queue, append_nil]
      completed := by
        intro id entry
        rw [exists_observed_iff]
        refine (tracks.completed id entry).trans (Iff.trans ?_ (or_iff_left ?_).symm)
        swap
        · intro new
          rcases new with ⟨sameId, isReported, _⟩
          rw [← sameId] at isReported
          exact unreported isReported
        refine exists_congr fun candidate => and_congr_right fun _ => and_congr_right
          fun _ => and_congr_right fun isReported => and_congr_left fun _ => ?_
        have different : id ≠ collector.nextCandidateId :=
          fun same => unreported (same ▸ isReported)
        rw [tracks.queue_observe, mem_append]
        split <;> simp [different]
      viable := by
        intro other
        refine (getD_update collector.viableByBucket _ _ _).trans ?_
        rw [tracks.queue_observe, countP_append]
        change _ = ((history.idsOf other).drop (committed other)).countP
          (history.viable success) + _
        by_cases same : other = bucket
        · rw [if_pos same, if_pos same, tracks.viable, same]
          simp [SampleHistory.viable, SampleHistory.observe, unreported]
        · rw [if_neg same, if_neg same, tracks.viable]
          rfl
      uncommitted := by
        intro other
        refine (getD_update collector.uncommittedByBucket _ _ _).trans ?_
        rw [tracks.queue_observe, length_append]
        by_cases same : other = bucket
        · rw [if_pos same, if_pos same, tracks.uncommitted, same]
          rfl
        · rw [if_neg same, if_neg same, tracks.uncommitted]
          rfl
      total := by
        change collector.uncommittedTotal + 1 = _
        have one : ∑ other ∈ (targets.map Prod.fst).toFinset,
            (if other = bucket then 1 else 0) = 1 := by
          rw [Finset.sum_ite_eq', if_pos (mem_toFinset.mpr inTargets)]
        rw [tracks.total, ← one, ← Finset.sum_add_distrib]
        apply Finset.sum_congr rfl
        intro other _
        rw [tracks.queue_observe, length_append]
        congr 1
        dsimp only
        split <;> rfl
      outstanding := by
        change collector.physicalOutstanding + 1 = _
        rw [tracks.outstanding, SampleHistory.observe, map_append, countP_append]
        simp [unreported]
      accepts := (tracks.accepts_observe unnumbered).transfer rfl rfl rfl rfl }

end

/-! ## Runs -/

/-- The states a collector with fixed targets can reach, each with its history. -/
inductive Run (success : Nat → Bool) (store : EntityStore)
    (targets : BucketTargets) (maxPhysicalOutstanding : Nat) :
    SampleHistory → FastSampleCollector → Prop
  | start : Run success store targets maxPhysicalOutstanding .empty
      (FastSampleCollector.start store targets maxPhysicalOutstanding)
  | rejected {history : SampleHistory} {collector next : FastSampleCollector}
      {leftContract leftNft rightContract rightNft : Nat} {needs : FastSampleBucket}
      (run : Run success store targets maxPhysicalOutstanding history collector)
      (ok : collector.observe leftContract leftNft rightContract rightNft needs =
        .ok (false, next)) :
      Run success store targets maxPhysicalOutstanding history next
  | observed {history : SampleHistory} {collector next : FastSampleCollector}
      {leftContract leftNft rightContract rightNft : Nat} {needs : FastSampleBucket}
      {sample : MetadataImagePairSample}
      (run : Run success store targets maxPhysicalOutstanding history collector)
      (ok : collector.observe leftContract leftNft rightContract rightNft needs =
        .ok (true, next))
      (sampled : materializeImagePair store
        (.ordered leftContract leftNft rightContract rightNft) = .ok sample) :
      Run success store targets maxPhysicalOutstanding
        (history.observe ⟨collector.nextCandidateId, needs,
          .ordered leftContract leftNft rightContract rightNft, sample⟩) next
  | collected {history : SampleHistory} {collector next : FastSampleCollector}
      {results : List MetadataSampleDownloadResult} {accepted : Nat}
      (run : Run success store targets maxPhysicalOutstanding history collector)
      (reports : Reports success history results)
      (ok : collector.collect results = .ok (accepted, next)) :
      Run success store targets maxPhysicalOutstanding (history.reports results) next
  | flushed {history : SampleHistory} {collector next : FastSampleCollector}
      (run : Run success store targets maxPhysicalOutstanding history collector)
      (ok : collector.flush = .ok next) :
      Run success store targets maxPhysicalOutstanding history next

theorem Settled.observe
    (tracks : Tracks success store targets history committed collector)
    {candidate : Observation} (unreported : candidate.id ∉ history.reported)
    {bucket : FastSampleBucket} (settled : Settled history committed bucket) :
    Settled (history.observe candidate) committed bucket := by
  intro id isFront
  rw [tracks.queue_observe, List.head?_append] at isFront
  cases front : ((history.idsOf bucket).drop (committed bucket)).head? with
  | some first =>
      rw [front] at isFront
      exact settled id (front ▸ isFront)
  | none =>
      rw [front, Option.none_or] at isFront
      by_cases same : bucket = candidate.bucket
      · rw [if_pos same] at isFront
        exact Option.some.inj isFront ▸ unreported
      · rw [if_neg same] at isFront
        cases isFront

theorem Run.tracks {maxPhysicalOutstanding : Nat}
    (run : Run success store targets maxPhysicalOutstanding history collector) :
    ∃ committed, Tracks success store targets history committed collector ∧
      ∀ bucket, Settled history committed bucket := by
  induction run with
  | start =>
      refine ⟨_, Tracks.start success store targets maxPhysicalOutstanding, ?_⟩
      intro bucket id isFront
      cases isFront
  | rejected _ ok induction =>
      rcases observe_inversion ok with ⟨_, same⟩ | ⟨impossible, _⟩
      · exact same ▸ induction
      · cases impossible
  | observed _ ok sampled induction =>
      rcases induction with ⟨committed, tracks, settled⟩
      rcases observe_inversion ok with ⟨impossible, _⟩ | ⟨_, wants, fresh, submitOk⟩
      · cases impossible
      · have inTargets := tracks.sameTargets ▸ inTargets_of_wants wants
        rcases tracks.submit inTargets fresh submitOk with
          ⟨sample, sampleOk, nextTracks⟩
        rw [sampled] at sampleOk
        cases sampleOk
        refine ⟨committed, nextTracks, fun bucket => (settled bucket).observe tracks ?_⟩
        intro isReported
        rcases mem_map.mp (tracks.reportedKnown _ isReported) with
          ⟨other, member, sameId⟩
        exact absurd (tracks.below other member) (by dsimp only at sameId; omega)
  | collected _ reports ok induction =>
      rcases induction with ⟨committed, tracks, _⟩
      rcases tracks.collect reports with
        ⟨accepted, next, committed', collectOk, nextTracks, settled⟩
      rw [ok] at collectOk
      cases collectOk
      exact ⟨committed', nextTracks, settled⟩
  | flushed _ ok induction =>
      rcases induction with ⟨committed, tracks, settled⟩
      rw [flush, tracks.pending] at ok
      cases ok
      exact ⟨committed, tracks, settled⟩

/-- The candidates of a bucket that are not committed. -/
def uncommittedIds (collector : FastSampleCollector) (bucket : FastSampleBucket) :
    List Nat :=
  (collector.commitOrderByBucket bucket).getD []

/-- The counters of a collector, in terms of its history. -/
structure Accounted (success : Nat → Bool) (history : SampleHistory)
    (collector : FastSampleCollector) : Prop where
  /-- The uncommitted candidates of a bucket are its last ones. -/
  suffix : ∀ bucket, ∃ done, history.idsOf bucket = done ++ collector.uncommittedIds bucket ∧
    ∀ id ∈ done, id ∈ history.reported
  viable : ∀ bucket, (collector.viableByBucket bucket).getD 0 =
    (collector.uncommittedIds bucket).countP (history.viable success)
  uncommitted : ∀ bucket, (collector.uncommittedByBucket bucket).getD 0 =
    (collector.uncommittedIds bucket).length
  total : collector.uncommittedTotal =
    ∑ bucket ∈ (collector.bucketTargets.map Prod.fst).toFinset,
      (collector.uncommittedByBucket bucket).getD 0
  outstanding : collector.physicalOutstanding =
    (history.observed.map Observation.id).countP fun id => decide (id ∉ history.reported)
  downloads : collector.downloads = history.observed.map fun candidate =>
    ⟨candidate.id, candidate.bucket.pool, candidate.sample⟩

theorem Tracks.accounted
    (tracks : Tracks success store targets history committed collector) :
    Accounted success history collector where
  suffix := by
    intro bucket
    refine ⟨(history.idsOf bucket).take (committed bucket), ?_,
      tracks.committedReported bucket⟩
    rw [uncommittedIds, tracks.queue, take_append_drop]
  viable := by
    intro bucket
    rw [uncommittedIds, tracks.queue]
    exact tracks.viable bucket
  uncommitted := by
    intro bucket
    rw [uncommittedIds, tracks.queue]
    exact tracks.uncommitted bucket
  total := by
    rw [tracks.total, tracks.sameTargets]
    exact Finset.sum_congr rfl fun bucket _ => (tracks.uncommitted bucket).symm
  outstanding := tracks.outstanding
  downloads := tracks.downloads

/-- Nothing uncommitted means that every queue is empty. -/
theorem Tracks.allCommitted
    (tracks : Tracks success store targets history committed collector)
    (none : collector.uncommittedTotal = 0) (bucket : FastSampleBucket) :
    (history.idsOf bucket).take (committed bucket) = history.idsOf bucket := by
  apply take_of_length_le
  by_contra short
  have some : 0 < (history.idsOf bucket).length := by omega
  rcases exists_mem_of_length_pos some with ⟨id, inIds⟩
  rcases mem_idsOf.mp inIds with ⟨candidate, member, inBucket, _⟩
  rw [tracks.total, Finset.sum_eq_zero_iff] at none
  have empty := none bucket
    (mem_toFinset.mpr (inBucket ▸ tracks.inTargets candidate member))
  rw [length_drop] at empty
  omega

/-- In every state a run can reach, the counters agree with the history, collecting
never fails, and no pair of contracts was submitted twice. Once every download is
reported everything is committed, and then each bucket has accepted exactly its
first successful candidates, in the order of their observation. -/
theorem accepted_in_observation_order {maxPhysicalOutstanding : Nat}
    (run : Run success store targets maxPhysicalOutstanding history collector) :
    Accounted success history collector ∧
    (∀ results, Reports success history results →
      ∃ accepted next, collector.collect results = .ok (accepted, next)) ∧
    (history.observed.map fun candidate =>
      (candidate.pair.contractA, candidate.pair.contractB)).Nodup ∧
    (collector.physicalOutstanding = 0 → collector.uncommittedTotal = 0) ∧
    (collector.uncommittedTotal = 0 →
      (∀ bucket, collector.acceptedCandidateIds.filter
          (fun id => decide (id ∈ history.idsOf bucket)) =
        firstSuccesses success ((targets.lookup bucket).getD 0) (history.idsOf bucket)) ∧
      ∀ pool, collector.samples pool =
        collector.acceptedCandidateIds.filterMap (history.sampleIn pool)) := by
  rcases run.tracks with ⟨committed, tracks, settled⟩
  refine ⟨tracks.accounted, ?_, ?_, ?_, ?_⟩
  · intro results reports
    rcases tracks.collect reports with ⟨accepted, next, _, ok, _⟩
    exact ⟨accepted, next, ok⟩
  · have keys := tracks.pairs
    have asPairs : (history.observed.map fun candidate => candidate.pair.contractPair) =
        (history.observed.map fun candidate =>
          (candidate.pair.contractA, candidate.pair.contractB)).map fun contracts =>
            contracts.1 <<< 32 ||| contracts.2 := by
      rw [map_map]
      rfl
    rw [asPairs] at keys
    exact keys.of_map
  · intro allReported
    rw [tracks.total, Finset.sum_eq_zero_iff]
    intro bucket _
    rw [length_eq_zero_iff, ← List.head?_eq_none_iff]
    apply Option.eq_none_iff_forall_ne_some.mpr
    intro id isFront
    have unreported := settled bucket id isFront
    have inIds := mem_of_mem_drop (List.mem_of_mem_head? isFront)
    rcases mem_idsOf.mp inIds with ⟨candidate, member, _, sameId⟩
    rw [tracks.outstanding, countP_eq_zero] at allReported
    have := allReported id (mem_map.mpr ⟨candidate, member, sameId⟩)
    simp [unreported] at this
  · intro none
    refine ⟨fun bucket => ?_, tracks.accepts.samples⟩
    rw [tracks.accepts.ids bucket, tracks.allCommitted none]

def sampledStore : EntityStore :=
  { EntityStore.withOptions none ∅ with
    chains := ["ethereum".toList]
    contracts := [⟨0, 0, "0xa".toList, 1, [⟨"1".toList, "[1]".toList, ⟨0, 0⟩⟩]⟩,
      ⟨1, 0, "0xb".toList, 1, [⟨"1".toList, "[1]".toList, ⟨0, 1⟩⟩]⟩]
    nfts := [⟨0, 0, "1".toList, none, none, some 0, ⟨0, 0⟩⟩,
      ⟨1, 1, "1".toList, none, none, some 0, ⟨0, 1⟩⟩]
    strings := ["image".toList] }

/-- The pair of the two contracts is observed, downloaded and accepted. -/
theorem accepted_in_observation_order_one_pair :
    ∃ history collector,
      Run (fun _ => true) sampledStore [(.intra 0, 1)] 64 history collector ∧
      collector.uncommittedTotal = 0 ∧
      collector.acceptedCandidateIds.filter
        (fun id => decide (id ∈ history.idsOf (.intra 0))) = [1] := by
  have started : Run (fun _ => true) sampledStore [(.intra 0, 1)] 64 _ _ := .start
  have observed := @Run.observed _ _ _ _ _ _ _ 1 1 0 0 (.intra 0) _ started rfl rfl
  have collected := @Run.collected _ _ _ _ _ _ _ [⟨1, true⟩] _ observed
    ⟨by decide, by decide, by decide, by decide⟩ rfl
  refine ⟨_, _, collected, rfl, ?_⟩
  exact ((accepted_in_observation_order collected).2.2.2.2 rfl).1 (.intra 0)

end FastSampleCollector

end NftData.Dedup
