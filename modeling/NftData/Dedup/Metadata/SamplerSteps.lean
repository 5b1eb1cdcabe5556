import NftData.Dedup.Metadata.SamplerHistory

namespace NftData.Dedup.FastSampleCollector

/-! # Steps of the collector

Receiving a report, committing the front of a queue and submitting a candidate keep
the collector in step with its history, and none of them fails on a counter. -/

open List
open Function (update)
open Function (update_of_ne update_self)
open SampleHistory (mem_idsOf report)

variable {success : Nat → Bool} {store : EntityStore} {targets : BucketTargets} {history :
  SampleHistory} {committed : FastSampleBucket → Nat} {collector : FastSampleCollector} {bucket :
  FastSampleBucket}

theorem decreaseViable_eq (collector : FastSampleCollector) {count : Nat}
    (positive : (collector.viableByBucket bucket).getD 0 = count + 1) :
    collector.decreaseViable bucket = .ok { collector with
      viableByBucket :=
        update collector.viableByBucket bucket (some count) } := by
  cases found : collector.viableByBucket bucket with
  | none => simp [found] at positive
  | some viable =>
      have equal : viable = count + 1 := by simpa [found] using positive
      simp only [decreaseViable, found, expectEntry, ok_bind, checkedDecrement, equal]
      rfl

/-! ## Reports -/

/-- The collector after a report, whatever the report did to the viable counts. -/
private theorem Tracks.reported
    (tracks : Tracks success store targets history committed collector)
    {candidate : Observation} (member : candidate ∈ history.observed)
    (unreported : candidate.id ∉ history.reported)
    (viableByBucket : FastSampleBucket → Option Nat)
    (viable : ∀ bucket, (viableByBucket bucket).getD 0 =
      ((history.idsOf bucket).drop (committed bucket)).countP
        ((history.report candidate.id).viable success)) :
    Tracks success store targets (history.report candidate.id) committed
      { collector with
        inFlight := update collector.inFlight candidate.id none
        physicalOutstanding := collector.physicalOutstanding - 1
        viableByBucket := viableByBucket
        completed := update collector.completed candidate.id
          (some (candidate.bucket, candidate.sample, success candidate.id)) } :=
  { tracks with
    reportedKnown := by
      intro id isReported
      rcases Finset.mem_insert.mp isReported with isNew | old
      · exact mem_map.mpr ⟨candidate, member, isNew.symm⟩
      · exact tracks.reportedKnown id old
    inFlight := by
      intro id entry
      change update collector.inFlight candidate.id none id = some entry ↔ _
      by_cases same : id = candidate.id
      · subst same
        simp [report]
      · rw [update_of_ne same, tracks.inFlight]
        simp [report, same]
    committedReported := by
      intro bucket id inside
      exact Finset.mem_insert_of_mem (tracks.committedReported bucket id inside)
    completed := by
      intro id entry
      change update collector.completed candidate.id _ id = some entry ↔ _
      by_cases same : id = candidate.id
      · subst same
        rw [update_self, Option.some.injEq]
        constructor
        · intro equal
          exact ⟨candidate, member, rfl, Finset.mem_insert_self _ _,
            tracks.waiting member unreported, equal.symm⟩
        · intro completed
          rcases completed with ⟨other, otherMember, sameId, _, _, equal⟩
          rw [tracks.unique otherMember member sameId] at equal
          exact equal.symm
      · rw [update_of_ne same, tracks.completed]
        simp only [report, Finset.mem_insert, same, false_or]
        rfl
    viable := viable
    outstanding := by
      have counted := countP_exclude tracks.ids
        (mem_map.mpr ⟨candidate, member, rfl⟩)
        (fun id => decide (id ∉ history.reported)) (by simpa using unreported)
      rw [← tracks.outstanding] at counted
      change collector.physicalOutstanding - 1 = _
      rw [counted, Nat.add_sub_cancel]
      congr 1
      funext id
      simp [report, Bool.and_comm]
    accepts :=
      have same : Accepts success targets history committed _ :=
        tracks.accepts.transfer rfl rfl rfl rfl
      { same with } }

variable {candidate : Observation}

/-- A report of a submitted candidate is always accepted. -/
theorem Tracks.receive (tracks : Tracks success store targets history committed collector)
    (member : candidate ∈ history.observed) (unreported : candidate.id ∉ history.reported) :
    ∃ next, collector.receiveResult ⟨candidate.id, success candidate.id⟩ = .ok next ∧
      Tracks success store targets (history.report candidate.id) committed next := by
  have flight : collector.inFlight candidate.id =
      some (candidate.bucket, candidate.sample) :=
    (tracks.inFlight _ _).mpr ⟨candidate, member, rfl, unreported, rfl⟩
  have positive : collector.physicalOutstanding ≠ 0 := by
    rw [tracks.outstanding, countP_exclude tracks.ids
      (mem_map.mpr ⟨candidate, member, rfl⟩) _ (by simpa using unreported)]
    exact Nat.succ_ne_zero _
  -- Only a failed candidate stops being viable.
  have excluded : ∀ id, (history.report candidate.id).viable success id =
      if id = candidate.id then success candidate.id else history.viable success id := by
    intro id
    by_cases same : id = candidate.id
    · simp [SampleHistory.viable, report, same]
    · simp [SampleHistory.viable, report, same]
  have inQueue := tracks.waiting member unreported
  cases succeeded : success candidate.id with
  | true =>
      refine ⟨_, ?_, tracks.reported member unreported collector.viableByBucket ?_⟩
      · simp only [receiveResult, flight, checkedDecrement, if_neg positive, ok_bind,
          if_true, succeeded]
      · intro bucket
        rw [tracks.viable]
        apply countP_congr
        intro id _
        rw [excluded, succeeded]
        by_cases same : id = candidate.id
        · simp [same, SampleHistory.viable, succeeded]
        · simp [same]
  | false =>
      have nodup := (tracks.idsOf_nodup candidate.bucket).sublist
        (drop_sublist (committed candidate.bucket) _)
      have viableCount := tracks.viable candidate.bucket
      rw [countP_exclude nodup inQueue _
        (by simp [SampleHistory.viable, unreported])] at viableCount
      have removed : (fun other => history.viable success other &&
          decide (other ≠ candidate.id)) = (history.report candidate.id).viable success := by
        funext other
        rw [excluded, succeeded]
        by_cases same : other = candidate.id <;> simp [same]
      rw [removed] at viableCount
      refine ⟨_, ?_, tracks.reported member unreported
        (update collector.viableByBucket candidate.bucket
          (some (((history.idsOf candidate.bucket).drop (committed candidate.bucket)).countP
            ((history.report candidate.id).viable success)))) ?_⟩
      · simp only [receiveResult, flight, checkedDecrement, if_neg positive, ok_bind,
          Bool.false_eq_true, if_false, succeeded]
        rw [decreaseViable_eq { collector with
          inFlight := update collector.inFlight candidate.id none
          physicalOutstanding := collector.physicalOutstanding - 1 } viableCount]
        rfl
      · intro bucket
        by_cases same : bucket = candidate.bucket
        · rw [same, update_self, Option.getD_some]
        · rw [update_of_ne same, tracks.viable]
          apply countP_congr
          intro id inside
          have different : id ≠ candidate.id := by
            intro equal
            rcases mem_idsOf.mp (mem_of_mem_drop inside) with
              ⟨other, otherMember, inBucket, sameId⟩
            rw [tracks.unique otherMember member (sameId.trans equal)] at inBucket
            exact same inBucket.symm
          rw [excluded, if_neg different]

/-! ## Commits -/

/-- What committing the front of a queue means for the candidates of the bucket. -/
structure Front (history : SampleHistory) (committed : FastSampleBucket → Nat)
    (bucket : FastSampleBucket) (id : Nat) (rest : List Nat) : Prop where
  dropped : (history.idsOf bucket).drop (committed bucket + 1) = rest
  taken : (history.idsOf bucket).take (committed bucket + 1) =
    (history.idsOf bucket).take (committed bucket) ++ [id]
  inside : committed bucket < (history.idsOf bucket).length

variable {rest : List Nat} {id : Nat}

theorem front_of_queue (queue : (history.idsOf bucket).drop (committed bucket) = id :: rest) :
    Front history committed bucket id rest where
  dropped := by rw [← drop_drop, queue, drop_one, tail_cons]
  taken := by
    rw [take_add_one, ← List.head?_drop, queue]
    rfl
  inside := by
    have length := congrArg List.length queue
    rw [length_drop, length_cons] at length
    omega

/-- One more candidate of the bucket is committed. -/
def advance (committed : FastSampleBucket → Nat) (bucket : FastSampleBucket) :
    FastSampleBucket → Nat :=
  update committed bucket (committed bucket + 1)

theorem advance_self (bucket : FastSampleBucket) :
    advance committed bucket bucket = committed bucket + 1 :=
  update_self _ _ _

theorem advance_other {other : FastSampleBucket} (different : other ≠ bucket) :
    advance committed bucket other = committed other :=
  update_of_ne different _ _

theorem Accepts.skip (accepts : Accepts success targets history committed collector)
    (front : Front history committed bucket id rest)
    (skipped : firstSuccesses success ((targets.lookup bucket).getD 0)
        ((history.idsOf bucket).take (committed bucket) ++ [id]) =
      firstSuccesses success ((targets.lookup bucket).getD 0)
        ((history.idsOf bucket).take (committed bucket))) :
    Accepts success targets history (advance committed bucket) collector := by
  have same : ∀ other, firstSuccesses success ((targets.lookup other).getD 0)
        ((history.idsOf other).take (advance committed bucket other)) =
      firstSuccesses success ((targets.lookup other).getD 0)
        ((history.idsOf other).take (committed other)) := by
    intro other
    by_cases isBucket : other = bucket
    · rw [isBucket, advance_self, front.taken, skipped]
    · rw [advance_other isBucket]
  exact { accepts with
    ids := fun other => (accepts.ids other).trans (same other).symm
    counts := fun other => (accepts.counts other).trans (congrArg _ (same other).symm) }

/-- Counts in a map after one entry is set. -/
theorem getD_update {Key : Type} [DecidableEq Key] (counts : Key → Option Nat)
    (key other : Key) (count : Nat) :
    (update counts key (some count) other).getD 0 =
      if other = key then count else (counts other).getD 0 := by
  by_cases same : other = key
  · rw [if_pos same, same, update_self, Option.getD_some]
  · rw [if_neg same, update_of_ne same]

/-- A successful candidate is accepted while its bucket has room. -/
theorem Accepts.accept (accepts : Accepts success targets history committed collector)
    (sameTargets : collector.bucketTargets = targets)
    (unique : (history.observed.map Observation.id).Nodup) (member : candidate ∈ history.observed)
    (front : Front history committed candidate.bucket candidate.id rest)
    (succeeded : success candidate.id = true) (already : Nat) :
    ∃ acceptedByBucket acceptedCandidateIds intraChain crossChain,
      (collector.acceptCandidate candidate.bucket candidate.id candidate.sample
        already).2 = { collector with
          acceptedByBucket := acceptedByBucket
          acceptedCandidateIds := acceptedCandidateIds
          intraChain := intraChain
          crossChain := crossChain } ∧
      Accepts success targets history (advance committed candidate.bucket)
        { collector with
          acceptedByBucket := acceptedByBucket
          acceptedCandidateIds := acceptedCandidateIds
          intraChain := intraChain
          crossChain := crossChain } := by
  have sameTarget : collector.target candidate.bucket =
      (targets.lookup candidate.bucket).getD 0 := by rw [target, sameTargets]
  have counted := accepts.counts candidate.bucket
  by_cases full : collector.target candidate.bucket ≤ collector.accepted candidate.bucket
  · have skipped := accepts.skip front (firstSuccesses_full candidate.id (by
      rw [← counted, ← sameTarget]
      exact full))
    refine ⟨_, _, _, _, by rw [acceptCandidate, if_pos full], ?_⟩
    exact { skipped with
      counts := by
        intro other
        rw [← skipped.counts other]
        refine Eq.trans (getD_update collector.acceptedByBucket _ _ _) ?_
        by_cases same : other = candidate.bucket
        · rw [if_pos same, same]
        · rw [if_neg same]
          rfl
      samples := fun pool => by
        have same := skipped.samples pool
        cases pool <;> exact same }
  · have grown : ∀ other, firstSuccesses success ((targets.lookup other).getD 0)
          ((history.idsOf other).take (advance committed candidate.bucket other)) =
        firstSuccesses success ((targets.lookup other).getD 0)
          ((history.idsOf other).take (committed other)) ++
            if other = candidate.bucket then [candidate.id] else [] := by
      intro other
      by_cases same : other = candidate.bucket
      · rw [same, if_pos rfl, advance_self, front.taken]
        apply firstSuccesses_open succeeded
        rw [← counted, ← sameTarget]
        omega
      · rw [if_neg same, advance_other same, append_nil]
    have bucketOf : ∀ other,
        candidate.id ∈ history.idsOf other ↔ other = candidate.bucket := by
      intro other
      rw [mem_idsOf]
      constructor
      · intro inside
        rcases inside with ⟨same, sameMember, isOther, sameId⟩
        rw [← isOther, inj_on_of_nodup_map unique sameMember member sameId]
      · intro isBucket
        exact ⟨candidate, member, isBucket.symm, rfl⟩
    have accepted : ∀ intraChain crossChain,
        (∀ pool, FastSampleCollector.samples { collector with
            intraChain := intraChain
            crossChain := crossChain } pool =
          collector.samples pool ++
            if candidate.bucket.pool = pool then [candidate.sample] else []) →
        Accepts success targets history (advance committed candidate.bucket)
          { collector with
            acceptedByBucket := update collector.acceptedByBucket candidate.bucket
              (some (collector.accepted candidate.bucket + 1))
            acceptedCandidateIds := collector.acceptedCandidateIds ++ [candidate.id]
            intraChain := intraChain
            crossChain := crossChain } := by
      intro intraChain crossChain sampled
      constructor
      case known =>
        intro id inside
        rcases mem_append.mp inside with old | new
        · exact accepts.known id old
        · exact mem_map.mpr ⟨candidate, member, (mem_singleton.mp new).symm⟩
      case ids =>
        intro other
        rw [filter_append, accepts.ids other, grown other]
        congr 1
        by_cases same : other = candidate.bucket <;> simp [bucketOf, same]
      case counts =>
        intro other
        rw [grown other, length_append, ← accepts.counts other]
        refine Eq.trans (getD_update collector.acceptedByBucket _ _ _) ?_
        by_cases same : other = candidate.bucket
        · simp [same]
        · simp [same, FastSampleCollector.accepted]
      case samples =>
        intro pool
        have before := sampled pool
        rw [filterMap_append, ← accepts.samples pool]
        cases pool <;>
        · refine before.trans (congrArg _ ?_)
          simp only [filterMap_cons, filterMap_nil,
            SampleHistory.sampleIn_of_mem unique member]
          split <;> rfl
    rw [acceptCandidate, if_neg full]
    cases poolEqual : candidate.bucket.pool with
    | intraChain | crossChain =>
        refine ⟨_, _, _, _, by rfl, accepted _ _ ?_⟩
        intro pool
        cases pool <;> simp [FastSampleCollector.samples, poolEqual]

/-- The collector after a commit, whatever became of the candidate. -/
private theorem Tracks.commits (tracks : Tracks success store targets history committed collector)
    (member : candidate ∈ history.observed)
    (queue : (history.idsOf candidate.bucket).drop (committed candidate.bucket) =
      candidate.id :: rest) (isReported : candidate.id ∈ history.reported)
    (viableByBucket acceptedByBucket : FastSampleBucket → Option Nat)
    (acceptedCandidateIds : List Nat) (intraChain crossChain : List MetadataImagePairSample)
    (viable : ∀ bucket, (viableByBucket bucket).getD 0 =
      ((history.idsOf bucket).drop (advance committed candidate.bucket bucket)).countP
        (history.viable success))
    (accepts : Accepts success targets history (advance committed candidate.bucket)
      { collector with
        acceptedByBucket := acceptedByBucket
        acceptedCandidateIds := acceptedCandidateIds
        intraChain := intraChain
        crossChain := crossChain }) :
    Tracks success store targets history (advance committed candidate.bucket)
      { collector with
        completed := update collector.completed candidate.id none
        commitOrderByBucket :=
          update collector.commitOrderByBucket candidate.bucket (some rest)
        uncommittedByBucket :=
          update collector.uncommittedByBucket candidate.bucket (some rest.length)
        uncommittedTotal := collector.uncommittedTotal - 1
        viableByBucket := viableByBucket
        acceptedByBucket := acceptedByBucket
        acceptedCandidateIds := acceptedCandidateIds
        intraChain := intraChain
        crossChain := crossChain } := by
  have front := front_of_queue queue
  have dropped : ∀ bucket,
      (history.idsOf bucket).drop (advance committed candidate.bucket bucket) =
        if bucket = candidate.bucket then rest
        else (history.idsOf bucket).drop (committed bucket) := by
    intro bucket
    by_cases same : bucket = candidate.bucket
    · rw [same, if_pos rfl, advance_self, front.dropped]
    · rw [if_neg same, advance_other same]
  have notInRest : candidate.id ∉ rest := by
    have nodup := (tracks.idsOf_nodup candidate.bucket).sublist
      (drop_sublist (committed candidate.bucket) _)
    rw [queue] at nodup
    exact (nodup_cons.mp nodup).1
  exact { tracks with
    committedLe := by
      intro bucket
      by_cases same : bucket = candidate.bucket
      · rw [same, advance_self]
        exact front.inside
      · rw [advance_other same]
        exact tracks.committedLe bucket
    committedReported := by
      intro bucket id inside
      by_cases same : bucket = candidate.bucket
      · rw [same, advance_self, front.taken, mem_append, mem_singleton] at inside
        rcases inside with old | isCandidate
        · exact tracks.committedReported _ id old
        · exact isCandidate ▸ isReported
      · rw [advance_other same] at inside
        exact tracks.committedReported bucket id inside
    queue := by
      intro bucket
      change (update collector.commitOrderByBucket candidate.bucket (some rest)
        bucket).getD [] = _
      rw [dropped]
      by_cases same : bucket = candidate.bucket
      · rw [if_pos same, same, update_self, Option.getD_some]
      · rw [if_neg same, update_of_ne same, tracks.queue]
    completed := by
      intro id entry
      change update collector.completed candidate.id none id = some entry ↔ _
      by_cases same : id = candidate.id
      · subst same
        rw [update_self]
        constructor
        · intro impossible
          cases impossible
        · intro completed
          rcases completed with ⟨other, otherMember, sameId, _, inQueue, _⟩
          rw [tracks.unique otherMember member sameId, dropped, if_pos rfl] at inQueue
          exact absurd inQueue notInRest
      · rw [update_of_ne same, tracks.completed]
        refine exists_congr fun other => and_congr_right fun _ =>
          and_congr_right fun sameId => and_congr_right fun _ => and_congr_left fun _ => ?_
        rw [dropped]
        by_cases inBucket : other.bucket = candidate.bucket
        · rw [if_pos inBucket, inBucket, queue, mem_cons]
          simp [same]
        · rw [if_neg inBucket]
    viable := viable
    uncommitted := by
      intro bucket
      refine Eq.trans (getD_update collector.uncommittedByBucket _ _ _) ?_
      rw [dropped]
      by_cases same : bucket = candidate.bucket
      · rw [if_pos same, if_pos same]
      · rw [if_neg same, if_neg same, tracks.uncommitted]
    total := by
      change collector.uncommittedTotal - 1 = _
      have one : ∑ bucket ∈ (targets.map Prod.fst).toFinset,
          (if bucket = candidate.bucket then 1 else 0) = 1 := by
        rw [Finset.sum_ite_eq', if_pos]
        exact mem_toFinset.mpr (tracks.inTargets candidate member)
      have split : ∑ bucket ∈ (targets.map Prod.fst).toFinset,
          ((history.idsOf bucket).drop (committed bucket)).length =
          (∑ bucket ∈ (targets.map Prod.fst).toFinset, ((history.idsOf bucket).drop
            (advance committed candidate.bucket bucket)).length) + 1 := by
        rw [← one, ← Finset.sum_add_distrib]
        apply Finset.sum_congr rfl
        intro bucket _
        rw [dropped]
        by_cases same : bucket = candidate.bucket
        · rw [if_pos same, if_pos same, same, queue, length_cons]
        · rw [if_neg same, if_neg same, Nat.add_zero]
      rw [tracks.total, split, Nat.add_sub_cancel]
    accepts := accepts.transfer rfl rfl rfl rfl }

/-- Committing a completed candidate never fails. -/
theorem Tracks.commitFront (tracks : Tracks success store targets history committed collector)
    (member : candidate ∈ history.observed)
    (queue : (history.idsOf candidate.bucket).drop (committed candidate.bucket) =
      candidate.id :: rest) (isReported : candidate.id ∈ history.reported) (already : Nat) :
    ∃ accepted next, collector.commitFront candidate.bucket candidate.id rest
        candidate.sample (success candidate.id) already = .ok (accepted, next) ∧
      Tracks success store targets history (advance committed candidate.bucket) next := by
  have front := front_of_queue queue
  have uncommitted := tracks.uncommitted candidate.bucket
  rw [queue, length_cons] at uncommitted
  have counted : ∃ count, collector.uncommittedByBucket candidate.bucket = some count ∧
      count = rest.length + 1 := by
    cases found : collector.uncommittedByBucket candidate.bucket with
    | none => simp [found] at uncommitted
    | some count => exact ⟨count, rfl, by simpa [found] using uncommitted⟩
  rcases counted with ⟨count, countFound, countEqual⟩
  have positive : collector.uncommittedTotal ≠ 0 := by
    rw [tracks.total]
    intro isZero
    rw [Finset.sum_eq_zero_iff] at isZero
    have empty := isZero candidate.bucket
      (mem_toFinset.mpr (tracks.inTargets candidate member))
    rw [queue] at empty
    simp at empty
  have viable := tracks.viable candidate.bucket
  rw [queue, countP_cons] at viable
  have stillViable : history.viable success candidate.id = success candidate.id := by
    simp [SampleHistory.viable, isReported]
  rw [stillViable] at viable
  have dropped : ∀ bucket,
      ((history.idsOf bucket).drop (advance committed candidate.bucket bucket)).countP
          (history.viable success) =
        if bucket = candidate.bucket then rest.countP (history.viable success)
        else ((history.idsOf bucket).drop (committed bucket)).countP
          (history.viable success) := by
    intro bucket
    by_cases same : bucket = candidate.bucket
    · rw [if_pos same, same, advance_self, front.dropped]
    · rw [if_neg same, advance_other same]
  cases succeeded : success candidate.id with
  | false =>
      rw [succeeded] at viable
      have unchanged := tracks.commits member queue isReported collector.viableByBucket
        collector.acceptedByBucket collector.acceptedCandidateIds collector.intraChain
        collector.crossChain
        (by
          intro bucket
          rw [dropped]
          by_cases same : bucket = candidate.bucket
          · rw [if_pos same, same, viable]
            simp
          · rw [if_neg same, tracks.viable])
        (tracks.accepts.skip front (firstSuccesses_failed succeeded))
      refine ⟨already, _, ?_, unchanged⟩
      simp only [FastSampleCollector.commitFront, countFound, countEqual, expectEntry,
        ok_bind, checkedDecrement, Nat.succ_ne_zero, if_false, if_neg positive,
        Nat.add_sub_cancel, Bool.not_false, if_true]
  | true =>
      rw [succeeded, if_pos rfl] at viable
      let base := { collector with
        completed := update collector.completed candidate.id none
        commitOrderByBucket :=
          update collector.commitOrderByBucket candidate.bucket (some rest)
        uncommittedByBucket :=
          update collector.uncommittedByBucket candidate.bucket (some rest.length)
        uncommittedTotal := collector.uncommittedTotal - 1 }
      let counted := { base with
        viableByBucket := update collector.viableByBucket candidate.bucket
          (some (rest.countP (history.viable success))) }
      have step : collector.commitFront candidate.bucket candidate.id rest candidate.sample
          true already = .ok (counted.acceptCandidate candidate.bucket candidate.id
            candidate.sample already) := by
        simp only [FastSampleCollector.commitFront, countFound, countEqual, expectEntry,
          ok_bind, checkedDecrement, Nat.succ_ne_zero, if_false, if_neg positive,
          Nat.add_sub_cancel, Bool.not_true, Bool.false_eq_true]
        rw [decreaseViable_eq base viable]
        rfl
      have accepts : Accepts success targets history committed counted :=
        tracks.accepts.transfer rfl rfl rfl rfl
      rcases accepts.accept tracks.sameTargets tracks.ids member front succeeded already with
        ⟨acceptedByBucket, acceptedCandidateIds, intraChain, crossChain, equal, after⟩
      generalize counted.acceptCandidate candidate.bucket candidate.id candidate.sample
        already = outcome at step equal
      rcases outcome with ⟨accepted, next⟩
      refine ⟨accepted, next, step, ?_⟩
      rw [show next = _ from equal]
      apply tracks.commits member queue isReported
      · intro bucket
        rw [dropped]
        refine (getD_update collector.viableByBucket _ _ _).trans ?_
        by_cases same : bucket = candidate.bucket
        · rw [if_pos same, if_pos same]
        · rw [if_neg same, if_neg same, tracks.viable]
      · exact after.transfer rfl rfl rfl rfl

def Settled (history : SampleHistory) (committed : FastSampleBucket → Nat)
    (bucket : FastSampleBucket) : Prop :=
  ∀ id ∈ ((history.idsOf bucket).drop (committed bucket)).head?, id ∉ history.reported

/-- Committing a queue stops at the first candidate that is still in flight and
leaves the other queues alone. -/
theorem Tracks.commitQueue (bucket : FastSampleBucket) (queue : List Nat) :
    ∀ {committed : FastSampleBucket → Nat} {collector : FastSampleCollector}
      (already : Nat), Tracks success store targets history committed collector →
      (history.idsOf bucket).drop (committed bucket) = queue →
      ∃ accepted next committed',
        commitQueue bucket queue (already, collector) = .ok (accepted, next) ∧
        Tracks success store targets history committed' next ∧
        Settled history committed' bucket ∧
        ∀ other, other ≠ bucket → committed' other = committed other := by
  induction queue with
  | nil =>
      intro committed collector already tracks queue
      refine ⟨already, collector, committed, rfl, tracks, ?_, fun _ _ => rfl⟩
      rw [Settled, queue]
      simp
  | cons id rest induction =>
      intro committed collector already tracks queue
      have inIds : id ∈ history.idsOf bucket :=
        mem_of_mem_drop (queue ▸ mem_cons_self)
      rcases mem_idsOf.mp inIds with ⟨candidate, member, inBucket, sameId⟩
      subst inBucket sameId
      by_cases isReported : candidate.id ∈ history.reported
      · have completed : collector.completed candidate.id =
            some (candidate.bucket, candidate.sample, success candidate.id) :=
          (tracks.completed _ _).mpr ⟨candidate, member, rfl, isReported,
            queue ▸ mem_cons_self, rfl⟩
        rcases tracks.commitFront member queue isReported already with
          ⟨accepted, middle, frontOk, middleTracks⟩
        have middleQueue : (history.idsOf candidate.bucket).drop
            (advance committed candidate.bucket candidate.bucket) = rest := by
          rw [advance_self, (front_of_queue queue).dropped]
        rcases induction accepted middleTracks middleQueue with
          ⟨final, next, committed', restOk, nextTracks, settled, others⟩
        refine ⟨final, next, committed', ?_, nextTracks, settled, ?_⟩
        · rw [FastSampleCollector.commitQueue, completed]
          simp only [ne_eq, not_true_eq_false, if_false, frontOk, ok_bind]
          exact restOk
        · intro other different
          rw [others other different, advance_other different]
      · have inFlight : collector.completed candidate.id = none := by
          apply Option.eq_none_iff_forall_ne_some.mpr
          intro entry found
          rcases (tracks.completed _ _).mp found with ⟨_, _, _, reported, _⟩
          exact isReported reported
        refine ⟨already, collector, committed, ?_, tracks, ?_, fun _ _ => rfl⟩
        · rw [FastSampleCollector.commitQueue, inFlight]
        · rw [Settled, queue]
          intro id isFront
          rw [← Option.some.inj isFront]
          exact isReported

theorem Tracks.commitBuckets (buckets : List FastSampleBucket) :
    ∀ {committed : FastSampleBucket → Nat} {collector : FastSampleCollector}
      (already : Nat), Tracks success store targets history committed collector →
      ∃ accepted next committed',
        buckets.foldlM commitBucket (already, collector) = .ok (accepted, next) ∧
        Tracks success store targets history committed' next ∧
        (∀ bucket ∈ buckets, Settled history committed' bucket) ∧
        ∀ bucket, bucket ∉ buckets → committed' bucket = committed bucket := by
  induction buckets with
  | nil =>
      intro committed collector already tracks
      exact ⟨already, collector, committed, rfl, tracks, by simp, fun _ _ => rfl⟩
  | cons bucket buckets induction =>
      intro committed collector already tracks
      rcases tracks.commitQueue bucket _ already rfl with
        ⟨accepted, middle, middleCommitted, bucketOk, middleTracks, settled, others⟩
      rcases induction accepted middleTracks with
        ⟨final, next, committed', restOk, nextTracks, restSettled, unchanged⟩
      refine ⟨final, next, committed', ?_, nextTracks, ?_, ?_⟩
      · rw [foldlM_cons, commitBucket, tracks.queue, bucketOk, ok_bind]
        exact restOk
      · intro other otherMember
        rcases mem_cons.mp otherMember with isBucket | inRest
        · by_cases again : other ∈ buckets
          · exact restSettled other again
          · rw [Settled, unchanged other again, isBucket]
            exact settled
        · exact restSettled other inRest
      · intro other notMember
        rw [mem_cons, not_or] at notMember
        rw [unchanged other notMember.2, others other notMember.1]

/-- What the sink may report: submitted candidates that it has not reported yet,
each once. -/
structure Reports (success : Nat → Bool) (history : SampleHistory)
    (results : List MetadataSampleDownloadResult) : Prop where
  once : (results.map MetadataSampleDownloadResult.id).Nodup
  submitted : ∀ result ∈ results, result.id ∈ history.observed.map Observation.id
  unreported : ∀ result ∈ results, result.id ∉ history.reported
  outcome : ∀ result ∈ results, result.success = success result.id

end NftData.Dedup.FastSampleCollector
