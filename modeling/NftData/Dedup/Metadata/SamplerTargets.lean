import NftData.Dedup.Metadata.Sampler

namespace NftData.Dedup

/-! # Bucket targets

A bucket that cannot reach its target hands its deficit to the full buckets of its
pool: an equal share to each, and one more to as many as the remainder asks for. -/

open List

variable {bucket : FastSampleBucket} {recipients : List FastSampleBucket}

namespace BucketTargets

/-- Change the target of a bucket in place. The buckets that are changed are read from
the list itself, so the `expect` on their position never fails. -/
def update : BucketTargets → FastSampleBucket → (Nat → Nat) → BucketTargets
  | [], _, _ => []
  | (candidate, target) :: rest, bucket, change =>
      if candidate = bucket then (candidate, change target) :: rest
      else (candidate, target) :: update rest bucket change

def target (targets : BucketTargets) (bucket : FastSampleBucket) : Nat :=
  (targets.lookup bucket).getD 0

def buckets (targets : BucketTargets) : List FastSampleBucket := targets.map Prod.fst

def poolSum (targets : BucketTargets) (pool : MetadataSamplePool) : Nat :=
  ((targets.filter fun entry => entry.1.pool = pool).map Prod.snd).sum

def addAll (targets : BucketTargets) (recipients : List FastSampleBucket) (amount : Nat) :
    BucketTargets :=
  recipients.foldl (fun targets recipient => update targets recipient (· + amount)) targets

variable {targets : BucketTargets}

theorem target_cons (candidate : FastSampleBucket) (current : Nat) (rest : BucketTargets)
    (bucket : FastSampleBucket) :
    target ((candidate, current) :: rest) bucket =
      if bucket = candidate then current else target rest bucket := by
  rw [target, lookup_cons]
  by_cases same : bucket = candidate
  · rw [if_pos same, same, beq_self_eq_true]
    rfl
  · rw [if_neg same, beq_eq_false_iff_ne.mpr same]
    rfl

theorem buckets_update (bucket : FastSampleBucket) (change : Nat → Nat) :
    (update targets bucket change).buckets = targets.buckets := by
  induction targets with
  | nil => rfl
  | cons entry rest induction =>
      rcases entry with ⟨candidate, target⟩
      rw [update]
      split
      · rfl
      · change candidate :: buckets _ = candidate :: buckets rest
        rw [induction]

theorem target_update (member : bucket ∈ targets.buckets) (change : Nat → Nat)
    (other : FastSampleBucket) :
    (update targets bucket change).target other =
      if other = bucket then change (targets.target bucket) else targets.target other := by
  induction targets with
  | nil => simp [buckets] at member
  | cons entry rest induction =>
      rcases entry with ⟨candidate, current⟩
      rw [update]
      by_cases isHead : candidate = bucket
      · rw [if_pos isHead, target_cons, target_cons, target_cons, isHead, if_pos rfl]
        split <;> rfl
      · have inRest : bucket ∈ buckets rest := by
          rcases mem_cons.mp member with here | there
          · exact absurd here.symm isHead
          · exact there
        rw [if_neg isHead, target_cons, target_cons, target_cons, induction inRest,
          if_neg (Ne.symm isHead)]
        by_cases same : other = candidate
        · rw [if_pos same, if_pos same, if_neg (same ▸ isHead)]
        · rw [if_neg same, if_neg same]

theorem poolSum_update (member : bucket ∈ targets.buckets) (change : Nat → Nat)
    (pool : MetadataSamplePool) :
    (update targets bucket change).poolSum pool +
        (if bucket.pool = pool then targets.target bucket else 0) =
      targets.poolSum pool +
        (if bucket.pool = pool then change (targets.target bucket) else 0) := by
  induction targets with
  | nil => simp [buckets] at member
  | cons entry rest induction =>
      rcases entry with ⟨candidate, current⟩
      have split : ∀ (value : Nat) (entries : BucketTargets),
          poolSum ((candidate, value) :: entries) pool =
            (if candidate.pool = pool then value else 0) + poolSum entries pool := by
        intro value entries
        by_cases inPool : candidate.pool = pool <;> simp [poolSum, inPool]
      rw [update]
      by_cases isHead : candidate = bucket
      · rw [if_pos isHead, split, split, target_cons, if_pos isHead.symm, isHead]
        omega
      · have inRest : bucket ∈ buckets rest := by
          rcases mem_cons.mp member with here | there
          · exact absurd here.symm isHead
          · exact there
        have before := induction inRest
        rw [if_neg isHead, split, split, target_cons, if_neg (Ne.symm isHead)]
        omega

theorem buckets_addAll (recipients : List FastSampleBucket) (amount : Nat) :
    (addAll targets recipients amount).buckets = targets.buckets := by
  induction recipients generalizing targets with
  | nil => rfl
  | cons recipient recipients induction =>
      exact induction.trans (buckets_update recipient _)

theorem members_update {recipient : FastSampleBucket}
    (members : ∀ other ∈ recipient :: recipients, other ∈ targets.buckets) (change : Nat → Nat) :
    ∀ other ∈ recipients, other ∈ (update targets recipient change).buckets := by
  rw [buckets_update]
  exact fun other member => members other (mem_cons_of_mem _ member)

theorem target_addAll (members : ∀ recipient ∈ recipients, recipient ∈ targets.buckets)
    (amount : Nat) (bucket : FastSampleBucket) :
    (addAll targets recipients amount).target bucket =
      targets.target bucket + recipients.count bucket * amount := by
  induction recipients generalizing targets with
  | nil => simp [addAll]
  | cons recipient recipients induction =>
      have member := members recipient mem_cons_self
      have rest := members_update members (· + amount)
      refine (induction rest).trans ?_
      rw [target_update member, count_cons]
      by_cases same : bucket = recipient
      · rw [if_pos same, same]
        simp only [beq_self_eq_true, if_true, Nat.add_mul, Nat.one_mul]
        omega
      · rw [if_neg same]
        simp [Ne.symm same]

theorem poolSum_addAll (members : ∀ recipient ∈ recipients, recipient ∈ targets.buckets)
    (amount : Nat) (pool : MetadataSamplePool) :
    (addAll targets recipients amount).poolSum pool =
      targets.poolSum pool +
        (recipients.countP fun recipient => recipient.pool = pool) * amount := by
  induction recipients generalizing targets with
  | nil => simp [addAll]
  | cons recipient recipients induction =>
      have member := members recipient mem_cons_self
      have rest := members_update members (· + amount)
      have step := poolSum_update member (· + amount) pool
      refine (induction rest).trans ?_
      rw [countP_cons]
      by_cases inPool : recipient.pool = pool
      · simp only [inPool, if_true, decide_true, Nat.add_mul, Nat.one_mul] at step ⊢
        omega
      · simp only [inPool, if_false, decide_false, Bool.false_eq_true, Nat.add_zero]
          at step ⊢
        rw [step]

end BucketTargets

/-- The visiting order of a random permutation, by its salt and its length. -/
abbrev PermutationOrder := Nat → Nat → List Nat

def PermutationOrder.IsPermutation (order : PermutationOrder) : Prop :=
  ∀ salt length, (order salt length).Perm (List.range length)

/-- The order visits a position first wherever it can. -/
def PermutationOrder.Favours (order : PermutationOrder) (position : Nat) : Prop :=
  ∀ salt length, position < length → (order salt length).head? = some position

namespace FastSampleCollector

def bucketIsFull (collector : FastSampleCollector) (bucket : FastSampleBucket) : Bool :=
  decide (collector.target bucket ≤ collector.accepted bucket)

def complete (collector : FastSampleCollector) : Bool :=
  collector.bucketTargets.all fun (bucket, target) =>
    decide (target ≤ collector.accepted bucket)

def pendingCount (collector : FastSampleCollector) (bucket : FastSampleBucket) : Nat :=
  (collector.uncommittedByBucket bucket).getD 0

def remainderRecipients (order : PermutationOrder) (ordinal : Nat)
    (recipients : List FastSampleBucket) (remainder : Nat) : List FastSampleBucket :=
  ((order ordinal recipients.length).take remainder).filterMap (recipients[·]?)

def redistributeExhaustedBucket (order : PermutationOrder)
    (collector : FastSampleCollector) (bucket : FastSampleBucket)
    (recipients : List FastSampleBucket) : Bool × FastSampleCollector :=
  if recipients.isEmpty || decide (collector.pendingCount bucket ≠ 0) then
    (false, collector)
  else
    let accepted := collector.accepted bucket
    let deficit := collector.target bucket - accepted
    if deficit = 0 then
      (false, collector)
    else
      let lowered := collector.bucketTargets.update bucket fun _ => accepted
      let shared := lowered.addAll recipients (deficit / recipients.length)
      let remainder := remainderRecipients order collector.redistributionOrdinal recipients
        (deficit % recipients.length)
      (true, { collector with
        bucketTargets := shared.addAll remainder 1
        redistributionOrdinal := collector.redistributionOrdinal + 1 })

def incompleteBuckets (collector : FastSampleCollector) : List FastSampleBucket :=
  (collector.bucketTargets.map Prod.fst).filter fun bucket =>
    !collector.bucketIsFull bucket

def recipientsOf (collector : FastSampleCollector) (incomplete : List FastSampleBucket)
    (bucket : FastSampleBucket) : List FastSampleBucket :=
  (collector.bucketTargets.map Prod.fst).filter fun candidate =>
    decide (candidate.pool = bucket.pool) && decide (candidate ≠ bucket) &&
      !decide (candidate ∈ incomplete)

def redistributeStep (order : PermutationOrder) (incomplete : List FastSampleBucket)
    (state : Bool × FastSampleCollector) (bucket : FastSampleBucket) :
    Bool × FastSampleCollector :=
  let recipients := state.2.recipientsOf incomplete bucket
  let (moved, collector) := state.2.redistributeExhaustedBucket order bucket recipients
  (state.1 || moved, collector)

/-- Every bucket that was incomplete when the round ended hands on its deficit. -/
def redistribute (order : PermutationOrder) (collector : FastSampleCollector) :
    Bool × FastSampleCollector :=
  collector.incompleteBuckets.foldl
    (redistributeStep order collector.incompleteBuckets) (false, collector)

/-! ## Shares -/

def largestShare (deficit recipients : Nat) : Nat :=
  deficit / recipients + if deficit % recipients = 0 then 0 else 1

section Shares

variable {order : PermutationOrder} {recipients : List FastSampleBucket} {remainder ordinal : Nat}

theorem remainderRecipients_subset
    (member : bucket ∈ remainderRecipients order ordinal recipients remainder) :
    bucket ∈ recipients := by
  rcases mem_filterMap.mp member with ⟨position, _, found⟩
  exact mem_of_getElem? found

theorem remainderRecipients_nodup (isOrder : order.IsPermutation)
    (nodup : recipients.Nodup) (ordinal remainder : Nat) :
    (remainderRecipients order ordinal recipients remainder).Nodup := by
  have positions : ((order ordinal recipients.length).take remainder).Nodup :=
    ((isOrder ordinal recipients.length).nodup_iff.mpr nodup_range).sublist
      (take_sublist _ _)
  apply positions.filterMap
  intro left right bucket leftAt rightAt
  rcases List.getElem?_eq_some_iff.mp leftAt with ⟨leftInside, leftEqual⟩
  rcases List.getElem?_eq_some_iff.mp rightAt with ⟨rightInside, rightEqual⟩
  exact nodup.getElem_inj_iff.mp (leftEqual.trans rightEqual.symm)

theorem remainderRecipients_length (isOrder : order.IsPermutation)
    (few : remainder ≤ recipients.length) :
    (remainderRecipients order ordinal recipients remainder).length = remainder := by
  have perm := isOrder ordinal recipients.length
  have inside : ∀ position ∈ (order ordinal recipients.length).take remainder,
      (recipients[position]?).isSome := by
    intro position member
    have := perm.mem_iff.mp (mem_of_mem_take member)
    rw [mem_range] at this
    simp [this]
  rw [remainderRecipients, length_filterMap_eq_countP, countP_eq_length.mpr inside,
    length_take, perm.length_eq, length_range]
  omega

variable {collector : FastSampleCollector} {bucket : FastSampleBucket}

/-- A full bucket gains at most the largest share, the deficit is handed on whole, and
nothing else changes. -/
structure HandedOn (order : PermutationOrder) (recipients : List FastSampleBucket)
    (bucket : FastSampleBucket) (collector next : FastSampleCollector) : Prop where
  frame : ∃ targets ordinal, next = { collector with
    bucketTargets := targets, redistributionOrdinal := ordinal }
  buckets : next.bucketTargets.buckets = collector.bucketTargets.buckets
  lowered : next.target bucket = collector.accepted bucket
  shared : ∀ recipient ∈ recipients, next.target recipient = collector.target recipient +
    (collector.target bucket - collector.accepted bucket) / recipients.length +
    (remainderRecipients order collector.redistributionOrdinal recipients
      ((collector.target bucket - collector.accepted bucket) %
        recipients.length)).count recipient
  others : ∀ other, other ≠ bucket → other ∉ recipients →
    next.target other = collector.target other
  conserved : ∀ pool, (∀ recipient ∈ recipients, recipient.pool = bucket.pool) →
    next.bucketTargets.poolSum pool = collector.bucketTargets.poolSum pool

theorem redistributeExhaustedBucket_spec (isOrder : order.IsPermutation)
    (nodup : recipients.Nodup) (nonempty : recipients ≠ []) (notSelf : bucket ∉ recipients)
    (members : ∀ recipient ∈ recipients, recipient ∈ collector.bucketTargets.buckets)
    (member : bucket ∈ collector.bucketTargets.buckets)
    (idle : collector.pendingCount bucket = 0)
    (short : collector.accepted bucket < collector.target bucket) :
    ∃ next, collector.redistributeExhaustedBucket order bucket recipients = (true, next) ∧
      HandedOn order recipients bucket collector next := by
  have positive : 0 < recipients.length := length_pos_iff.mpr nonempty
  have deficitPositive : collector.target bucket - collector.accepted bucket ≠ 0 := by omega
  unfold redistributeExhaustedBucket
  rw [if_neg (by simp [nonempty, idle])]
  simp only [if_neg deficitPositive]
  refine ⟨_, rfl, ⟨_, _, rfl⟩, ?_, ?_, ?_, ?_, ?_⟩
  · rw [BucketTargets.buckets_addAll, BucketTargets.buckets_addAll,
      BucketTargets.buckets_update]
  all_goals
    generalize deficitEqual : collector.target bucket - collector.accepted bucket = deficit
      at *
    generalize remainderEqual : remainderRecipients order collector.redistributionOrdinal
      recipients (deficit % recipients.length) = remainder
    have remainderSubset : ∀ recipient ∈ remainder, recipient ∈ recipients := by
      intro recipient inside
      rw [← remainderEqual] at inside
      exact remainderRecipients_subset inside
    have loweredMembers : ∀ recipient ∈ recipients, recipient ∈
        (collector.bucketTargets.update bucket fun _ => collector.accepted bucket).buckets :=
      fun recipient inside =>
        (BucketTargets.buckets_update bucket _).symm ▸ members recipient inside
    have sharedMembers : ∀ recipient ∈ remainder, recipient ∈
        ((collector.bucketTargets.update bucket fun _ => collector.accepted bucket).addAll
          recipients (deficit / recipients.length)).buckets :=
      fun recipient inside => (BucketTargets.buckets_addAll recipients _).symm ▸
        loweredMembers recipient (remainderSubset recipient inside)
    have value : ∀ other, (((collector.bucketTargets.update bucket fun _ =>
        collector.accepted bucket).addAll recipients
          (deficit / recipients.length)).addAll remainder 1).target other =
        (if other = bucket then collector.accepted bucket else collector.target other) +
          recipients.count other * (deficit / recipients.length) +
          remainder.count other := by
      intro other
      rw [BucketTargets.target_addAll sharedMembers,
        BucketTargets.target_addAll loweredMembers, BucketTargets.target_update member,
        Nat.mul_one]
      rfl
  · refine (value bucket).trans ?_
    rw [if_pos rfl, count_eq_zero_of_not_mem notSelf,
      count_eq_zero_of_not_mem fun inside => notSelf (remainderSubset _ inside)]
    omega
  · intro recipient inside
    have different : recipient ≠ bucket := fun same => notSelf (same ▸ inside)
    refine (value recipient).trans ?_
    rw [if_neg different, count_eq_one_of_mem nodup inside, Nat.one_mul]
  · intro other different outside
    refine (value other).trans ?_
    rw [if_neg different, count_eq_zero_of_not_mem outside,
      count_eq_zero_of_not_mem fun inside => outside (remainderSubset _ inside)]
    omega
  · intro pool samePool
    have step := BucketTargets.poolSum_update member
      (fun _ => collector.accepted bucket) pool
    refine (BucketTargets.poolSum_addAll sharedMembers 1 pool).trans ?_
    rw [BucketTargets.poolSum_addAll loweredMembers]
    have remainderLength : remainder.length = deficit % recipients.length := by
      rw [← remainderEqual]
      exact remainderRecipients_length isOrder (Nat.mod_lt _ positive).le
    have whole := Nat.div_add_mod deficit recipients.length
    have target : collector.bucketTargets.target bucket = collector.target bucket := rfl
    by_cases inPool : bucket.pool = pool
    · have all : ∀ entries : List FastSampleBucket, (∀ entry ∈ entries, entry ∈ recipients) →
          (entries.countP fun entry => entry.pool = pool) = entries.length := by
        intro entries subset
        apply countP_eq_length.mpr
        intro entry inside
        simpa using (samePool entry (subset entry inside)).trans inPool
      rw [all recipients fun _ inside => inside, all remainder remainderSubset,
        remainderLength]
      rw [if_pos inPool, if_pos inPool, target] at step
      omega
    · have none : ∀ entries : List FastSampleBucket,
          (∀ entry ∈ entries, entry ∈ recipients) →
          (entries.countP fun entry => entry.pool = pool) = 0 := by
        intro entries subset
        apply countP_eq_zero.mpr
        intro entry inside
        have := samePool entry (subset entry inside)
        simpa [this] using inPool
      rw [none recipients fun _ inside => inside, none remainder remainderSubset]
      rw [if_neg inPool, if_neg inPool] at step
      omega

end Shares

/-! ## A whole redistribution -/

def fullIn (collector : FastSampleCollector) (incomplete : List FastSampleBucket)
    (pool : MetadataSamplePool) : List FastSampleBucket :=
  (collector.bucketTargets.map Prod.fst).filter fun candidate =>
    decide (candidate.pool = pool) && !decide (candidate ∈ incomplete)

/-- The most a full bucket can get of the deficits of some incomplete buckets. -/
def received (collector : FastSampleCollector) (incomplete short : List FastSampleBucket)
    (bucket : FastSampleBucket) : Nat :=
  ((short.filter fun other => other.pool = bucket.pool).map fun other =>
    largestShare (collector.target other - collector.accepted other)
      (collector.fullIn incomplete bucket.pool).length).sum

section Redistribute

variable {order : PermutationOrder} {collector : FastSampleCollector}
  {incomplete : List FastSampleBucket}

theorem recipientsOf_eq (member : bucket ∈ incomplete) :
    collector.recipientsOf incomplete bucket = collector.fullIn incomplete bucket.pool := by
  apply filter_congr
  intro candidate _
  by_cases same : candidate = bucket
  · simp [same, member]
  · simp [same]

theorem mem_fullIn {pool : MetadataSamplePool} :
    bucket ∈ collector.fullIn incomplete pool ↔
      bucket ∈ collector.bucketTargets.buckets ∧ bucket.pool = pool ∧
        bucket ∉ incomplete := by
  simp [fullIn, BucketTargets.buckets, mem_filter]

/-- A recipient the order favours gets the largest share. -/
theorem share_of_favoured (isOrder : order.IsPermutation) (nodup : recipients.Nodup)
    {position : Nat} (favours : order.Favours position)
    (found : recipients[position]? = some bucket) (ordinal deficit : Nat) :
    deficit / recipients.length +
        (remainderRecipients order ordinal recipients
          (deficit % recipients.length)).count bucket =
      largestShare deficit recipients.length := by
  rw [largestShare]
  congr 1
  by_cases even : deficit % recipients.length = 0
  · simp [remainderRecipients, even]
  · rw [if_neg even]
    have inside := (List.getElem?_eq_some_iff.mp found).1
    have first := favours ordinal recipients.length inside
    cases visited : order ordinal recipients.length with
    | nil => simp [visited] at first
    | cons head rest =>
        rw [visited, List.head?_cons, Option.some.injEq] at first
        rcases Nat.exists_eq_succ_of_ne_zero even with ⟨remainder, equal⟩
        apply count_eq_one_of_mem (remainderRecipients_nodup isOrder nodup _ _)
        rw [remainderRecipients, visited, equal, take_succ_cons, first]
        exact mem_filterMap.mpr ⟨position, mem_cons_self, found⟩

theorem share_le (isOrder : order.IsPermutation) (nodup : recipients.Nodup)
    (bucket : FastSampleBucket) (ordinal deficit : Nat) :
    deficit / recipients.length +
        (remainderRecipients order ordinal recipients
          (deficit % recipients.length)).count bucket ≤
      largestShare deficit recipients.length := by
  rw [largestShare]
  apply Nat.add_le_add_left
  by_cases even : deficit % recipients.length = 0
  · simp [remainderRecipients, even]
  · rw [if_neg even]
    exact nodup_iff_count_le_one.mp (remainderRecipients_nodup isOrder nodup _ _) bucket

/-- What handing on the deficits of some incomplete buckets does to the targets. -/
structure Redistributed (order : PermutationOrder)
    (incomplete short : List FastSampleBucket) (collector next : FastSampleCollector) :
    Prop where
  frame : ∃ targets ordinal, next = { collector with
    bucketTargets := targets, redistributionOrdinal := ordinal }
  buckets : next.bucketTargets.buckets = collector.bucketTargets.buckets
  lowered : ∀ bucket ∈ short, collector.fullIn incomplete bucket.pool ≠ [] →
    next.target bucket = collector.accepted bucket
  kept : ∀ bucket ∈ incomplete,
    bucket ∉ short ∨ collector.fullIn incomplete bucket.pool = [] →
    next.target bucket = collector.target bucket
  grown : ∀ bucket ∈ collector.bucketTargets.buckets, bucket ∉ incomplete →
    collector.target bucket ≤ next.target bucket ∧
      next.target bucket ≤
        collector.target bucket + collector.received incomplete short bucket
  favoured : ∀ bucket position, order.Favours position →
    (collector.fullIn incomplete bucket.pool)[position]? = some bucket →
    next.target bucket =
      collector.target bucket + collector.received incomplete short bucket
  conserved : ∀ pool,
    next.bucketTargets.poolSum pool = collector.bucketTargets.poolSum pool

variable {next : FastSampleCollector}

theorem fullIn_congr (incomplete : List FastSampleBucket)
    (same : next.bucketTargets.buckets = collector.bucketTargets.buckets)
    (pool : MetadataSamplePool) :
    next.fullIn incomplete pool = collector.fullIn incomplete pool :=
  congrArg (List.filter _) same

theorem received_cons (bucket : FastSampleBucket) (short : List FastSampleBucket)
    (other : FastSampleBucket) :
    collector.received incomplete (bucket :: short) other =
      (if bucket.pool = other.pool then
        largestShare (collector.target bucket - collector.accepted bucket)
          (collector.fullIn incomplete other.pool).length
      else 0) + collector.received incomplete short other := by
  by_cases samePool : bucket.pool = other.pool <;> simp [received, samePool]

variable {short : List FastSampleBucket}

theorem received_congr (same : next.bucketTargets.buckets = collector.bucketTargets.buckets)
    (deficits : ∀ other ∈ short, next.target other - next.accepted other =
      collector.target other - collector.accepted other) (bucket : FastSampleBucket) :
    next.received incomplete short bucket = collector.received incomplete short bucket := by
  rw [received, received, fullIn_congr incomplete same]
  congr 1
  apply map_congr_left
  intro other member
  rw [deficits other (mem_filter.mp member).1]

/-- A bucket without recipients keeps its deficit. -/
theorem Redistributed.cons_nobody (nobody : collector.fullIn incomplete bucket.pool = [])
    (rest : Redistributed order incomplete short collector next) :
    Redistributed order incomplete (bucket :: short) collector next :=
  { rest with
    lowered := by
      intro other inside someone
      rcases mem_cons.mp inside with isBucket | inRest
      · exact absurd nobody (isBucket ▸ someone)
      · exact rest.lowered other inRest someone
    kept := by
      intro other otherIncomplete untouched
      apply rest.kept other otherIncomplete
      exact untouched.imp_left fun outside inRest =>
        outside (mem_cons_of_mem _ inRest)
    grown := by
      intro other member isFull
      have bounds := rest.grown other member isFull
      rw [received_cons]
      exact ⟨bounds.1, bounds.2.trans (by omega)⟩
    favoured := by
      intro other position favours found
      have otherPool : bucket.pool ≠ other.pool := by
        intro samePool
        rw [← samePool, nobody] at found
        cases found
      rw [received_cons, if_neg otherPool, Nat.zero_add]
      exact rest.favoured other position favours found }

/-- A bucket with recipients hands its deficit on. -/
theorem Redistributed.cons_handed (isOrder : order.IsPermutation) {middle : FastSampleCollector}
    (nodup : collector.bucketTargets.buckets.Nodup)
    (someone : collector.fullIn incomplete bucket.pool ≠ []) (notAgain : bucket ∉ short)
    (isIncomplete : bucket ∈ incomplete) (restIncomplete : ∀ other ∈ short, other ∈ incomplete)
    (handed : HandedOn order (collector.fullIn incomplete bucket.pool) bucket collector
      middle) (rest : Redistributed order incomplete short middle next) :
    Redistributed order incomplete (bucket :: short) collector next := by
  rcases handed.frame with ⟨targets, ordinal, middleEqual⟩
  rcases rest.frame with ⟨nextTargets, nextOrdinal, nextEqual⟩
  have fullNodup : (collector.fullIn incomplete bucket.pool).Nodup := nodup.filter _
  have sameAccepted : ∀ other, middle.accepted other = collector.accepted other := by
    intro other
    rw [middleEqual]
    rfl
  have notRecipient : ∀ other ∈ incomplete, ∀ pool,
      other ∉ collector.fullIn incomplete pool :=
    fun other inside pool full => (mem_fullIn.mp full).2.2 inside
  have sameTarget : ∀ other ∈ incomplete, other ≠ bucket →
      middle.target other = collector.target other :=
    fun other inside different =>
      handed.others other different (notRecipient other inside _)
  have sameFull := fullIn_congr incomplete handed.buckets
  have sameReceived : ∀ other, middle.received incomplete short other =
      collector.received incomplete short other :=
    received_congr handed.buckets fun other inside => by
      rw [sameAccepted, sameTarget other (restIncomplete other inside)
        fun same => notAgain (same ▸ inside)]
  have gained : ∀ other, other ∈ collector.bucketTargets.buckets → other ∉ incomplete →
      middle.target other = collector.target other +
        if bucket.pool = other.pool then
          (collector.target bucket - collector.accepted bucket) /
              (collector.fullIn incomplete bucket.pool).length +
            (remainderRecipients order collector.redistributionOrdinal
              (collector.fullIn incomplete bucket.pool)
              ((collector.target bucket - collector.accepted bucket) %
                (collector.fullIn incomplete bucket.pool).length)).count other
        else 0 := by
    intro other member isFull
    by_cases samePool : bucket.pool = other.pool
    · rw [if_pos samePool, handed.shared other
        (mem_fullIn.mpr ⟨member, samePool.symm, isFull⟩), Nat.add_assoc]
    · rw [if_neg samePool, Nat.add_zero]
      apply handed.others
      · intro same
        exact samePool (congrArg FastSampleBucket.pool same.symm)
      · intro full
        exact samePool (mem_fullIn.mp full).2.1.symm
  constructor
  case frame =>
    refine ⟨nextTargets, nextOrdinal, ?_⟩
    rw [nextEqual, middleEqual]
  case buckets => exact rest.buckets.trans handed.buckets
  case lowered =>
    intro other inside someone
    rw [← sameAccepted]
    rcases mem_cons.mp inside with isBucket | inRest
    · rw [isBucket, rest.kept bucket isIncomplete (.inl notAgain), handed.lowered,
        sameAccepted]
    · exact rest.lowered other inRest (sameFull _ ▸ someone)
  case kept =>
    intro other otherIncomplete untouched
    have different : other ≠ bucket := by
      intro same
      rcases untouched with outside | nobody
      · exact outside (same ▸ mem_cons_self)
      · exact someone (same ▸ nobody)
    rw [rest.kept other otherIncomplete (untouched.imp
      (fun outside inRest => outside (mem_cons_of_mem _ inRest))
      (fun nobody => (sameFull _).trans nobody)), sameTarget other otherIncomplete different]
  case grown =>
    intro other member isFull
    have bounds := rest.grown other (handed.buckets ▸ member) isFull
    rw [sameReceived, gained other member isFull] at bounds
    rw [received_cons]
    by_cases samePool : bucket.pool = other.pool
    · rw [if_pos samePool] at bounds ⊢
      have share := share_le isOrder fullNodup other collector.redistributionOrdinal
        (collector.target bucket - collector.accepted bucket)
      rw [← samePool]
      refine ⟨(Nat.le_add_right _ _).trans bounds.1, bounds.2.trans ?_⟩
      rw [Nat.add_assoc]
      exact Nat.add_le_add_left (Nat.add_le_add_right share _) _
    · rw [if_neg samePool] at bounds ⊢
      omega
  case favoured =>
    intro other position favours found
    have full := mem_fullIn.mp (mem_of_getElem? found)
    rw [rest.favoured other position favours ((sameFull _).symm ▸ found), sameReceived,
      gained other full.1 full.2.2, received_cons]
    by_cases samePool : bucket.pool = other.pool
    · rw [if_pos samePool, if_pos samePool, ← samePool,
        share_of_favoured isOrder fullNodup favours (samePool ▸ found)]
      omega
    · rw [if_neg samePool, if_neg samePool]
      omega
  case conserved =>
    intro pool
    rw [rest.conserved pool, handed.conserved pool
      fun recipient inside => (mem_fullIn.mp inside).2.1]

theorem redistributeFold_spec (isOrder : order.IsPermutation)
    (short : List FastSampleBucket) :
    ∀ {collector : FastSampleCollector} (before : Bool),
      collector.bucketTargets.buckets.Nodup → short.Nodup →
      (∀ bucket ∈ short, bucket ∈ incomplete) →
      (∀ bucket ∈ short, bucket ∈ collector.bucketTargets.buckets) →
      (∀ bucket, collector.pendingCount bucket = 0) →
      (∀ bucket ∈ short, collector.accepted bucket < collector.target bucket) →
      ∃ moved next, short.foldl (redistributeStep order incomplete) (before, collector) =
          (moved, next) ∧
        (moved = true ↔ before = true ∨
          ∃ bucket ∈ short, collector.fullIn incomplete bucket.pool ≠ []) ∧
        Redistributed order incomplete short collector next := by
  induction short with
  | nil =>
      intro collector before _ _ _ _ _ _
      refine ⟨before, collector, rfl, by simp, ⟨_, _, rfl⟩, rfl, ?_, ?_, ?_, ?_, ?_⟩
      · simp
      · exact fun _ _ _ => rfl
      · exact fun _ _ _ => ⟨le_rfl, by simp [received]⟩
      · exact fun _ _ _ _ => by simp [received]
      · exact fun _ => rfl
  | cons bucket short induction =>
      intro collector before nodup shortNodup incompletes members idle shorts
      rw [nodup_cons] at shortNodup
      have isIncomplete := incompletes bucket mem_cons_self
      have restIncomplete : ∀ other ∈ short, other ∈ incomplete :=
        fun other inside => incompletes other (mem_cons_of_mem _ inside)
      have recipients : collector.recipientsOf incomplete bucket =
          collector.fullIn incomplete bucket.pool := recipientsOf_eq isIncomplete
      rw [foldl_cons, redistributeStep]
      by_cases nobody : collector.fullIn incomplete bucket.pool = []
      · have unmoved : collector.redistributeExhaustedBucket order bucket
            (collector.recipientsOf incomplete bucket) = (false, collector) := by
          rw [recipients, nobody]
          rfl
        rcases induction (before || false) nodup shortNodup.2 restIncomplete
          (fun other inside => members other (mem_cons_of_mem _ inside)) idle
          (fun other inside => shorts other (mem_cons_of_mem _ inside)) with
          ⟨moved, next, folded, movedIff, rest⟩
        refine ⟨moved, next, ?_, ?_, rest.cons_nobody nobody⟩
        · simp only [unmoved]
          exact folded
        · rw [movedIff, Bool.or_false]
          simp [nobody]
      · have fullNodup : (collector.fullIn incomplete bucket.pool).Nodup := nodup.filter _
        rcases redistributeExhaustedBucket_spec isOrder fullNodup nobody
          (fun inside => (mem_fullIn.mp inside).2.2 isIncomplete)
          (fun other inside => (mem_fullIn.mp inside).1)
          (members bucket mem_cons_self) (idle bucket)
          (shorts bucket mem_cons_self) with ⟨middle, moved, handed⟩
        rw [← recipients] at moved
        rcases handed.frame with ⟨targets, ordinal, middleEqual⟩
        rcases induction (before || true) (handed.buckets ▸ nodup) shortNodup.2
          restIncomplete
          (fun other inside =>
            handed.buckets ▸ members other (mem_cons_of_mem _ inside))
          (fun other => by rw [middleEqual]; exact idle other)
          (fun other inside => by
            rw [handed.others other (fun same => shortNodup.1 (same ▸ inside))
              (fun full => (mem_fullIn.mp full).2.2 (restIncomplete other inside)),
              middleEqual]
            exact shorts other (mem_cons_of_mem _ inside)) with
          ⟨movedAll, next, folded, movedIff, rest⟩
        refine ⟨movedAll, next, ?_, ?_, .cons_handed isOrder nodup nobody shortNodup.1
          isIncomplete restIncomplete handed rest⟩
        · simp only [moved]
          exact folded
        · rw [movedIff]
          simp [nobody]

theorem mem_incompleteBuckets :
    bucket ∈ collector.incompleteBuckets ↔
      bucket ∈ collector.bucketTargets.buckets ∧
        collector.accepted bucket < collector.target bucket := by
  simp [incompleteBuckets, bucketIsFull, BucketTargets.buckets, mem_filter]

/-- One redistribution: it moves targets exactly when some pool has both an
incomplete and a full bucket. -/
theorem redistribute_spec (isOrder : order.IsPermutation)
    (nodup : collector.bucketTargets.buckets.Nodup)
    (idle : ∀ bucket, collector.pendingCount bucket = 0) :
    ∃ moved next, collector.redistribute order = (moved, next) ∧
      (moved = true ↔ ∃ bucket ∈ collector.incompleteBuckets,
        collector.fullIn collector.incompleteBuckets bucket.pool ≠ []) ∧
      Redistributed order collector.incompleteBuckets collector.incompleteBuckets collector
        next := by
  rcases redistributeFold_spec isOrder collector.incompleteBuckets false nodup
    (nodup.filter _) (fun _ inside => inside)
    (fun bucket inside => (mem_incompleteBuckets.mp inside).1) idle
    (fun bucket inside => (mem_incompleteBuckets.mp inside).2) with
    ⟨moved, next, folded, movedIff, redistributed⟩
  exact ⟨moved, next, folded, by simpa using movedIff, redistributed⟩

end Redistribute

end FastSampleCollector

end NftData.Dedup
