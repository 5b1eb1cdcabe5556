import NftData.Analysis.Reporting.AggregateContent

namespace NftData.Analysis

/-! # Absorbing adds content

Absorbing a candidate adds its content to a bucket that does not have it yet, and merging
buckets adds their contents. -/

open IdUnion (of)

namespace DenseIdSet

theorem insertAll_spec (set : DenseIdSet) (values : List Nat) :
    (set.insertAll values).ids = set.ids ∪ values.toFinset ∧
      (set.Valid → (set.insertAll values).Valid) := by
  induction values generalizing set with
  | nil => exact ⟨by simp [insertAll], fun valid => valid⟩
  | cons value values induction =>
      have rest := induction (set.insert value).1
      refine ⟨?_, fun valid => rest.2 (valid_insert valid value)⟩
      rw [show set.insertAll (value :: values) = (set.insert value).1.insertAll values from rfl,
        rest.1, ids_insert, List.toFinset_cons, Finset.insert_union, Finset.union_insert]

end DenseIdSet

theorem BehaviorEntities.content_merge (entities : BehaviorEntities)
    (delta : BehaviorEntityDelta) (includeNative : Bool) :
    (entities.merge delta includeNative).content =
      entities.content + delta.content includeNative := by
  apply EntitiesContent.ext
  · exact congrArg of (DenseIdSet.insertAll_spec _ _).1
  · exact congrArg of (DenseIdSet.insertAll_spec _ _).1
  · exact congrArg of (DenseIdSet.insertAll_spec _ _).1
  · cases includeNative with
    | true => rfl
    | false => exact (add_zero _).symm
  · rfl

theorem BehaviorEntities.content_mergeFrom (entities other : BehaviorEntities) :
    (entities.mergeFrom other).content = entities.content + other.content := by
  apply EntitiesContent.ext
  · exact congrArg of (DenseIdSet.ids_unionFrom _ _)
  · exact congrArg of (DenseIdSet.ids_unionFrom _ _)
  · exact congrArg of (DenseIdSet.ids_unionFrom _ _)
  · rfl
  · rfl

theorem QualityAccumulator.content_add (accumulator : QualityAccumulator)
    (quality : EvidenceQuality) :
    (accumulator.add quality).content = accumulator.content + quality.content := by
  apply QualityContent.ext
  case failureRecordsByChain => exact (add_zero _).symm
  case failureRecordsBySeed => exact (add_zero _).symm
  all_goals rfl

theorem EconomicFacts.accumulate_eq (total candidate : EconomicFacts) :
    total.accumulate candidate = total + candidate := rfl

theorem EconomicFacts.accumulateUsd_eq (total candidate : EconomicFacts) :
    total.accumulateUsd candidate = total + candidate.withoutNative := by
  apply EconomicFacts.ext
  case native => exact (add_zero _).symm
  all_goals rfl

namespace ScopeBucket

theorem content_empty : empty.content = 0 := rfl

theorem content_foldl {Entry : Type} {step : ScopeBucket → Entry → ScopeBucket}
    {part : Entry → BucketContent}
    (adds : ∀ bucket entry, (step bucket entry).content = bucket.content + part entry)
    (bucket : ScopeBucket) (entries : List Entry) :
    (entries.foldl step bucket).content = bucket.content + (entries.map part).sum := by
  induction entries generalizing bucket with
  | nil => exact (add_zero _).symm
  | cons entry entries induction =>
      rw [List.foldl_cons, induction, adds, List.map_cons, List.sum_cons, add_assoc]

theorem content_absorbAmounts (bucket : ScopeBucket) (includeNative : Bool)
    (economics : EconomicFacts) :
    (bucket.absorbAmounts includeNative economics).content =
      bucket.content + amountsContent includeNative economics := by
  apply BucketContent.ext
  case economics =>
    cases includeNative with
    | true => exact EconomicFacts.accumulate_eq _ _
    | false => exact EconomicFacts.accumulateUsd_eq _ _
  case gasByCandidate => exact (Multiset.coe_add _ _).symm
  case lossByCandidate => exact (Multiset.coe_add _ _).symm
  case outputInputAtLeastOne =>
    simp only [content, absorbAmounts, amountsContent]
    split
    · rfl
    · rfl
  case outputInputBelowOne =>
    simp only [content, absorbAmounts, amountsContent]
    split
    · rfl
    · rfl
  all_goals exact (add_zero _).symm

theorem update_succ (counts : GlobalAddressId → Nat) (address : GlobalAddressId) :
    Function.update counts address (counts address + 1) = counts + Pi.single address 1 := by
  funext other
  by_cases same : other = address
  · simp [same]
  · simp [same]

theorem of_insert (address : GlobalAddressId) (addresses : Finset GlobalAddressId) :
    of (insert address addresses) = of addresses + of {address} := by
  rw [IdUnion.of_add, Finset.union_comm, Finset.singleton_union]

theorem content_absorbRole (bucket : ScopeBucket) (entry : GlobalAddressId × AddressRoleKind) :
    (bucket.absorbRole entry).content = bucket.content + roleContent entry := by
  rcases entry with ⟨address, role⟩
  have malicious (isMalicious : role.isMalicious = true) (notHonest : role.isHonest = false) :
      roleContent (address, role) =
        { (0 : BucketContent) with
          maliciousAddresses := .of {address}
          maliciousCandidateCounts := Pi.single address 1 } := by
    simp only [roleContent, isMalicious, notHonest]
    rfl
  have honest (notMalicious : role.isMalicious = false) (isHonest : role.isHonest = true) :
      roleContent (address, role) =
        { (0 : BucketContent) with honestAddresses := .of {address} } := by
    simp only [roleContent, notMalicious, isHonest]
    rfl
  cases role with
  | suspectedOperator | suspectedColluder =>
      rw [malicious rfl rfl]
      apply BucketContent.ext
      case maliciousAddresses => exact of_insert _ _
      case maliciousCandidateCounts => exact update_succ _ _
      all_goals exact (add_zero _).symm
  | likelyVictim | corruptedVictim =>
      rw [honest rfl rfl]
      apply BucketContent.ext
      case honestAddresses => exact of_insert _ _
      all_goals exact (add_zero _).symm
  | neutral => exact (add_zero _).symm

theorem content_absorbBehaviors (bucket : ScopeBucket) (behaviors : BehaviorFacts) :
    (bucket.absorbBehaviors behaviors).content = bucket.content + behaviorsContent behaviors := by
  apply BucketContent.ext
  case behaviorContracts =>
    funext kind
    change (if behaviors kind = 0 then bucket.behaviorContracts kind
      else bucket.behaviorContracts kind + 1) =
      bucket.behaviorContracts kind + if behaviors kind = 0 then 0 else 1
    split
    · rfl
    · rfl
  case behaviorInstances =>
    funext kind
    change (if behaviors kind = 0 then bucket.behaviorInstances kind
      else bucket.behaviorInstances kind + behaviors kind) =
      bucket.behaviorInstances kind + behaviors kind
    split
    · next none => rw [none, add_zero]
    · rfl
  case anyBehaviorContracts =>
    change (if _ then bucket.anyBehaviorContracts + 1 else bucket.anyBehaviorContracts) =
      bucket.anyBehaviorContracts + if _ then 1 else 0
    split
    · rfl
    · rfl
  all_goals exact (add_zero _).symm

theorem content_absorbEntities (includeNative : Bool) (bucket : ScopeBucket)
    (entities : BehaviorEntityDelta) :
    (absorbEntities includeNative bucket entities).content =
      bucket.content + entitiesContent includeNative entities := by
  apply BucketContent.ext
  case behaviorEntities =>
    funext kind
    change (Function.update bucket.behaviorEntities entities.kind
        ((bucket.behaviorEntities entities.kind).merge entities includeNative) kind).content =
      (bucket.behaviorEntities kind).content +
        (Pi.single entities.kind (entities.content includeNative) :
          BehaviorKind → EntitiesContent) kind
    by_cases same : kind = entities.kind
    · rw [same, Function.update_self, Pi.single_eq_same, BehaviorEntities.content_merge]
    · rw [Function.update_of_ne same, Pi.single_eq_of_ne same, add_zero]
  case allBehaviorEntities => exact BehaviorEntities.content_merge _ _ _
  all_goals exact (add_zero _).symm

theorem ids_insert (set : DenseIdSet) (id : Nat) :
    of (set.insert id).1.ids = of set.ids + of {id} := by
  rw [DenseIdSet.ids_insert]
  exact of_insert _ _

theorem content_countSuspected (bucket : ScopeBucket) (share : CandidateShare) :
    (bucket.countSuspected share).content = bucket.content + share.countedSuspectedContent := by
  apply BucketContent.ext
  case suspectedCandidates => exact ids_insert _ _
  case behaviorAnalyzedSuspectedCandidates =>
    unfold content countSuspected CandidateShare.countedSuspectedContent
    cases share.analysisComplete with
    | true => exact ids_insert _ _
    | false => exact (add_zero _).symm
  case infringingNftCount => rfl
  all_goals exact (add_zero _).symm

theorem content_absorbSuspected (bucket : ScopeBucket) (share : CandidateShare) :
    (bucket.absorbSuspected share).content = bucket.content + share.suspectedContent := by
  have roles : (share.bundle.addressRoles.foldl absorbRole ((bucket.countSuspected
        share).absorbAmounts share.includeNative share.bundle.economics)).content =
      bucket.content + (share.countedSuspectedContent +
        amountsContent share.includeNative share.bundle.economics +
        (share.bundle.addressRoles.map roleContent).sum) := by
    rw [content_foldl content_absorbRole, content_absorbAmounts, content_countSuspected,
      add_assoc, add_assoc, add_assoc]
  unfold absorbSuspected CandidateShare.suspectedContent
  dsimp only
  split
  · rw [content_foldl (content_absorbEntities share.includeNative), content_absorbBehaviors,
      roles, add_assoc, add_assoc]
  · rw [roles, add_zero]

theorem content_countCandidate (bucket : ScopeBucket) (share : CandidateShare) :
    (bucket.countCandidate share).content = bucket.content + share.countedContent := by
  apply BucketContent.ext
  case attributed => exact ids_insert _ _
  case quality => exact QualityAccumulator.content_add _ _
  case representativeCandidateCount => rfl
  all_goals exact (add_zero _).symm

theorem content_countLegit (bucket : ScopeBucket) (share : CandidateShare) :
    (bucket.countLegit share).content = bucket.content + share.legitContent := by
  apply BucketContent.ext
  case legitCandidates => exact ids_insert _ _
  all_goals exact (add_zero _).symm

/-- A candidate that is new to the bucket adds its content. -/
theorem content_absorbCandidate {bucket : ScopeBucket} {share : CandidateShare}
    (fresh : share.candidateId ∉ bucket.attributed.ids) :
    (bucket.absorbCandidate share).content = bucket.content + share.content := by
  have inserted : (bucket.attributed.insert share.candidateId).2 = true := by
    rw [DenseIdSet.snd_insert, decide_eq_true fresh]
  unfold absorbCandidate CandidateShare.content
  dsimp only
  rw [if_pos inserted]
  split
  · rw [content_absorbSuspected, content_countCandidate, add_assoc]
  · split
    · rw [content_countLegit, content_countCandidate, add_assoc]
    · rw [content_countCandidate, add_zero]

/-- Native amounts are left out when cells are merged. -/
theorem content_mergeCrossCell (bucket other : ScopeBucket)
    (noNative : other.economics.native = 0) :
    (bucket.mergeCrossCell other).content = bucket.content + other.content := by
  have unite (set others : DenseIdSet) : of (set.unionFrom others).ids =
      of set.ids + of others.ids :=
    congrArg of (DenseIdSet.ids_unionFrom set others)
  apply BucketContent.ext
  case attributed => exact unite _ _
  case suspectedCandidates => exact unite _ _
  case behaviorAnalyzedSuspectedCandidates => exact unite _ _
  case legitCandidates => exact unite _ _
  case economics =>
    apply EconomicFacts.ext
    case native =>
      change bucket.economics.native = bucket.economics.native + other.economics.native
      rw [noNative, add_zero]
    all_goals rfl
  case behaviorEntities =>
    funext kind
    exact BehaviorEntities.content_mergeFrom _ _
  case allBehaviorEntities => exact BehaviorEntities.content_mergeFrom _ _
  case gasByCandidate => exact (Multiset.coe_add _ _).symm
  case lossByCandidate => exact (Multiset.coe_add _ _).symm
  all_goals rfl

end ScopeBucket

end NftData.Analysis
