import NftData.Analysis.Reporting.Aggregate

namespace NftData.Analysis

/-! # What a bucket holds

The content of a bucket is a sum over candidates, whatever the order in which they were
absorbed: sets are united, amounts are added, flags hold if they hold of all. -/

/-- Sets under union. -/
def IdUnion : Type := Finset Nat

namespace IdUnion

def of (ids : Finset Nat) : IdUnion := ids

def ids (union : IdUnion) : Finset Nat := union

instance : Add IdUnion where
  add left right := of (left.ids ∪ right.ids)

instance : Zero IdUnion where
  zero := of ∅

instance : AddCommMonoid IdUnion where
  add_assoc left middle right := Finset.union_assoc left.ids middle.ids right.ids
  zero_add union := Finset.empty_union union.ids
  add_zero union := Finset.union_empty union.ids
  add_comm left right := Finset.union_comm left.ids right.ids
  nsmul := nsmulRec

@[simp]
theorem of_add (left right : Finset Nat) : of left + of right = of (left ∪ right) := rfl

@[simp]
theorem ids_add (left right : IdUnion) : (left + right).ids = left.ids ∪ right.ids := rfl

@[simp]
theorem ids_zero : (0 : IdUnion).ids = ∅ := rfl

end IdUnion

/-- Flags under conjunction. -/
def AllHold : Type := Bool

namespace AllHold

def of (holds : Bool) : AllHold := holds

def holds (all : AllHold) : Bool := all

instance : Add AllHold where
  add left right := of (left.holds && right.holds)

instance : Zero AllHold where
  zero := of true

instance : AddCommMonoid AllHold where
  add_assoc left middle right := Bool.and_assoc left.holds middle.holds right.holds
  zero_add all := Bool.true_and all.holds
  add_zero all := Bool.and_true all.holds
  add_comm left right := Bool.and_comm left.holds right.holds
  nsmul := nsmulRec

end AllHold

/-! ## Contents -/

instance : Add EconomicFacts where
  add left right :=
    ⟨left.native + right.native, left.usdMicros + right.usdMicros,
      left.stuckNftCount + right.stuckNftCount,
      left.stuckTimeNumeratorSeconds + right.stuckTimeNumeratorSeconds,
      left.stuckTimeDenominatorSeconds + right.stuckTimeDenominatorSeconds⟩

instance : Zero EconomicFacts where
  zero := .empty

instance : AddCommMonoid EconomicFacts where
  add_assoc left middle right := by
    apply EconomicFacts.ext <;> exact add_assoc _ _ _
  zero_add facts := by
    apply EconomicFacts.ext <;> exact zero_add _
  add_zero facts := by
    apply EconomicFacts.ext <;> exact add_zero _
  add_comm left right := by
    apply EconomicFacts.ext <;> exact add_comm _ _
  nsmul := nsmulRec

@[ext]
structure EntitiesContent where
  addresses : IdUnion
  nfts : IdUnion
  linkedBuyers : IdUnion
  linkedLossNative : Int
  linkedLossUsdMicros : Int

instance : Add EntitiesContent where
  add left right :=
    ⟨left.addresses + right.addresses, left.nfts + right.nfts,
      left.linkedBuyers + right.linkedBuyers, left.linkedLossNative + right.linkedLossNative,
      left.linkedLossUsdMicros + right.linkedLossUsdMicros⟩

instance : Zero EntitiesContent where
  zero := ⟨0, 0, 0, 0, 0⟩

instance : AddCommMonoid EntitiesContent where
  add_assoc left middle right := by
    apply EntitiesContent.ext <;> exact add_assoc _ _ _
  zero_add content := by
    apply EntitiesContent.ext <;> exact zero_add _
  add_zero content := by
    apply EntitiesContent.ext <;> exact add_zero _
  add_comm left right := by
    apply EntitiesContent.ext <;> exact add_comm _ _
  nsmul := nsmulRec

@[ext]
structure QualityContent where
  statusCounts : QualityCategory → Option EvidenceStatus → Nat
  counts : QualityCounter → Nat
  candidateAssetTruncatedContracts : Nat
  failureRecords : Nat
  failureRecordsByChain : ChainId → Nat
  failureRecordsBySeed : SeedId → Nat
  allAssetsComplete : AllHold
  allTransactionsComplete : AllHold
  allPricesComplete : AllHold

instance : Add QualityContent where
  add left right :=
    ⟨left.statusCounts + right.statusCounts, left.counts + right.counts,
      left.candidateAssetTruncatedContracts + right.candidateAssetTruncatedContracts,
      left.failureRecords + right.failureRecords,
      left.failureRecordsByChain + right.failureRecordsByChain,
      left.failureRecordsBySeed + right.failureRecordsBySeed,
      left.allAssetsComplete + right.allAssetsComplete,
      left.allTransactionsComplete + right.allTransactionsComplete,
      left.allPricesComplete + right.allPricesComplete⟩

instance : Zero QualityContent where
  zero := ⟨0, 0, 0, 0, 0, 0, 0, 0, 0⟩

instance : AddCommMonoid QualityContent where
  add_assoc left middle right := by
    apply QualityContent.ext <;> exact add_assoc _ _ _
  zero_add content := by
    apply QualityContent.ext <;> exact zero_add _
  add_zero content := by
    apply QualityContent.ext <;> exact add_zero _
  add_comm left right := by
    apply QualityContent.ext <;> exact add_comm _ _
  nsmul := nsmulRec

@[ext]
structure BucketContent where
  attributed : IdUnion
  suspectedCandidates : IdUnion
  behaviorAnalyzedSuspectedCandidates : IdUnion
  legitCandidates : IdUnion
  economics : EconomicFacts
  quality : QualityContent
  representativeCandidateCount : Nat
  infringingNftCount : Nat
  maliciousAddresses : IdUnion
  honestAddresses : IdUnion
  maliciousCandidateCounts : GlobalAddressId → Nat
  behaviorContracts : BehaviorKind → Nat
  behaviorInstances : BehaviorKind → Nat
  behaviorEntities : BehaviorKind → EntitiesContent
  allBehaviorEntities : EntitiesContent
  anyBehaviorContracts : Nat
  gasByCandidate : Multiset Int
  lossByCandidate : Multiset Int
  outputInputAtLeastOne : Nat
  outputInputBelowOne : Nat

instance : Add BucketContent where
  add left right :=
    ⟨left.attributed + right.attributed, left.suspectedCandidates + right.suspectedCandidates,
      left.behaviorAnalyzedSuspectedCandidates + right.behaviorAnalyzedSuspectedCandidates,
      left.legitCandidates + right.legitCandidates, left.economics + right.economics,
      left.quality + right.quality,
      left.representativeCandidateCount + right.representativeCandidateCount,
      left.infringingNftCount + right.infringingNftCount,
      left.maliciousAddresses + right.maliciousAddresses,
      left.honestAddresses + right.honestAddresses,
      left.maliciousCandidateCounts + right.maliciousCandidateCounts,
      left.behaviorContracts + right.behaviorContracts,
      left.behaviorInstances + right.behaviorInstances,
      left.behaviorEntities + right.behaviorEntities,
      left.allBehaviorEntities + right.allBehaviorEntities,
      left.anyBehaviorContracts + right.anyBehaviorContracts,
      left.gasByCandidate + right.gasByCandidate, left.lossByCandidate + right.lossByCandidate,
      left.outputInputAtLeastOne + right.outputInputAtLeastOne,
      left.outputInputBelowOne + right.outputInputBelowOne⟩

instance : Zero BucketContent where
  zero := ⟨0, 0, 0, 0, 0, 0, 0, 0, 0, 0, 0, 0, 0, 0, 0, 0, 0, 0, 0, 0⟩

instance : AddCommMonoid BucketContent where
  add_assoc left middle right := by
    apply BucketContent.ext <;> exact add_assoc _ _ _
  zero_add content := by
    apply BucketContent.ext <;> exact zero_add _
  add_zero content := by
    apply BucketContent.ext <;> exact add_zero _
  add_comm left right := by
    apply BucketContent.ext <;> exact add_comm _ _
  nsmul := nsmulRec

def BehaviorEntities.content (entities : BehaviorEntities) : EntitiesContent where
  addresses := .of entities.addresses.ids
  nfts := .of entities.nfts.ids
  linkedBuyers := .of entities.linkedBuyers.ids
  linkedLossNative := entities.linkedLossNative
  linkedLossUsdMicros := entities.linkedLossUsdMicros

def QualityAccumulator.content (accumulator : QualityAccumulator) : QualityContent where
  statusCounts := accumulator.statusCounts
  counts := accumulator.counts
  candidateAssetTruncatedContracts := accumulator.candidateAssetTruncatedContracts
  failureRecords := accumulator.failureRecords
  failureRecordsByChain := accumulator.failureRecordsByChain
  failureRecordsBySeed := accumulator.failureRecordsBySeed
  allAssetsComplete := .of accumulator.allAssetsComplete
  allTransactionsComplete := .of accumulator.allTransactionsComplete
  allPricesComplete := .of accumulator.allPricesComplete

def ScopeBucket.content (bucket : ScopeBucket) : BucketContent where
  attributed := .of bucket.attributed.ids
  suspectedCandidates := .of bucket.suspectedCandidates.ids
  behaviorAnalyzedSuspectedCandidates := .of bucket.behaviorAnalyzedSuspectedCandidates.ids
  legitCandidates := .of bucket.legitCandidates.ids
  economics := bucket.economics
  quality := bucket.quality.content
  representativeCandidateCount := bucket.representativeCandidateCount
  infringingNftCount := bucket.infringingNftCount
  maliciousAddresses := .of bucket.maliciousAddresses
  honestAddresses := .of bucket.honestAddresses
  maliciousCandidateCounts := bucket.maliciousCandidateCounts
  behaviorContracts := bucket.behaviorContracts
  behaviorInstances := bucket.behaviorInstances
  behaviorEntities := fun kind => (bucket.behaviorEntities kind).content
  allBehaviorEntities := bucket.allBehaviorEntities.content
  anyBehaviorContracts := bucket.anyBehaviorContracts
  gasByCandidate := bucket.gasByCandidate
  lossByCandidate := bucket.lossByCandidate
  outputInputAtLeastOne := bucket.outputInputAtLeastOne
  outputInputBelowOne := bucket.outputInputBelowOne

def EconomicFacts.withoutNative (facts : EconomicFacts) : EconomicFacts :=
  { facts with native := 0 }

def BehaviorEntityDelta.content (entities : BehaviorEntityDelta) (includeNative : Bool) :
    EntitiesContent where
  addresses := .of entities.addresses.toFinset
  nfts := .of entities.nfts.toFinset
  linkedBuyers := .of entities.linkedBuyers.toFinset
  linkedLossNative := if includeNative then entities.linkedLossNative else 0
  linkedLossUsdMicros := entities.linkedLossUsdMicros

def EvidenceQuality.content (quality : EvidenceQuality) : QualityContent where
  statusCounts := fun category status => if quality.status category = status then 1 else 0
  counts := quality.counts
  candidateAssetTruncatedContracts := if quality.status .assets = some .truncated then 1 else 0
  failureRecords := quality.failures.length
  failureRecordsByChain := 0
  failureRecordsBySeed := 0
  allAssetsComplete := .of (terminalComplete (quality.status .assets))
  allTransactionsComplete := .of (terminalComplete (quality.status .transactions))
  allPricesComplete := .of (terminalComplete (quality.status .prices))

def AddressRoleKind.isMalicious : AddressRoleKind → Bool
  | .suspectedOperator => true
  | .suspectedColluder => true
  | _ => false

def AddressRoleKind.isHonest : AddressRoleKind → Bool
  | .likelyVictim => true
  | .corruptedVictim => true
  | _ => false

def roleContent (entry : GlobalAddressId × AddressRoleKind) : BucketContent :=
  { (0 : BucketContent) with
    maliciousAddresses := .of (if entry.2.isMalicious then {entry.1} else ∅)
    honestAddresses := .of (if entry.2.isHonest then {entry.1} else ∅)
    maliciousCandidateCounts := if entry.2.isMalicious then Pi.single entry.1 1 else 0 }

def amountsContent (includeNative : Bool) (economics : EconomicFacts) : BucketContent :=
  let gas := economics.gasUsdMicros
  let output := economics.usdMicros .operatorOutput
  { (0 : BucketContent) with
    economics := if includeNative then economics else economics.withoutNative
    gasByCandidate := {gas}
    lossByCandidate := {economics.usdMicros .honestLoss}
    outputInputAtLeastOne := if 0 < gas ∧ 0 < output ∧ gas ≤ output then 1 else 0
    outputInputBelowOne := if 0 < gas ∧ 0 < output ∧ output < gas then 1 else 0 }

def behaviorsContent (behaviors : BehaviorFacts) : BucketContent :=
  { (0 : BucketContent) with
    behaviorContracts := fun kind => if behaviors kind = 0 then 0 else 1
    behaviorInstances := behaviors
    anyBehaviorContracts :=
      if BehaviorKind.all.any fun kind => behaviors kind ≠ 0 then 1 else 0 }

def entitiesContent (includeNative : Bool) (entities : BehaviorEntityDelta) : BucketContent :=
  { (0 : BucketContent) with
    behaviorEntities := Pi.single entities.kind (entities.content includeNative)
    allBehaviorEntities := entities.content includeNative }

namespace ScopeBucket

namespace CandidateShare

variable (share : CandidateShare)

def countedSuspectedContent : BucketContent :=
  { (0 : BucketContent) with
    suspectedCandidates := .of {share.candidateId}
    behaviorAnalyzedSuspectedCandidates :=
      .of (if share.analysisComplete then {share.candidateId} else ∅)
    infringingNftCount := share.infringingNfts }

def suspectedContent : BucketContent :=
  share.countedSuspectedContent + amountsContent share.includeNative share.bundle.economics +
    (share.bundle.addressRoles.map roleContent).sum +
    if share.analysisComplete then
      behaviorsContent share.bundle.behaviors +
        (share.bundle.behaviorEntities.map (entitiesContent share.includeNative)).sum
    else 0

def countedContent : BucketContent :=
  { (0 : BucketContent) with
    attributed := .of {share.candidateId}
    quality := share.quality.content
    representativeCandidateCount := share.representativeNfts }

def legitContent : BucketContent :=
  { (0 : BucketContent) with legitCandidates := .of {share.candidateId} }

/-- What a bucket gains by absorbing the candidate. -/
def content : BucketContent :=
  share.countedContent +
    if share.isSuspected then share.suspectedContent
    else if share.isLegitOnly then share.legitContent
    else 0

end CandidateShare

end ScopeBucket

end NftData.Analysis
