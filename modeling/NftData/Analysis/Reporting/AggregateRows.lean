import NftData.Analysis.Reporting.AggregateAbsorb
import NftData.Foundation.Sorting

namespace NftData.Analysis

/-! # Rows of buckets

A row of the snapshot depends on the content of its bucket alone, as long as the lengths of
the sets in the bucket are right. -/

open DenseIdSet (insertAll_spec valid_insert valid_unionFrom)

/-! ## Lengths -/

structure BehaviorEntities.Valid (entities : BehaviorEntities) : Prop where
  addresses : entities.addresses.Valid
  nfts : entities.nfts.Valid
  linkedBuyers : entities.linkedBuyers.Valid

structure ScopeBucket.Valid (bucket : ScopeBucket) : Prop where
  attributed : bucket.attributed.Valid
  suspectedCandidates : bucket.suspectedCandidates.Valid
  behaviorAnalyzedSuspectedCandidates : bucket.behaviorAnalyzedSuspectedCandidates.Valid
  legitCandidates : bucket.legitCandidates.Valid
  behaviorEntities : ∀ kind, (bucket.behaviorEntities kind).Valid
  allBehaviorEntities : bucket.allBehaviorEntities.Valid

theorem BehaviorEntities.valid_empty : BehaviorEntities.empty.Valid :=
  ⟨DenseIdSet.valid_empty, DenseIdSet.valid_empty, DenseIdSet.valid_empty⟩

theorem BehaviorEntities.Valid.merge {entities : BehaviorEntities} (valid : entities.Valid)
    (delta : BehaviorEntityDelta) (includeNative : Bool) :
    (entities.merge delta includeNative).Valid where
  addresses := (insertAll_spec _ _).2 valid.addresses
  nfts := (insertAll_spec _ _).2 valid.nfts
  linkedBuyers := (insertAll_spec _ _).2 valid.linkedBuyers

theorem BehaviorEntities.Valid.mergeFrom {entities : BehaviorEntities} (valid : entities.Valid)
    (other : BehaviorEntities) : (entities.mergeFrom other).Valid where
  addresses := valid_unionFrom valid.addresses _
  nfts := valid_unionFrom valid.nfts _
  linkedBuyers := valid_unionFrom valid.linkedBuyers _

namespace ScopeBucket

theorem valid_empty : empty.Valid where
  attributed := DenseIdSet.valid_empty
  suspectedCandidates := DenseIdSet.valid_empty
  behaviorAnalyzedSuspectedCandidates := DenseIdSet.valid_empty
  legitCandidates := DenseIdSet.valid_empty
  behaviorEntities := fun _ => BehaviorEntities.valid_empty
  allBehaviorEntities := BehaviorEntities.valid_empty

variable {bucket : ScopeBucket}

theorem valid_foldl {Entry : Type} {step : ScopeBucket → Entry → ScopeBucket}
    (keeps : ∀ bucket entry, bucket.Valid → (step bucket entry).Valid) (valid : bucket.Valid)
    (entries : List Entry) : (entries.foldl step bucket).Valid := by
  induction entries generalizing bucket with
  | nil => exact valid
  | cons entry entries induction => exact induction (keeps bucket entry valid)

section

variable (valid : bucket.Valid)
include valid

theorem Valid.absorbRole (entry : GlobalAddressId × AddressRoleKind) :
    (bucket.absorbRole entry).Valid := by
  rcases entry with ⟨address, role⟩
  cases role <;> exact { valid with }

theorem Valid.absorbEntities (includeNative : Bool) (entities : BehaviorEntityDelta) :
    (ScopeBucket.absorbEntities includeNative bucket entities).Valid :=
  { valid with
    behaviorEntities := by
      intro kind
      change (Function.update bucket.behaviorEntities entities.kind
        ((bucket.behaviorEntities entities.kind).merge entities includeNative) kind).Valid
      by_cases same : kind = entities.kind
      · rw [same, Function.update_self]
        exact (valid.behaviorEntities _).merge _ _
      · rw [Function.update_of_ne same]
        exact valid.behaviorEntities kind
    allBehaviorEntities := valid.allBehaviorEntities.merge _ _ }

theorem Valid.absorbSuspected (share : CandidateShare) :
    (bucket.absorbSuspected share).Valid := by
  have counted : (bucket.countSuspected share).Valid :=
    { valid with
      suspectedCandidates := valid_insert valid.suspectedCandidates _
      behaviorAnalyzedSuspectedCandidates := by
        change DenseIdSet.Valid (if _ then _ else _)
        split
        · exact valid_insert valid.behaviorAnalyzedSuspectedCandidates _
        · exact valid.behaviorAnalyzedSuspectedCandidates }
  have amounts : ((bucket.countSuspected share).absorbAmounts share.includeNative
      share.bundle.economics).Valid := { counted with }
  have roles := valid_foldl (fun bucket entry valid => Valid.absorbRole valid entry) amounts
    share.bundle.addressRoles
  unfold ScopeBucket.absorbSuspected
  dsimp only
  split
  · have behaviors : (ScopeBucket.absorbBehaviors _ share.bundle.behaviors).Valid :=
      { roles with }
    exact valid_foldl (fun bucket entities valid => Valid.absorbEntities valid _ entities)
      behaviors share.bundle.behaviorEntities
  · exact roles

theorem Valid.absorbCandidate (share : CandidateShare) :
    (bucket.absorbCandidate share).Valid := by
  have attributed := valid_insert valid.attributed share.candidateId
  have counted : (bucket.countCandidate share).Valid :=
    { valid with
      attributed := attributed }
  unfold ScopeBucket.absorbCandidate
  dsimp only
  split
  · split
    · exact counted.absorbSuspected share
    · split
      · exact { counted with
          legitCandidates := valid_insert counted.legitCandidates _ }
      · exact counted
  · exact { valid with attributed := attributed }

theorem Valid.mergeCrossCell (other : ScopeBucket) :
    (bucket.mergeCrossCell other).Valid where
  attributed := valid_unionFrom valid.attributed _
  suspectedCandidates := valid_unionFrom valid.suspectedCandidates _
  behaviorAnalyzedSuspectedCandidates :=
    valid_unionFrom valid.behaviorAnalyzedSuspectedCandidates _
  legitCandidates := valid_unionFrom valid.legitCandidates _
  behaviorEntities := fun kind => (valid.behaviorEntities kind).mergeFrom _
  allBehaviorEntities := valid.allBehaviorEntities.mergeFrom _

end

end ScopeBucket

section Rows

variable {Ratio : Type} (divide : Int → Int → Ratio)

theorem topTenPercentRatio_perm {left right : List Int} (same : left.Perm right) :
    topTenPercentRatio divide left = topTenPercentRatio divide right := by
  have sorted : (left.filter fun value => 0 ≤ value).insertionSort (· ≥ ·) =
      (right.filter fun value => 0 ≤ value).insertionSort (· ≥ ·) :=
    insertionSort_eq_of_perm (same.filter _) fun _ _ _ _ => antisymm
  simp only [topTenPercentRatio, sorted]

theorem DenseIdSet.len_eq {left right : DenseIdSet} (leftValid : left.Valid)
    (rightValid : right.Valid) (same : IdUnion.of left.ids = IdUnion.of right.ids) :
    left.len = right.len := by
  have ids : left.ids = right.ids := same
  rw [leftValid, rightValid, ids]

def QualityContent.accumulator (content : QualityContent) : QualityAccumulator where
  statusCounts := content.statusCounts
  counts := content.counts
  candidateAssetTruncatedContracts := content.candidateAssetTruncatedContracts
  failureRecords := content.failureRecords
  failureRecordsByChain := content.failureRecordsByChain
  failureRecordsBySeed := content.failureRecordsBySeed
  allAssetsComplete := content.allAssetsComplete.holds
  allTransactionsComplete := content.allTransactionsComplete.holds
  allPricesComplete := content.allPricesComplete.holds

/-- Entities with the same content have the same counts and losses. -/
theorem BehaviorEntities.counts_eq {left right : BehaviorEntities} (leftValid : left.Valid)
    (rightValid : right.Valid) (same : left.content = right.content) :
    left.addresses.len = right.addresses.len ∧ left.nfts.len = right.nfts.len ∧
      left.linkedBuyers.len = right.linkedBuyers.len ∧
      left.linkedLossNative = right.linkedLossNative ∧
      left.linkedLossUsdMicros = right.linkedLossUsdMicros := by
  obtain ⟨addresses, nfts, buyers, native, usd⟩ := EntitiesContent.mk.inj same
  exact ⟨DenseIdSet.len_eq leftValid.addresses rightValid.addresses addresses,
    DenseIdSet.len_eq leftValid.nfts rightValid.nfts nfts,
    DenseIdSet.len_eq leftValid.linkedBuyers rightValid.linkedBuyers buyers, native, usd⟩

namespace ScopeBucket

variable {left right : ScopeBucket}

/-- Buckets with the same content have the same row. -/
theorem scopedMetric_eq (leftValid : left.Valid) (rightValid : right.Valid)
    (same : left.content = right.content) (scope : AggregateScope)
    (primaryChain candidateChain : Option ChainId) :
    left.scopedMetric divide scope primaryChain candidateChain =
      right.scopedMetric divide scope primaryChain candidateChain := by
  obtain ⟨attributed, suspected, analyzed, legit, economics, quality, representative, infringing,
    malicious, honest, counts, contracts, instances, entities, allEntities, anyContracts, gas,
    loss, atLeastOne, belowOne⟩ := BucketContent.mk.inj same
  have attributed := DenseIdSet.len_eq leftValid.attributed rightValid.attributed attributed
  have suspected :=
    DenseIdSet.len_eq leftValid.suspectedCandidates rightValid.suspectedCandidates suspected
  have analyzed := DenseIdSet.len_eq leftValid.behaviorAnalyzedSuspectedCandidates
    rightValid.behaviorAnalyzedSuspectedCandidates analyzed
  have legit := DenseIdSet.len_eq leftValid.legitCandidates rightValid.legitCandidates legit
  have quality : left.quality = right.quality := congrArg QualityContent.accumulator quality
  have malicious : left.maliciousAddresses = right.maliciousAddresses := malicious
  have honest : left.honestAddresses = right.honestAddresses := honest
  have gas := topTenPercentRatio_perm divide (Multiset.coe_eq_coe.mp gas)
  have loss := topTenPercentRatio_perm divide (Multiset.coe_eq_coe.mp loss)
  have behavior (kind : BehaviorKind) :
      left.behaviorMetric divide kind = right.behaviorMetric divide kind := by
    have counted := BehaviorEntities.counts_eq (leftValid.behaviorEntities kind)
      (rightValid.behaviorEntities kind) (congrFun entities kind)
    simp only [behaviorMetric, totalBehaviorInstances, contracts, instances, analyzed, counted]
  have total : left.totalBehaviorMetric divide = right.totalBehaviorMetric divide := by
    have counted := BehaviorEntities.counts_eq leftValid.allBehaviorEntities
      rightValid.allBehaviorEntities allEntities
    simp only [totalBehaviorMetric, totalBehaviorInstances, anyContracts, instances, analyzed,
      counted]
  simp only [scopedMetric, economicsDerived, attributed, suspected, analyzed, legit, economics,
    quality, representative, infringing, malicious, honest, counts, atLeastOne, belowOne, gas,
    loss, behavior, total]

end ScopeBucket

end Rows

end NftData.Analysis
