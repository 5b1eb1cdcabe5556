import NftData.Analysis.Reporting.DenseIdSet
import NftData.Analysis.Reporting.Facts

namespace NftData.Analysis

/-! # The aggregate of a run

Every candidate delta is absorbed into the buckets of the scopes that it belongs to. A map
that is only read with a default is recorded as the function of its values. -/

namespace EconomicFacts

def empty : EconomicFacts := ⟨fun _ => 0, fun _ => 0, 0, 0, 0⟩

/-- `accumulate_economics_usd`, which is also `accumulate_economics_cross_chain`. -/
def accumulateUsd (total candidate : EconomicFacts) : EconomicFacts :=
  { total with
    usdMicros := fun flow => total.usdMicros flow + candidate.usdMicros flow
    stuckNftCount := total.stuckNftCount + candidate.stuckNftCount
    stuckTimeNumeratorSeconds :=
      total.stuckTimeNumeratorSeconds + candidate.stuckTimeNumeratorSeconds
    stuckTimeDenominatorSeconds :=
      total.stuckTimeDenominatorSeconds + candidate.stuckTimeDenominatorSeconds }

def accumulateNative (total candidate : EconomicFacts) : EconomicFacts :=
  { total with
    native := fun flow => total.native flow + candidate.native flow }

/-- `accumulate_economics`. -/
def accumulate (total candidate : EconomicFacts) : EconomicFacts :=
  (total.accumulateUsd candidate).accumulateNative candidate

def gasUsdMicros (facts : EconomicFacts) : Int :=
  facts.usdMicros .setupGas + facts.usdMicros .lureGas + facts.usdMicros .exitGas

end EconomicFacts

structure BehaviorEntities where
  addresses : DenseIdSet
  nfts : DenseIdSet
  linkedBuyers : DenseIdSet
  linkedLossNative : Int
  linkedLossUsdMicros : Int

namespace DenseIdSet

def insertAll (set : DenseIdSet) (values : List Nat) : DenseIdSet :=
  values.foldl (fun set id => (set.insert id).1) set

end DenseIdSet

namespace BehaviorEntities

def empty : BehaviorEntities := ⟨.empty, .empty, .empty, 0, 0⟩

def merge (entities : BehaviorEntities) (delta : BehaviorEntityDelta) (includeNative : Bool) :
    BehaviorEntities where
  addresses := entities.addresses.insertAll delta.addresses
  nfts := entities.nfts.insertAll delta.nfts
  linkedBuyers := entities.linkedBuyers.insertAll delta.linkedBuyers
  linkedLossNative :=
    if includeNative then entities.linkedLossNative + delta.linkedLossNative
    else entities.linkedLossNative
  linkedLossUsdMicros := entities.linkedLossUsdMicros + delta.linkedLossUsdMicros

def mergeFrom (entities other : BehaviorEntities) : BehaviorEntities where
  addresses := entities.addresses.unionFrom other.addresses
  nfts := entities.nfts.unionFrom other.nfts
  linkedBuyers := entities.linkedBuyers.unionFrom other.linkedBuyers
  linkedLossNative := entities.linkedLossNative + other.linkedLossNative
  linkedLossUsdMicros := entities.linkedLossUsdMicros + other.linkedLossUsdMicros

end BehaviorEntities

def terminalComplete : Option EvidenceStatus → Bool
  | some .complete => true
  | some .empty => true
  | _ => false

/-- The counters of the quality snapshot and the flags for its ratios. -/
structure QualityAccumulator where
  statusCounts : QualityCategory → Option EvidenceStatus → Nat
  counts : QualityCounter → Nat
  candidateAssetTruncatedContracts : Nat
  failureRecords : Nat
  failureRecordsByChain : ChainId → Nat
  failureRecordsBySeed : SeedId → Nat
  allAssetsComplete : Bool
  allTransactionsComplete : Bool
  allPricesComplete : Bool

namespace QualityAccumulator

def empty : QualityAccumulator :=
  ⟨fun _ _ => 0, fun _ => 0, 0, 0, fun _ => 0, fun _ => 0, true, true, true⟩

def add (accumulator : QualityAccumulator) (quality : EvidenceQuality) : QualityAccumulator :=
  { accumulator with
    statusCounts := fun category status =>
      accumulator.statusCounts category status + if quality.status category = status then 1 else 0
    counts := fun counter => accumulator.counts counter + quality.counts counter
    candidateAssetTruncatedContracts := accumulator.candidateAssetTruncatedContracts +
      if quality.status .assets = some .truncated then 1 else 0
    failureRecords := accumulator.failureRecords + quality.failures.length
    allAssetsComplete :=
      accumulator.allAssetsComplete && terminalComplete (quality.status .assets)
    allTransactionsComplete :=
      accumulator.allTransactionsComplete && terminalComplete (quality.status .transactions)
    allPricesComplete :=
      accumulator.allPricesComplete && terminalComplete (quality.status .prices) }

def mergeFrom (accumulator other : QualityAccumulator) : QualityAccumulator where
  statusCounts := fun category status =>
    accumulator.statusCounts category status + other.statusCounts category status
  counts := fun counter => accumulator.counts counter + other.counts counter
  candidateAssetTruncatedContracts :=
    accumulator.candidateAssetTruncatedContracts + other.candidateAssetTruncatedContracts
  failureRecords := accumulator.failureRecords + other.failureRecords
  failureRecordsByChain := fun chain =>
    accumulator.failureRecordsByChain chain + other.failureRecordsByChain chain
  failureRecordsBySeed := fun seed =>
    accumulator.failureRecordsBySeed seed + other.failureRecordsBySeed seed
  allAssetsComplete := accumulator.allAssetsComplete && other.allAssetsComplete
  allTransactionsComplete := accumulator.allTransactionsComplete && other.allTransactionsComplete
  allPricesComplete := accumulator.allPricesComplete && other.allPricesComplete

end QualityAccumulator

/-! ## Buckets -/

structure ScopeBucket where
  attributed : DenseIdSet
  suspectedCandidates : DenseIdSet
  behaviorAnalyzedSuspectedCandidates : DenseIdSet
  legitCandidates : DenseIdSet
  economics : EconomicFacts
  quality : QualityAccumulator
  representativeCandidateCount : Nat
  infringingNftCount : Nat
  maliciousAddresses : Finset GlobalAddressId
  honestAddresses : Finset GlobalAddressId
  maliciousCandidateCounts : GlobalAddressId → Nat
  behaviorContracts : BehaviorKind → Nat
  behaviorInstances : BehaviorKind → Nat
  behaviorEntities : BehaviorKind → BehaviorEntities
  allBehaviorEntities : BehaviorEntities
  anyBehaviorContracts : Nat
  gasByCandidate : List Int
  lossByCandidate : List Int
  outputInputAtLeastOne : Nat
  outputInputBelowOne : Nat

namespace ScopeBucket

def empty : ScopeBucket where
  attributed := .empty
  suspectedCandidates := .empty
  behaviorAnalyzedSuspectedCandidates := .empty
  legitCandidates := .empty
  economics := .empty
  quality := .empty
  representativeCandidateCount := 0
  infringingNftCount := 0
  maliciousAddresses := ∅
  honestAddresses := ∅
  maliciousCandidateCounts := fun _ => 0
  behaviorContracts := fun _ => 0
  behaviorInstances := fun _ => 0
  behaviorEntities := fun _ => .empty
  allBehaviorEntities := .empty
  anyBehaviorContracts := 0
  gasByCandidate := []
  lossByCandidate := []
  outputInputAtLeastOne := 0
  outputInputBelowOne := 0

def mergeCrossCell (bucket other : ScopeBucket) : ScopeBucket where
  attributed := bucket.attributed.unionFrom other.attributed
  suspectedCandidates := bucket.suspectedCandidates.unionFrom other.suspectedCandidates
  behaviorAnalyzedSuspectedCandidates :=
    bucket.behaviorAnalyzedSuspectedCandidates.unionFrom
      other.behaviorAnalyzedSuspectedCandidates
  legitCandidates := bucket.legitCandidates.unionFrom other.legitCandidates
  economics := bucket.economics.accumulateUsd other.economics
  quality := bucket.quality.mergeFrom other.quality
  representativeCandidateCount :=
    bucket.representativeCandidateCount + other.representativeCandidateCount
  infringingNftCount := bucket.infringingNftCount + other.infringingNftCount
  maliciousAddresses := bucket.maliciousAddresses ∪ other.maliciousAddresses
  honestAddresses := bucket.honestAddresses ∪ other.honestAddresses
  maliciousCandidateCounts := fun address =>
    bucket.maliciousCandidateCounts address + other.maliciousCandidateCounts address
  behaviorContracts := fun kind => bucket.behaviorContracts kind + other.behaviorContracts kind
  behaviorInstances := fun kind => bucket.behaviorInstances kind + other.behaviorInstances kind
  behaviorEntities := fun kind =>
    (bucket.behaviorEntities kind).mergeFrom (other.behaviorEntities kind)
  allBehaviorEntities := bucket.allBehaviorEntities.mergeFrom other.allBehaviorEntities
  anyBehaviorContracts := bucket.anyBehaviorContracts + other.anyBehaviorContracts
  gasByCandidate := bucket.gasByCandidate ++ other.gasByCandidate
  lossByCandidate := bucket.lossByCandidate ++ other.lossByCandidate
  outputInputAtLeastOne := bucket.outputInputAtLeastOne + other.outputInputAtLeastOne
  outputInputBelowOne := bucket.outputInputBelowOne + other.outputInputBelowOne

/-! ### Absorbing a candidate -/

def absorbAmounts (bucket : ScopeBucket) (includeNative : Bool) (economics : EconomicFacts) :
    ScopeBucket :=
  let gas := economics.gasUsdMicros
  let output := economics.usdMicros .operatorOutput
  { bucket with
    economics :=
      if includeNative then bucket.economics.accumulate economics
      else bucket.economics.accumulateUsd economics
    gasByCandidate := bucket.gasByCandidate ++ [gas]
    lossByCandidate := bucket.lossByCandidate ++ [economics.usdMicros .honestLoss]
    outputInputAtLeastOne :=
      if 0 < gas ∧ 0 < output ∧ gas ≤ output then bucket.outputInputAtLeastOne + 1
      else bucket.outputInputAtLeastOne
    outputInputBelowOne :=
      if 0 < gas ∧ 0 < output ∧ output < gas then bucket.outputInputBelowOne + 1
      else bucket.outputInputBelowOne }

def absorbRole (bucket : ScopeBucket) (entry : GlobalAddressId × AddressRoleKind) : ScopeBucket :=
  let malicious : ScopeBucket :=
    { bucket with
      maliciousAddresses := insert entry.1 bucket.maliciousAddresses
      maliciousCandidateCounts := Function.update bucket.maliciousCandidateCounts entry.1
        (bucket.maliciousCandidateCounts entry.1 + 1) }
  let honest : ScopeBucket :=
    { bucket with
      honestAddresses := insert entry.1 bucket.honestAddresses }
  match entry.2 with
  | .suspectedOperator => malicious
  | .suspectedColluder => malicious
  | .likelyVictim => honest
  | .corruptedVictim => honest
  | .neutral => bucket

def absorbBehaviors (bucket : ScopeBucket) (behaviors : BehaviorFacts) : ScopeBucket :=
  { bucket with
    behaviorContracts := fun kind =>
      if behaviors kind = 0 then bucket.behaviorContracts kind
      else bucket.behaviorContracts kind + 1
    behaviorInstances := fun kind =>
      if behaviors kind = 0 then bucket.behaviorInstances kind
      else bucket.behaviorInstances kind + behaviors kind
    anyBehaviorContracts :=
      if BehaviorKind.all.any fun kind => behaviors kind ≠ 0 then bucket.anyBehaviorContracts + 1
      else bucket.anyBehaviorContracts }

def absorbEntities (includeNative : Bool) (bucket : ScopeBucket)
    (entities : BehaviorEntityDelta) : ScopeBucket :=
  { bucket with
    behaviorEntities := Function.update bucket.behaviorEntities entities.kind
      ((bucket.behaviorEntities entities.kind).merge entities includeNative)
    allBehaviorEntities := bucket.allBehaviorEntities.merge entities includeNative }

/-- What a candidate has in one scope. -/
structure CandidateShare where
  candidateId : CandidateId
  analysisComplete : Bool
  isSuspected : Bool
  isLegitOnly : Bool
  includeNative : Bool
  representativeNfts : Nat
  infringingNfts : Nat
  quality : EvidenceQuality
  bundle : ScopedSuspectedBundle

def countSuspected (bucket : ScopeBucket) (share : CandidateShare) : ScopeBucket :=
  { bucket with
    suspectedCandidates := (bucket.suspectedCandidates.insert share.candidateId).1
    behaviorAnalyzedSuspectedCandidates :=
      if share.analysisComplete then
        (bucket.behaviorAnalyzedSuspectedCandidates.insert share.candidateId).1
      else bucket.behaviorAnalyzedSuspectedCandidates
    infringingNftCount := bucket.infringingNftCount + share.infringingNfts }

def absorbSuspected (bucket : ScopeBucket) (share : CandidateShare) : ScopeBucket :=
  let amounts :=
    (bucket.countSuspected share).absorbAmounts share.includeNative share.bundle.economics
  let roles := share.bundle.addressRoles.foldl absorbRole amounts
  if share.analysisComplete then
    share.bundle.behaviorEntities.foldl (absorbEntities share.includeNative)
      (roles.absorbBehaviors share.bundle.behaviors)
  else roles

def countCandidate (bucket : ScopeBucket) (share : CandidateShare) : ScopeBucket :=
  { bucket with
    attributed := (bucket.attributed.insert share.candidateId).1
    quality := bucket.quality.add share.quality
    representativeCandidateCount :=
      bucket.representativeCandidateCount + share.representativeNfts }

def countLegit (bucket : ScopeBucket) (share : CandidateShare) : ScopeBucket :=
  { bucket with
    legitCandidates := (bucket.legitCandidates.insert share.candidateId).1 }

/-- `absorb_candidate`. -/
def absorbCandidate (bucket : ScopeBucket) (share : CandidateShare) : ScopeBucket :=
  let attributed := bucket.attributed.insert share.candidateId
  if attributed.2 then
    let counted := bucket.countCandidate share
    if share.isSuspected then counted.absorbSuspected share
    else if share.isLegitOnly then counted.countLegit share
    else counted
  else { bucket with attributed := attributed.1 }

end ScopeBucket

/-! ## The state -/

/-- `selection_count`: the largest whole contract, or else the distinct NFTs. -/
def selectionCount (relations : List RelationDelta) : Nat :=
  let counted := relations.foldl (fun counted relation =>
    match relation.selection with
    | .allInContract _ nftCount => (some (max (counted.1.getD 0) nftCount), counted.2)
    | .explicit nfts => (counted.1, counted.2 ∪ nfts.toFinset))
    ((none : Option Nat), (∅ : Finset NftKey))
  counted.1.getD counted.2.card

namespace AggregateDelta

variable (delta : AggregateDelta)

def allChainsShare : ScopeBucket.CandidateShare where
  candidateId := delta.candidateId
  analysisComplete := delta.analysisComplete
  isSuspected := delta.anySuspected
  isLegitOnly := delta.onlyLegit
  includeNative := false
  representativeNfts := selectionCount delta.relationDeltas
  infringingNfts := if delta.anySuspected then selectionCount delta.relationDeltas else 0
  quality := delta.candidateQuality
  bundle := ⟨delta.suspectedEconomics, delta.suspectedBehaviors, delta.behaviorEntities,
    delta.globalAddressRoles⟩

def emptyBundle : ScopedSuspectedBundle := ⟨.empty, fun _ => 0, [], []⟩

/-- What the candidate has in a matrix cell, with or without native amounts. -/
def cellShare (cell : ChainId × ChainId) (includeNative : Bool) :
    ScopeBucket.CandidateShare where
  candidateId := delta.candidateId
  analysisComplete := delta.analysisComplete
  isSuspected := delta.anySuspected
  isLegitOnly := delta.onlyLegit
  includeNative := includeNative
  representativeNfts := selectionCount (delta.cellRelations cell)
  infringingNfts := if delta.anySuspected then selectionCount (delta.cellRelations cell) else 0
  quality := delta.candidateQuality
  bundle := (delta.matrixSuspected cell).getD emptyBundle

end AggregateDelta

structure AggregateState where
  merged : DenseIdSet
  seedIds : Finset SeedId
  matrix : ChainId × ChainId → ScopeBucket
  allChains : ScopeBucket
  economicsByChain : ChainId → Option EconomicFacts
  observedNfts : Finset Nat
  observedTransactions : Finset Nat
  relationSuspected : SeedId × CandidateId → Option Bool

namespace AggregateState

def empty : AggregateState where
  merged := .empty
  seedIds := ∅
  matrix := fun _ => .empty
  allChains := .empty
  economicsByChain := fun _ => none
  observedNfts := ∅
  observedTransactions := ∅
  relationSuspected := fun _ => none

def addEconomicsByChain (known : ChainId → Option EconomicFacts) (delta : AggregateDelta) :
    ChainId → Option EconomicFacts :=
  if delta.anySuspected then
    match delta.candidateChain with
    | some chain => Function.update known chain
        (some (((known chain).getD .empty).accumulate delta.suspectedEconomics))
    | none => known
  else known

def absorbCell (delta : AggregateDelta) (matrix : ChainId × ChainId → ScopeBucket)
    (cell : ChainId × ChainId) : ChainId × ChainId → ScopeBucket :=
  Function.update matrix cell
    ((matrix cell).absorbCandidate (delta.cellShare cell (cell.1 = cell.2)))

def annotateFailures (quality : QualityAccumulator) (delta : AggregateDelta) :
    QualityAccumulator :=
  let failureCount := delta.candidateQuality.failures.length
  if 0 < failureCount then
    { quality with
      failureRecordsByChain := fun chain =>
        if delta.candidateChain = some chain then
          quality.failureRecordsByChain chain + failureCount
        else quality.failureRecordsByChain chain
      failureRecordsBySeed := fun seed =>
        if ∃ relation ∈ delta.relationDeltas, relation.seedId = seed then
          quality.failureRecordsBySeed seed + failureCount
        else quality.failureRecordsBySeed seed }
  else quality

/-- `merge_once` after the candidate is known to be new. -/
def absorb (state : AggregateState) (delta : AggregateDelta) : AggregateState :=
  let allChains := state.allChains.absorbCandidate delta.allChainsShare
  { merged := (state.merged.insert delta.candidateId).1
    seedIds := state.seedIds ∪ (delta.relationDeltas.map RelationDelta.seedId).toFinset
    matrix := delta.matrixKeys.foldl (absorbCell delta) state.matrix
    allChains := { allChains with
      quality := annotateFailures allChains.quality delta }
    economicsByChain := addEconomicsByChain state.economicsByChain delta
    observedNfts := state.observedNfts ∪ delta.globalNftIds.toFinset
    observedTransactions := state.observedTransactions ∪ delta.globalTransactionIds.toFinset
    relationSuspected := delta.relationDeltas.foldl (fun known relation =>
      Function.update known (relation.seedId, relation.candidateId) (some relation.suspected))
      state.relationSuspected }

def mergedTwiceError (candidateId : CandidateId) : Text :=
  "candidate ".toList ++ Text.ofNat candidateId ++ " aggregate merged more than once".toList

def mergeOnce (state : AggregateState) (delta : AggregateDelta) :
    Except Text Unit × AggregateState :=
  let merged := state.merged.insert delta.candidateId
  if merged.2 then (.ok (), state.absorb delta)
  else (.error (mergedTwiceError delta.candidateId), { state with merged := merged.1 })

end AggregateState

/-! ## Snapshots

Ratios are floating-point numbers, of which only the division is used. -/

section Snapshots

variable {Ratio : Type} (divide : Int → Int → Ratio)

def ratio (numerator denominator : Nat) : Option Ratio :=
  if denominator ≠ 0 then some (divide numerator denominator) else none

def amountRatio (numerator denominator : Int) : Option Ratio :=
  if 0 < denominator then some (divide numerator denominator) else none

def completeRatio (numerator denominator : Nat) (complete : Bool) : Option Ratio :=
  if complete = true ∧ denominator ≠ 0 ∧ numerator ≤ denominator then
    some (divide numerator denominator)
  else none

def topTenPercentRatio (values : List Int) : Option Ratio :=
  let sorted := (values.filter fun value => 0 ≤ value).insertionSort (· ≥ ·)
  if sorted.sum = 0 then none
  else some (divide (sorted.take ((sorted.length + 9) / 10)).sum sorted.sum)

structure QualityAggregateSnapshot (Ratio : Type) where
  statusCounts : QualityCategory → Option EvidenceStatus → Nat
  counts : QualityCounter → Nat
  salePriceParseRatio : Option Ratio
  candidateAssetCoverage : Option Ratio
  candidateAssetTruncatedContracts : Nat
  transactionCoverage : Option Ratio
  failureRecords : Nat
  failureRecordsByChain : ChainId → Nat
  failureRecordsBySeed : SeedId → Nat

def QualityAccumulator.snapshot (accumulator : QualityAccumulator) :
    QualityAggregateSnapshot Ratio where
  statusCounts := accumulator.statusCounts
  counts := accumulator.counts
  salePriceParseRatio := completeRatio divide (accumulator.counts .salePricesParsed)
    (accumulator.counts .salePricesTotal) accumulator.allPricesComplete
  candidateAssetCoverage := completeRatio divide (accumulator.counts .candidateAssetsAnalyzed)
    (accumulator.counts .candidateAssetsTotal) accumulator.allAssetsComplete
  candidateAssetTruncatedContracts := accumulator.candidateAssetTruncatedContracts
  transactionCoverage := completeRatio divide (accumulator.counts .transactionsFetched)
    (accumulator.counts .transactionsProviderReported) accumulator.allTransactionsComplete
  failureRecords := accumulator.failureRecords
  failureRecordsByChain := accumulator.failureRecordsByChain
  failureRecordsBySeed := accumulator.failureRecordsBySeed

structure BehaviorAggregateMetric (Ratio : Type) where
  contractCount : Nat
  contractCoverageRatio : Option Ratio
  instanceCount : Nat
  instanceRatio : Option Ratio
  addressCount : Nat
  nftCount : Nat
  linkedBuyerCount : Nat
  linkedLossNative : Int
  linkedLossUsdMicros : Int

structure EconomicAggregateDerived (Ratio : Type) where
  attackerGasUsdMicros : Int
  outputInputRatio : Option Ratio
  outputInputAtLeastOne : Nat
  outputInputBelowOne : Nat
  topTenPercentGasContributionRatio : Option Ratio
  topTenPercentLossContributionRatio : Option Ratio
  stuckNftRatio : Option Ratio
  stuckTimeRatio : Option Ratio

inductive AggregateScope where
  | chainMatrix
  | intraChain
  | crossChainSummary
  | allChains
  deriving DecidableEq, Repr

structure ScopedAggregateMetric (Ratio : Type) where
  scope : AggregateScope
  primaryChain : Option ChainId
  candidateChain : Option ChainId
  representativeCandidateCount : Nat
  candidateContractCount : Nat
  suspectedDuplicateContractCount : Nat
  behaviorAnalyzedSuspectedContractCount : Nat
  infringingNftCount : Nat
  legitDuplicateContractCount : Nat
  maliciousAddressCount : Nat
  repeatInfringingMaliciousAddressCount : Nat
  honestAddressCount : Nat
  totalClassifiedAddressCount : Nat
  analyzedSeedCount : Option Nat
  persistedCandidateCount : Option Nat
  observedUniqueNftCount : Option Nat
  observedUniqueTransactionCount : Option Nat
  behaviors : List (Text × BehaviorAggregateMetric Ratio)
  economics : EconomicFacts
  economicsDerived : EconomicAggregateDerived Ratio
  dataQuality : QualityAggregateSnapshot Ratio

namespace ScopeBucket

variable (bucket : ScopeBucket)

def totalBehaviorInstances : Nat := (BehaviorKind.all.map bucket.behaviorInstances).sum

def behaviorMetric (kind : BehaviorKind) : BehaviorAggregateMetric Ratio :=
  let entities := bucket.behaviorEntities kind
  { contractCount := bucket.behaviorContracts kind
    contractCoverageRatio := ratio divide (bucket.behaviorContracts kind)
      bucket.behaviorAnalyzedSuspectedCandidates.len
    instanceCount := bucket.behaviorInstances kind
    instanceRatio := ratio divide (bucket.behaviorInstances kind) bucket.totalBehaviorInstances
    addressCount := entities.addresses.len
    nftCount := entities.nfts.len
    linkedBuyerCount := entities.linkedBuyers.len
    linkedLossNative := entities.linkedLossNative
    linkedLossUsdMicros := entities.linkedLossUsdMicros }

def totalBehaviorMetric : BehaviorAggregateMetric Ratio :=
  let entities := bucket.allBehaviorEntities
  { contractCount := bucket.anyBehaviorContracts
    contractCoverageRatio := ratio divide bucket.anyBehaviorContracts
      bucket.behaviorAnalyzedSuspectedCandidates.len
    instanceCount := bucket.totalBehaviorInstances
    instanceRatio := ratio divide bucket.totalBehaviorInstances bucket.totalBehaviorInstances
    addressCount := entities.addresses.len
    nftCount := entities.nfts.len
    linkedBuyerCount := entities.linkedBuyers.len
    linkedLossNative := entities.linkedLossNative
    linkedLossUsdMicros := entities.linkedLossUsdMicros }

def economicsDerived : EconomicAggregateDerived Ratio where
  attackerGasUsdMicros := bucket.economics.gasUsdMicros
  outputInputRatio := amountRatio divide (bucket.economics.usdMicros .operatorOutput)
    bucket.economics.gasUsdMicros
  outputInputAtLeastOne := bucket.outputInputAtLeastOne
  outputInputBelowOne := bucket.outputInputBelowOne
  topTenPercentGasContributionRatio := topTenPercentRatio divide bucket.gasByCandidate
  topTenPercentLossContributionRatio := topTenPercentRatio divide bucket.lossByCandidate
  stuckNftRatio := ratio divide bucket.economics.stuckNftCount bucket.infringingNftCount
  stuckTimeRatio := amountRatio divide bucket.economics.stuckTimeNumeratorSeconds
    bucket.economics.stuckTimeDenominatorSeconds

/-- `scoped_metric`. An address has a count of candidates once it is malicious. -/
def scopedMetric (scope : AggregateScope) (primaryChain candidateChain : Option ChainId) :
    ScopedAggregateMetric Ratio where
  scope := scope
  primaryChain := primaryChain
  candidateChain := candidateChain
  representativeCandidateCount := bucket.representativeCandidateCount
  candidateContractCount := bucket.attributed.len
  suspectedDuplicateContractCount := bucket.suspectedCandidates.len
  behaviorAnalyzedSuspectedContractCount := bucket.behaviorAnalyzedSuspectedCandidates.len
  infringingNftCount := bucket.infringingNftCount
  legitDuplicateContractCount := bucket.legitCandidates.len
  maliciousAddressCount := bucket.maliciousAddresses.card
  repeatInfringingMaliciousAddressCount :=
    (bucket.maliciousAddresses.filter fun address =>
      2 ≤ bucket.maliciousCandidateCounts address).card
  honestAddressCount := (bucket.honestAddresses \ bucket.maliciousAddresses).card
  totalClassifiedAddressCount := (bucket.maliciousAddresses ∪ bucket.honestAddresses).card
  analyzedSeedCount := none
  persistedCandidateCount := none
  observedUniqueNftCount := none
  observedUniqueTransactionCount := none
  behaviors :=
    BehaviorKind.all.map (fun kind => (kind.asStr, bucket.behaviorMetric divide kind)) ++
      [("total".toList, bucket.totalBehaviorMetric divide)]
  economics := bucket.economics
  economicsDerived := bucket.economicsDerived divide
  dataQuality := bucket.quality.snapshot divide

end ScopeBucket

/-- The snapshot. Its counts of contracts, addresses and NFTs and its behaviours, economics and
quality repeat the row for all chains. -/
structure AggregateSnapshot (Ratio : Type) where
  persistedCandidateCount : Nat
  analyzedSeedCount : Nat
  candidateContractCount : Nat
  observedUniqueNftCount : Nat
  observedUniqueTransactionCount : Nat
  economicsByChain : ChainId → Option EconomicFacts
  allChains : ScopedAggregateMetric Ratio
  scopes : List (ScopedAggregateMetric Ratio)

namespace AggregateState

variable (state : AggregateState)

def matrixRows : List (ScopedAggregateMetric Ratio) :=
  ChainId.all.flatMap fun primary => ChainId.all.map fun candidate =>
    (state.matrix (primary, candidate)).scopedMetric divide .chainMatrix (some primary)
      (some candidate)

def intraRows : List (ScopedAggregateMetric Ratio) :=
  ((state.matrixRows divide).filter fun row => row.primaryChain = row.candidateChain).map
    fun row => { row with scope := .intraChain }

def crossBucket (primary : ChainId) : ScopeBucket :=
  (ChainId.all.filter fun candidate => candidate ≠ primary).foldl
    (fun bucket candidate => bucket.mergeCrossCell (state.matrix (primary, candidate))) .empty

def crossRow (primary : ChainId) : ScopedAggregateMetric Ratio :=
  (state.crossBucket primary).scopedMetric divide .crossChainSummary (some primary) none

def allChainsRow : ScopedAggregateMetric Ratio :=
  { state.allChains.scopedMetric divide .allChains none none with
    analyzedSeedCount := some state.seedIds.card
    persistedCandidateCount := some state.merged.len
    observedUniqueNftCount := some state.observedNfts.card
    observedUniqueTransactionCount := some state.observedTransactions.card }

def snapshot : AggregateSnapshot Ratio where
  persistedCandidateCount := state.merged.len
  analyzedSeedCount := state.seedIds.card
  candidateContractCount := state.merged.len
  observedUniqueNftCount := state.observedNfts.card
  observedUniqueTransactionCount := state.observedTransactions.card
  economicsByChain := state.economicsByChain
  allChains := state.allChainsRow divide
  scopes := state.matrixRows divide ++ state.intraRows divide ++
    ChainId.all.map (state.crossRow divide) ++ [state.allChainsRow divide]

end AggregateState

end Snapshots

end NftData.Analysis
