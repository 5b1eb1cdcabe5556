import NftData.Analysis.Model.Matching

namespace NftData.Analysis

/-! # Facts about a candidate

What the analysis of one candidate hands to the aggregate. Amounts and counters are exact
numbers: their saturation is left out. -/

/-- `ChainId::ALL`. -/
def ChainId.all : List ChainId := [.base, .ethereum, .polygon, .solana]

theorem ChainId.mem_all (chain : ChainId) : chain ∈ all := by
  cases chain <;> simp [all]

abbrev GlobalAddressId := Nat

/-- The kinds of amounts, each of which is known in native units and in US dollars. -/
inductive ValueFlow where
  | grossRevenue
  | marketplaceFee
  | funding
  | withdrawal
  | revenueBackflow
  | setupGas
  | lureGas
  | exitGas
  | operatorOutput
  | secondarySaleLoss
  | paidMintLoss
  | honestLoss
  deriving DecidableEq, Repr

@[ext]
structure EconomicFacts where
  native : ValueFlow → Int
  usdMicros : ValueFlow → Int
  stuckNftCount : Nat
  stuckTimeNumeratorSeconds : Int
  stuckTimeDenominatorSeconds : Int

inductive BehaviorKind where
  | washTrading
  | pumpAndExit
  | sybilDistribution
  | fraudRevenue
  | poisoning
  | layeredTransfer
  | inventoryConcentration
  deriving DecidableEq, Repr

namespace BehaviorKind

/-- The order of `behavior_values`. -/
def all : List BehaviorKind :=
  [.washTrading, .pumpAndExit, .sybilDistribution, .fraudRevenue, .poisoning, .layeredTransfer,
    .inventoryConcentration]

def asStr : BehaviorKind → Text
  | .washTrading => "wash_trading".toList
  | .pumpAndExit => "pump_and_exit".toList
  | .sybilDistribution => "sybil_distribution".toList
  | .fraudRevenue => "fraud_revenue".toList
  | .poisoning => "poisoning".toList
  | .layeredTransfer => "layered_transfer".toList
  | .inventoryConcentration => "inventory_concentration".toList

end BehaviorKind

/-- The instances of each kind; `wash_cycles` are those of wash trading. -/
abbrev BehaviorFacts := BehaviorKind → Nat

structure BehaviorEntityDelta where
  kind : BehaviorKind
  addresses : List GlobalAddressId
  nfts : List Nat
  linkedBuyers : List GlobalAddressId
  linkedLossNative : Int
  linkedLossUsdMicros : Int

inductive AddressRoleKind where
  | suspectedOperator
  | suspectedColluder
  | likelyVictim
  | corruptedVictim
  | neutral
  deriving DecidableEq, Repr

inductive EvidenceStatus where
  | notRequested
  | requested
  | complete
  | empty
  | truncated
  | failed
  deriving DecidableEq, Repr

inductive QualityCategory where
  | assets
  | histories
  | transactions
  | prices
  | authority
  deriving DecidableEq, Repr

inductive QualityCounter where
  | salePricesParsed
  | salePricesTotal
  | candidateAssetsAnalyzed
  | candidateAssetsTotal
  | historyAssetsRequested
  | historyAssetsSucceeded
  | historyAssetsComplete
  | historyAssetsFailed
  | historyAssetsNotRequested
  | historyAssetsTruncated
  | transactionsFetched
  | transactionsProviderReported
  | transactionsFailed
  | signatureDiscoveryFailures
  | transactionDetailFailures
  | unattributedSolanaTransactions
  | unresolvedCompressedMints
  | missingMintPreBalances
  | missingCollectionAuthorities
  | supplementalQueryFailures
  deriving DecidableEq, Repr

structure EvidenceQuality where
  status : QualityCategory → Option EvidenceStatus
  counts : QualityCounter → Nat
  failures : List Text

structure RelationDelta where
  seedId : SeedId
  seedChain : ChainId
  candidateId : CandidateId
  candidate : ContractKey
  selection : NftSelection
  suspected : Bool

/-- The facts of one matrix cell. -/
structure ScopedSuspectedBundle where
  economics : EconomicFacts
  behaviors : BehaviorFacts
  behaviorEntities : List BehaviorEntityDelta
  addressRoles : List (GlobalAddressId × AddressRoleKind)

structure AggregateDelta where
  candidateId : CandidateId
  analysisComplete : Bool
  relationDeltas : List RelationDelta
  suspectedEconomics : EconomicFacts
  suspectedBehaviors : BehaviorFacts
  behaviorEntities : List BehaviorEntityDelta
  matrixSuspected : ChainId × ChainId → Option ScopedSuspectedBundle
  candidateQuality : EvidenceQuality
  globalAddressRoles : List (GlobalAddressId × AddressRoleKind)
  globalNftIds : List Nat
  globalTransactionIds : List Nat

namespace AggregateDelta

variable (delta : AggregateDelta)

/-- `any_suspected`. -/
def anySuspected : Bool := delta.relationDeltas.any fun relation => relation.suspected

/-- `only_legit`. -/
def onlyLegit : Bool := !delta.anySuspected && !delta.relationDeltas.isEmpty

def candidateChain : Option ChainId :=
  delta.relationDeltas.head?.map fun relation => relation.candidate.chain

def matrixKeys : List (ChainId × ChainId) :=
  (ChainId.all.product ChainId.all).filter fun cell =>
    delta.relationDeltas.any fun relation =>
      (relation.seedChain, relation.candidate.chain) = cell

def cellRelations (cell : ChainId × ChainId) : List RelationDelta :=
  delta.relationDeltas.filter fun relation =>
    relation.seedChain = cell.1 ∧ relation.candidate.chain = cell.2

def OneCandidate : Prop :=
  ∀ first ∈ delta.relationDeltas, ∀ second ∈ delta.relationDeltas,
    first.candidate = second.candidate

end AggregateDelta

/-- The relation deltas of `project_relations`: those of the complete relations, by seed.
Labels tell which seeds suspect the candidate. -/
def projectRelations (candidateId : CandidateId) (candidate : ContractKey)
    (suspected : SeedId → Bool) (relations : List SeedCandidateRelation) : List RelationDelta :=
  let output := (relations.filter fun relation => !relation.incomplete).map fun relation =>
    { seedId := relation.seedId
      seedChain := relation.seed.chain
      candidateId := candidateId
      candidate := candidate
      selection := relation.selection
      suspected := suspected relation.seedId : RelationDelta }
  output.mergeSort fun left right => decide (left.seedId ≤ right.seedId)

end NftData.Analysis
