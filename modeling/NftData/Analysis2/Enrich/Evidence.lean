import NftData.Analysis2.Candidate.Projection

namespace NftData.Analysis2

/-! # Evidence of a candidate

The events that providers report for a contract. Amounts are the finite numbers of `f64`, which are
rational. -/

inductive ValueFlowKind where
  | funding
  | withdrawal
  | cashout
  | revenueBackflow
  deriving DecidableEq, Repr

/-- Native value that moves around operators. -/
structure ValueFlowEdge where
  txHash : Text
  eventId : Option Text
  fromAddress : Text
  toAddress : Text
  kind : ValueFlowKind
  nativeAmount : Option ℚ
  usdAmount : Option ℚ
  gasNative : Option ℚ
  feePayer : Option Text
  deriving DecidableEq

/-- A transfer or mint of an NFT. -/
structure TransferEvent where
  txHash : Text
  tokenId : Text
  fromAddress : Text
  toAddress : Text
  timestamp : Option Int
  blockNumber : Option Nat
  isMint : Bool
  gasNative : Option ℚ
  feePayer : Option Text
  mintPaymentNative : Option ℚ
  mintPaymentUsd : Option ℚ
  mintPaymentReceiver : Option Text
  deriving DecidableEq

/-- A sale of an NFT. -/
structure SaleEvent where
  txHash : Text
  tokenId : Text
  seller : Text
  buyer : Text
  timestamp : Option Int
  blockNumber : Option Nat
  marketplace : Option Text
  nativeAmount : Option ℚ
  usdAmount : Option ℚ
  currencySymbol : Option Text
  currencyAddress : Option Text
  sellerProceedsNative : Option ℚ
  sellerProceedsUsd : Option ℚ
  marketplaceFeeNative : Option ℚ
  marketplaceFeeUsd : Option ℚ
  royaltyFeeNative : Option ℚ
  royaltyFeeUsd : Option ℚ
  royaltyRecipient : Option Text
  gasNative : Option ℚ
  feePayer : Option Text
  deriving DecidableEq

structure DeploymentEvent where
  txHash : Text
  gasNative : Option ℚ
  feePayer : Option Text
  deriving DecidableEq

structure HolderRecord where
  tokenId : Text
  owner : Text
  balance : Option Int
  deriving DecidableEq

structure PriceBucket where
  chain : Text
  symbol : Text
  tokenAddress : Option Text
  usdPerNative : ℚ
  deriving DecidableEq

/-- The events of a bundle. -/
structure CandidateEvents where
  transfers : List TransferEvent
  sales : List SaleEvent
  holders : List HolderRecord
  prices : List PriceBucket
  valueFlows : List ValueFlowEdge
  controllers : List Text
  deployment : Option DeploymentEvent
  deploymentTimestamp : Option Int
  deriving DecidableEq

def CandidateEvents.empty : CandidateEvents := ⟨[], [], [], [], [], [], none, none⟩

abbrev CandidateEvidence := ContractEvidence CandidateEvents

/-- `EvidenceQuality::default`. -/
def EvidenceQuality.unknown : EvidenceQuality where
  transfers := .notRequested
  sales := .notRequested
  holders := .notRequested
  prices := .notRequested
  assets := .notRequested
  histories := .notRequested
  gas := .notRequested
  valueFlows := .notRequested
  excludedNonNft := false
  identityExclusionReason := none
  failures := []
  truncationReasons := []

/-- `EvidenceBundle::empty`. -/
def CandidateEvidence.empty (contractId : Nat) (chain address : Text) : CandidateEvidence where
  contractId := contractId
  chain := chain
  address := address
  events := .empty
  collectionNftCount := none
  collectionNftCountComplete := false
  quality := .unknown

/-- Hashes of Solana are case-sensitive, hexadecimal ones are not. -/
def normalizeChainTransaction (chain txHash : Text) : Text :=
  if chain.trim.equalsIgnoringAsciiCase "solana".toList then
    txHash.trim
  else
    txHash.trim.toAsciiLowercase

end NftData.Analysis2
