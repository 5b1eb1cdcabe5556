import NftData.Analysis.Model.Matching

namespace NftData.Analysis

/-! # Resident store

Contracts are numbered in the order of their keys, and features refer to them by number. -/

abbrev ContractId := Nat

abbrev NameValueId := Nat

abbrev ProfileId := Nat

abbrev MetadataId := Nat

def ChainId.isEvm : ChainId → Bool
  | .solana => false
  | _ => true

structure ContractRecord where
  chain : ChainId
  address : Text
  nftCount : Nat
  deriving DecidableEq, Repr

structure ContractCatalog where
  contracts : List ContractRecord

namespace ContractCatalog

def record (catalog : ContractCatalog) (id : ContractId) : ContractRecord :=
  catalog.contracts.getD id ⟨.base, [], 0⟩

def key (catalog : ContractCatalog) (id : ContractId) : ContractKey :=
  ⟨(catalog.record id).chain, (catalog.record id).address⟩

end ContractCatalog

/-- What the queries of a seed start from. -/
structure SeedRawQuery where
  seedId : SeedId
  contractId : ContractId
  nameValue : Option NameValueId
  metadataProfile : Option ProfileId
  metadataDocuments : List MetadataId

/-- One reason why a candidate contract may copy a seed contract. -/
structure DedupHit where
  seedId : SeedId
  seedContract : ContractId
  candidateContract : ContractId
  dimension : Dimension
  selection : NftSelection
  evidence : MatchEvidence
  deriving DecidableEq

end NftData.Analysis
