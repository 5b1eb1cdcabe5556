import NftData.Dedup.Entity.Metadata

namespace NftData.Dedup.EntityStore

/-! # Stores that differ in their string identifiers only

Shards number their strings in an order of their own. Everything else of a valid
store, identifiers and counters included, is determined by its table and by the
records of its contracts. -/

open List

/-- An NFT with its interned strings read back. -/
structure ResolvedNft where
  id : Nat
  contractId : Nat
  tokenId : Text
  value : NftValue

def resolve (store : EntityStore) (nft : Nft) : ResolvedNft :=
  ⟨nft.id, nft.contractId, nft.tokenId, store.nftValue nft⟩

structure SameUpToStrings (left right : EntityStore) : Prop where
  chains : left.chains = right.chains
  chainIds : left.chainIds = right.chainIds
  contracts : left.contracts = right.contracts
  contractIndex : left.contractIndex = right.contractIndex
  nfts : left.nfts.map left.resolve = right.nfts.map right.resolve
  nftIndex : left.nftIndex = right.nftIndex
  totals : left.totals = right.totals
  rowsLoaded : left.rowsLoaded = right.rowsLoaded

section Determined

variable {left right : EntityStore}

/-- Chains with one name have one identifier. -/
private theorem chainId_eq (leftValid : Valid left) (sameChains : left.chains = right.chains)
    {leftId rightId : Nat} (leftInside : leftId < left.chains.length)
    (rightInside : rightId < right.chains.length)
    (sameName : left.chains[leftId]?.getD [] = right.chains[rightId]?.getD []) :
    leftId = rightId := by
  rw [← sameChains] at rightInside sameName
  rw [List.getElem?_eq_getElem leftInside, List.getElem?_eq_getElem rightInside,
    Option.getD_some, Option.getD_some] at sameName
  apply leftValid.chainKeys.position_unique (List.getElem?_eq_getElem leftInside)
  rw [sameName]
  exact List.getElem?_eq_getElem rightInside

theorem contractKeys_eq (leftValid : Valid left) (rightValid : Valid right)
    (sameTable : left.table = right.table) :
    left.contracts.map Contract.key = right.contracts.map Contract.key := by
  have sameChains : left.chains = right.chains := congrArg Table.chains sameTable
  have sameNames : left.contracts.map left.contractName =
      right.contracts.map right.contractName := congrArg Table.contracts sameTable
  have sameLength : left.contracts.length = right.contracts.length := by
    simpa using congrArg List.length sameNames
  apply ext_getElem (by simpa using sameLength)
  intro position leftInside rightInside
  rw [length_map] at leftInside rightInside
  have named : left.contractName left.contracts[position] =
      right.contractName right.contracts[position] := by
    have found := getElem_of_eq sameNames (by simpa using leftInside)
    simpa using found
  rw [getElem_map, getElem_map]
  apply Prod.ext
  · exact chainId_eq leftValid sameChains
      (leftValid.contractChains _ (getElem_mem leftInside))
      (rightValid.contractChains _ (getElem_mem rightInside))
      (congrArg Prod.fst named)
  · change left.contracts[position].address = right.contracts[position].address
    exact congrArg Prod.snd named

theorem resolved_eq (leftValid : Valid left) (rightValid : Valid right)
    (sameTable : left.table = right.table) :
    left.nfts.map left.resolve = right.nfts.map right.resolve := by
  have sameNames : left.contracts.map left.contractName =
      right.contracts.map right.contractName := congrArg Table.contracts sameTable
  have sameEntries : left.nfts.map left.nftEntry = right.nfts.map right.nftEntry :=
    congrArg Table.nfts sameTable
  have sameLength : left.nfts.length = right.nfts.length := by
    simpa using congrArg List.length sameEntries
  apply ext_getElem (by simpa using sameLength)
  intro position leftInside rightInside
  rw [length_map] at leftInside rightInside
  have entry : left.nftEntry left.nfts[position] =
      right.nftEntry right.nfts[position] := by
    have found := getElem_of_eq sameEntries (by simpa using leftInside)
    simpa using found
  have leftContract := leftValid.nftContracts _ (getElem_mem leftInside)
  have rightContract := rightValid.nftContracts _ (getElem_mem rightInside)
  have sameContract : left.nfts[position].contractId = right.nfts[position].contractId := by
    have contract := congrArg (fun entry => entry.1.1) entry
    simp only [nftEntry, nftName, ← sameNames] at contract
    rw [List.getElem?_eq_getElem (by simpa using leftContract),
      List.getElem?_eq_getElem (by
        rw [congrArg List.length sameNames]
        simpa using rightContract),
      Option.getD_some, Option.getD_some] at contract
    exact (contractNames_nodup leftValid).getElem_inj_iff.mp contract
  rw [getElem_map, getElem_map, resolve, resolve, sameContract,
    leftValid.nftIds position _ (List.getElem?_eq_getElem leftInside),
    rightValid.nftIds position _ (List.getElem?_eq_getElem rightInside),
    show left.nfts[position].tokenId = right.nfts[position].tokenId from
      congrArg (fun entry => entry.1.2) entry,
    show left.nftValue left.nfts[position] = right.nftValue right.nfts[position] from
      congrArg Prod.snd entry]

theorem metadataOf_contractName {store : EntityStore} (valid : Valid store)
    {contract : Contract} (member : contract ∈ store.contracts) :
    store.metadataOf (store.contractName contract) = contract.metadataByToken := by
  rcases List.getElem?_of_mem member with ⟨position, found⟩
  have describedAt : store.described[position]? =
      some (store.contractName contract, contract.metadataByToken) := by
    rw [described, List.getElem?_map, found, Option.map_some]
  rw [metadataOf, lookup_of_getElem? (described_nodup valid) describedAt,
    Option.getD_some]

theorem contracts_eq (leftValid : Valid left) (rightValid : Valid right)
    (sameTable : left.table = right.table)
    (sameMetadata : ∀ name, left.metadataOf name = right.metadataOf name) :
    left.contracts = right.contracts := by
  have sameKeys := contractKeys_eq leftValid rightValid sameTable
  have sameChains : left.chains = right.chains := congrArg Table.chains sameTable
  have sameNfts := resolved_eq leftValid rightValid sameTable
  have sameContractIds : left.nfts.map Nft.contractId = right.nfts.map Nft.contractId := by
    have := congrArg (List.map ResolvedNft.contractId) sameNfts
    rw [map_map, map_map] at this
    exact this
  have sameLength : left.contracts.length = right.contracts.length := by
    simpa using congrArg List.length sameKeys
  apply ext_getElem sameLength
  intro position leftInside rightInside
  have leftMember := getElem_mem leftInside
  have rightMember := getElem_mem rightInside
  have key : left.contracts[position].key = right.contracts[position].key := by
    have found := getElem_of_eq sameKeys (by simpa using leftInside)
    simpa using found
  have chain : left.contracts[position].chainId = right.contracts[position].chainId :=
    congrArg Prod.fst key
  have address : left.contracts[position].address = right.contracts[position].address :=
    congrArg Prod.snd key
  have leftId := leftValid.contractIds position _ (List.getElem?_eq_getElem leftInside)
  have rightId := rightValid.contractIds position _ (List.getElem?_eq_getElem rightInside)
  have count : left.contracts[position].nftCount = right.contracts[position].nftCount := by
    have counted : ∀ nfts : List Nft, nfts.countP (fun nft => nft.contractId == position) =
        (nfts.map Nft.contractId).count position := by
      intro nfts
      rw [List.count, countP_map]
      rfl
    rw [leftValid.nftCounts _ leftMember, rightValid.nftCounts _ rightMember, leftId,
      rightId, counted, counted, sameContractIds]
  have metadata : left.contracts[position].metadataByToken =
      right.contracts[position].metadataByToken := by
    rw [← metadataOf_contractName leftValid leftMember,
      ← metadataOf_contractName rightValid rightMember, sameMetadata, contractName,
      contractName, chain, address, sameChains]
  have idEqual := leftId.trans rightId.symm
  generalize left.contracts[position] = leftContract at *
  generalize right.contracts[position] = rightContract at *
  cases leftContract
  cases rightContract
  simp_all

private theorem lookup_eq {Key : Type} {keys : List Key} {first second : Key → Option Nat}
    (firstInverse : IsInverse keys first) (secondInverse : IsInverse keys second) :
    first = second := by
  funext key
  apply Option.ext
  intro position
  rw [firstInverse, secondInverse]

/-- A valid store is determined by its table and its records, up to the numbers
of its strings. -/
theorem sameUpToStrings (leftValid : Valid left) (rightValid : Valid right)
    (sameTable : left.table = right.table)
    (sameMetadata : ∀ name, left.metadataOf name = right.metadataOf name) :
    SameUpToStrings left right := by
  have sameChains : left.chains = right.chains := congrArg Table.chains sameTable
  have sameContracts := contracts_eq leftValid rightValid sameTable sameMetadata
  have sameNfts := resolved_eq leftValid rightValid sameTable
  have sameNftKeys : left.nfts.map Nft.key = right.nfts.map Nft.key := by
    have := congrArg (List.map fun nft : ResolvedNft => (nft.contractId, nft.tokenId))
      sameNfts
    rw [map_map, map_map] at this
    exact this
  have sameLength : left.nfts.length = right.nfts.length := by
    simpa using congrArg List.length sameNfts
  refine ⟨sameChains, ?_, sameContracts, ?_, sameNfts, ?_, ?_, ?_⟩
  · exact lookup_eq leftValid.chainKeys (sameChains ▸ rightValid.chainKeys)
  · exact lookup_eq leftValid.contractKeys (sameContracts ▸ rightValid.contractKeys)
  · exact lookup_eq leftValid.nftKeys (sameNftKeys ▸ rightValid.nftKeys)
  · funext chainId
    have sameNftsOn : left.nftsOn chainId = right.nftsOn chainId := by
      have counted : ∀ store : EntityStore, store.nftsOn chainId =
          (store.nfts.map Nft.key).countP fun key =>
            (store.contracts.map Contract.chainId)[key.1]? == some chainId := by
        intro store
        rw [nftsOn, countP_map]
        rfl
      rw [counted, counted, sameNftKeys, sameContracts]
    have sameContractsOn : left.contractsOn chainId = right.contractsOn chainId := by
      rw [contractsOn, contractsOn, sameContracts]
    rw [leftValid.totals, rightValid.totals, sameChains, sameContractsOn, sameNftsOn]
  · rw [leftValid.rowsLoaded, rightValid.rowsLoaded, sameLength]

end Determined

end NftData.Dedup.EntityStore
