import NftData.Analysis2.Entity.Loading
import NftData.Dedup.Entity.Resolved

namespace NftData.Analysis2.ResidentStore

open List
open Dedup (EntityStore NftName Table)

/-! # Resident stores that differ in their string identifiers only -/

/-- An NFT with its interned strings read back. -/
structure ResolvedNft where
  contractId : Nat
  tokenId : Option Text
  name : Option Text
  tokenUri : Option Text
  imageUri : Option Text
  deriving DecidableEq

def text (store : ResidentStore) (id : Option Nat) : Option Text :=
  id.bind fun id => store.strings.strings[id]?

def resolve (store : ResidentStore) (nft : Nft) : ResolvedNft :=
  ⟨nft.contractId, store.strings.strings[nft.tokenIdId]?, store.text nft.nameId,
    store.text nft.tokenUriId, store.text nft.imageUriId⟩

/-- Equal but for the numbers of the strings: the lookups by text agree, and identifiers,
counters and totals are the same. -/
structure SameUpToStrings (left right : ResidentStore) : Prop where
  chains : left.chains = right.chains
  chainIds : left.chainIds = right.chainIds
  contracts : left.contracts = right.contracts
  contractId : left.contractId = right.contractId
  nfts : left.nfts.map left.resolve = right.nfts.map right.resolve
  nftId : left.nftId = right.nftId
  totals : left.totals = right.totals
  rowsLoaded : left.rowsLoaded = right.rowsLoaded

/-- The `(chain, contract, token)` key of an NFT. -/
def identity (store : ResidentStore) (nft : Nft) : Option NftName := do
  let contract ← store.contracts[nft.contractId]?
  let chain ← store.chains[contract.chainId]?
  let tokenId ← store.strings.strings[nft.tokenIdId]?
  some ((chain, contract.address), tokenId)

section Matches

variable {store : ResidentStore} {image : EntityStore}

section

variable (same : Matches store image)
include same

variable {value : Text}

theorem Matches.lookup_strings {id : Nat} (found : store.strings.lookup value = some id) :
    store.strings.strings[id]? = some value := by
  have inverse := same.valid.stringKeys
  rw [same.strings, same.stringIds] at inverse
  exact inverse.get_of_lookup found

theorem Matches.lookup_none (missing : store.strings.lookup value = none) :
    value ∉ store.strings.strings := by
  have inverse := same.valid.stringKeys
  rw [same.strings, same.stringIds] at inverse
  exact (inverse.lookup_eq_none_iff value).mp missing

theorem Matches.contractId_eq (chain address : Text) :
    store.contractId chain address =
      (image.chainIds chain).bind fun chainId => image.contractIndex (chainId, address) := by
  rw [ResidentStore.contractId, same.chainIds]
  cases store.chainIds chain with
  | none => rfl
  | some chainId =>
      cases found : store.strings.lookup address with
      | none => exact (same.contractIndex_unused (same.lookup_none found) chainId).symm
      | some addressId =>
          change store.contractIndex (chainId, addressId) = _
          rw [same.contractIndex, same.lookup_strings found]
          rfl

theorem Matches.nftId_eq (contractId : Nat) (tokenId : Text) :
    store.nftId contractId tokenId = image.nftIndex (contractId, tokenId) := by
  rw [ResidentStore.nftId]
  cases found : store.strings.lookup tokenId with
  | none => exact (same.nftIndex_unused (same.lookup_none found) contractId).symm
  | some tokenSid =>
      change store.nftIndex (contractId, tokenSid) = _
      rw [same.nftIndex, same.lookup_strings found]
      rfl

theorem Matches.text_eq (id : Option Nat) :
    store.text id = image.text id := by
  rw [text, EntityStore.text, same.strings]

theorem Matches.resolve_eq :
    store.nfts.map store.resolve = (image.nfts.map image.resolve).map fun nft =>
      ⟨nft.contractId, some nft.tokenId, nft.value.name, nft.value.tokenUri,
        nft.value.imageUri⟩ := by
  rw [map_map, ← forall₂_eq_eq_eq, forall₂_map_left_iff,
    forall₂_map_right_iff]
  apply same.nfts.imp
  intro nft other related
  rw [resolve, related.token, same.text_eq, same.text_eq, same.text_eq,
    Function.comp_apply, EntityStore.resolve, related.contractId, EntityStore.nftValue,
    related.nameId, related.tokenUriId, related.imageUriId]

/-- The identity of every NFT is known. -/
theorem Matches.identity_eq :
    store.nfts.map store.identity = image.nfts.map fun nft => some (image.nftName nft) := by
  rw [← forall₂_eq_eq_eq, forall₂_map_left_iff, forall₂_map_right_iff]
  have members : List.Forall₂ (fun nft other => MatchesNft store.strings.strings nft other ∧
      other ∈ image.nfts) store.nfts image.nfts := by
    rw [forall₂_iff_get]
    refine ⟨same.nfts.length_eq, fun position inside imageInside => ?_⟩
    exact ⟨(forall₂_iff_get.mp same.nfts).2 position inside imageInside,
      get_mem image.nfts ⟨position, imageInside⟩⟩
  apply members.imp
  intro nft other both
  rcases both with ⟨related, member⟩
  have contractInside : nft.contractId < store.contracts.length := by
    have inside := same.valid.nftContracts other member
    rwa [same.contracts, length_map, related.contractId] at inside
  have contractAt := List.getElem?_eq_getElem contractInside
  have chainInside : store.contracts[nft.contractId].chainId < store.chains.length := by
    have inside := same.valid.contractChains (viewContract store.contracts[nft.contractId])
      (same.contracts ▸ mem_map_of_mem (getElem_mem contractInside))
    rwa [same.chains] at inside
  have chainAt := List.getElem?_eq_getElem chainInside
  have imageContract : image.contracts[nft.contractId]? =
      some (viewContract store.contracts[nft.contractId]) := by
    rw [same.contracts, List.getElem?_map, contractAt]
    rfl
  have imageChain : image.chains[store.contracts[nft.contractId].chainId]? =
      some store.chains[store.contracts[nft.contractId].chainId] := by
    rw [same.chains]
    exact chainAt
  rw [identity, contractAt, Option.bind_eq_bind, Option.bind_some, chainAt]
  simp only [Option.bind_eq_bind, Option.bind_some, related.token, EntityStore.nftName,
    related.contractId, List.getElem?_map, imageContract, Option.map_some, Option.getD_some,
    EntityStore.contractName, viewContract, imageChain]

end

end Matches

variable {strings : Finset Text} {store : ResidentStore} {table : Table}

theorem Represents.identities (represents : Represents strings store table) :
    store.nfts.map store.identity = (table.nfts.map Prod.fst).map some := by
  rcases represents with ⟨image, same, represents⟩
  rw [same.identity_eq, ← represents.reads, EntityStore.table, map_map, map_map]
  rfl

theorem Matches.metadataOf_eq {image : EntityStore} (same : Matches store image)
    (name : Dedup.ContractName) : image.metadataOf name = [] := by
  rw [EntityStore.metadataOf]
  cases found : image.described.lookup name with
  | none => rfl
  | some records =>
      rcases lookup_eq_some_iff.mp found with ⟨front, back, split, _⟩
      have member : (name, records) ∈ image.described := by simp [split]
      rcases mem_map.mp member with ⟨contract, inside, equal⟩
      rw [same.contracts] at inside
      rcases mem_map.mp inside with ⟨original, _, isView⟩
      have records := congrArg Prod.snd equal
      rw [← isView] at records
      exact records.symm

theorem contract_eq_of_view {left right : Contract} (leftName : left.nameId = none)
    (rightName : right.nameId = none) (leftMetadata : left.metadataByToken = [])
    (rightMetadata : right.metadataByToken = [])
    (sameView : viewContract left = viewContract right) : left = right := by
  rcases left with ⟨leftId, leftChain, leftAddress, leftCount, leftNameId, leftRecords⟩
  rcases right with ⟨rightId, rightChain, rightAddress, rightCount, rightNameId, rightRecords⟩
  rw [viewContract, viewContract, Dedup.Contract.mk.injEq] at sameView
  rw [Contract.mk.injEq]
  exact ⟨sameView.1, sameView.2.1, sameView.2.2.1, sameView.2.2.2.1,
    leftName.trans rightName.symm, leftMetadata.trans rightMetadata.symm⟩

theorem viewTotals_injective : Function.Injective viewTotals := by
  intro left right same
  rcases left with ⟨leftContracts, leftNfts⟩
  rcases right with ⟨rightContracts, rightNfts⟩
  rw [viewTotals, viewTotals, Dedup.ChainTotals.mk.injEq] at same
  rw [ChainTotals.mk.injEq]
  exact same

theorem Represents.sameUpToStrings {left right : ResidentStore}
    (leftRepresents : Represents strings left table)
    (rightRepresents : Represents strings right table) : SameUpToStrings left right := by
  rcases leftRepresents with ⟨leftImage, leftSame, leftRepresents⟩
  rcases rightRepresents with ⟨rightImage, rightSame, rightRepresents⟩
  have same := EntityStore.sameUpToStrings leftRepresents.valid rightRepresents.valid
    (leftRepresents.reads.trans rightRepresents.reads.symm)
    fun name => (leftSame.metadataOf_eq name).trans (rightSame.metadataOf_eq name).symm
  have contracts : left.contracts = right.contracts := by
    have views : left.contracts.map viewContract = right.contracts.map viewContract := by
      rw [← leftSame.contracts, ← rightSame.contracts, same.contracts]
    have sameLength : left.contracts.length = right.contracts.length := by
      simpa using congrArg List.length views
    apply ext_getElem sameLength
    intro position leftInside rightInside
    have leftMember := getElem_mem leftInside
    have rightMember := getElem_mem rightInside
    apply contract_eq_of_view (leftSame.noNames _ leftMember) (rightSame.noNames _ rightMember)
      (leftSame.noMetadata _ leftMember) (rightSame.noMetadata _ rightMember)
    have found := getElem_of_eq views (by simpa using leftInside)
    simpa using found
  refine ⟨?_, ?_, contracts, ?_, ?_, ?_, ?_, ?_⟩
  · rw [← leftSame.chains, ← rightSame.chains, same.chains]
  · rw [← leftSame.chainIds, ← rightSame.chainIds, same.chainIds]
  · funext chain address
    rw [leftSame.contractId_eq, rightSame.contractId_eq, same.chainIds, same.contractIndex]
  · rw [leftSame.resolve_eq, rightSame.resolve_eq, same.nfts]
  · funext contractId tokenId
    rw [leftSame.nftId_eq, rightSame.nftId_eq, same.nftIndex]
  · funext chainId
    have views := congrFun same.totals chainId
    rw [leftSame.totals chainId, rightSame.totals chainId] at views
    exact Option.map_injective viewTotals_injective views
  · rw [← leftSame.rowsLoaded, ← rightSame.rowsLoaded, same.rowsLoaded]

end NftData.Analysis2.ResidentStore
