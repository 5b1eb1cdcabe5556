import NftData.Foundation.BinarySearch
import NftData.Dedup.Entity.TokenOrder

namespace NftData.Dedup

/-! # Store operations

Loading a row and merging a shard, step by step as the loader performs them.
A failed operation abandons the load, so only its error is kept. -/

namespace EntityStore

def withOptions (metadataAnchorLimit : Option Nat) (evmChains : Finset Text) :
    EntityStore where
  chains := []
  chainIds := fun _ => none
  contracts := []
  contractIndex := fun _ => none
  nfts := []
  nftIndex := fun _ => none
  strings := []
  stringIds := fun _ => none
  tokenUriPostings := []
  imageUriPostings := []
  totals := fun _ => none
  rowsLoaded := 0
  metadataAnchorLimit := metadataAnchorLimit
  deferMetadataSort := false
  evmChains := evmChains

def deferUnboundedMetadataSort (store : EntityStore) : EntityStore :=
  { store with deferMetadataSort := store.metadataAnchorLimit.isNone }

def ensureChain (store : EntityStore) (chain : Text) :
    Except DedupError (Nat × EntityStore) :=
  match store.chainIds chain with
  | some id => .ok (id, store)
  | none => do
      let id ← tryFrom chainIdCapacity store.chains.length
        "too many chains for ChainId"
      .ok (id, { store with
        chains := store.chains ++ [chain]
        chainIds := Function.update store.chainIds chain (some id)
        totals := Function.update store.totals id (some ChainTotals.default) })

def internString (store : EntityStore) (value : Text) :
    Except DedupError (Nat × EntityStore) :=
  match store.stringIds value with
  | some id => .ok (id, store)
  | none => do
      let id ← tryFrom stringIdCapacity store.strings.length
        "too many interned strings"
      .ok (id, { store with
        strings := store.strings ++ [value]
        stringIds := Function.update store.stringIds value (some id) })

/-- `totals.entry(chain_id).or_default()`, updated in place. -/
def updateTotals (store : EntityStore) (chainId : Nat)
    (change : ChainTotals → ChainTotals) : EntityStore :=
  { store with
    totals := Function.update store.totals chainId
      (some (change ((store.totals chainId).getD ChainTotals.default))) }

/-- Find the contract of a key or create it: the block that `try_ingest_row` and
`merge_shard` share. -/
def ensureContract (store : EntityStore) (chainId : Nat) (address : Text) :
    Except DedupError (Nat × EntityStore) :=
  match store.contractIndex (chainId, address) with
  | some id => .ok (id, store)
  | none => do
      let id ← tryFrom contractIdCapacity store.contracts.length
        "too many contracts for ContractId"
      let contract : Contract := ⟨id, chainId, address, 0, []⟩
      let pushed := { store with
        contracts := store.contracts ++ [contract]
        contractIndex :=
          Function.update store.contractIndex (chainId, address) (some id) }
      .ok (id, pushed.updateTotals chainId fun totals =>
        { totals with contracts := totals.contracts + 1 })

/-- `self.contracts[contract_id]`, updated in place. -/
def updateContract (store : EntityStore) (contractId : Nat)
    (change : Contract → Contract) : Except DedupError EntityStore := do
  let contract ← indexed store.contracts contractId
  .ok { store with contracts := store.contracts.set contractId (change contract) }

/-- The immediate insertion: the first record of a token wins, the list stays
sorted, and a configured limit drops its last element. -/
def insertAnchor (limit : Option Nat) (isEvm : Bool) (anchors : List MetadataRecord)
    (record : MetadataRecord) : List MetadataRecord :=
  if anchors.any fun existing => existing.tokenId == record.tokenId then
    anchors
  else
    let insertAt := searchPosition anchors fun existing =>
      compareTokenIds existing.tokenId record.tokenId isEvm
    match limit with
    | none => anchors.insertIdx insertAt record
    | some limit =>
        if limit ≤ insertAt ∧ limit ≤ anchors.length then
          anchors
        else
          let inserted := anchors.insertIdx insertAt record
          if limit < inserted.length then inserted.dropLast else inserted

def insertMetadataAnchor (store : EntityStore) (contractId : Nat) (chain : Text)
    (record : MetadataRecord) : Except DedupError EntityStore :=
  if store.metadataAnchorLimit = some 0 then
    .ok store
  else if store.deferMetadataSort then
    store.updateContract contractId fun contract =>
      { contract with metadataByToken := contract.metadataByToken ++ [record] }
  else
    store.updateContract contractId fun contract =>
      { contract with
        metadataByToken := insertAnchor store.metadataAnchorLimit
          (decide (chain ∈ store.evmChains)) contract.metadataByToken record }

/-- The order of the deferred sort: token order, then token text, then source. -/
def anchorOrder (isEvm : Bool) (left right : MetadataRecord) : Ordering :=
  ((compareTokenIds left.tokenId right.tokenId isEvm).then
    (cmp left.tokenId right.tokenId)).then
      (left.sourceOrder.compare right.sourceOrder)

def finalizeAnchors (isEvm : Bool) (anchors : List MetadataRecord) :
    List MetadataRecord :=
  (anchors.insertionSort fun left right => (anchorOrder isEvm left right).isLE)
    |>.destutter fun left right => left.tokenId ≠ right.tokenId

def finalizeContract (store : EntityStore) (contract : Contract) :
    Except DedupError Contract := do
  let chain ← indexed store.chains contract.chainId
  .ok { contract with
    metadataByToken :=
      finalizeAnchors (decide (chain ∈ store.evmChains)) contract.metadataByToken }

def finalizeMetadataAnchors (store : EntityStore) : Except DedupError EntityStore :=
  if !store.deferMetadataSort then
    .ok store
  else do
    let contracts ← store.contracts.mapM store.finalizeContract
    .ok { store with contracts := contracts, deferMetadataSort := false }

/-! ## Loading one row -/

/-- `self.string(id)`. -/
def string (store : EntityStore) (id : Nat) : Except DedupError Text :=
  indexed store.strings id

/-- Intern a value of a row unless the column counts as absent. -/
def internUnless (store : EntityStore) (absent : Bool) (value : Text) :
    Except DedupError (Option Nat × EntityStore) :=
  if absent then
    .ok (none, store)
  else do
    let (id, store) ← store.internString value
    .ok (some id, store)

/-- Append a new NFT and count it: the block that `try_ingest_row` and
`merge_shard` share. The identifier in `nft` is the one issued here. -/
def insertNft (store : EntityStore) (chainId : Nat) (nft : Nft) :
    Except DedupError EntityStore := do
  let nftId ← tryFrom nftIdCapacity store.nfts.length "too many NFTs for NftId"
  let pushed := { store with
    nfts := store.nfts ++ [{ nft with id := nftId }]
    nftIndex := Function.update store.nftIndex nft.key (some nftId) }
  let counted ← pushed.updateContract nft.contractId fun contract =>
    { contract with nftCount := contract.nftCount + 1 }
  let totalled := counted.updateTotals chainId fun totals =>
    { totals with nfts := totals.nfts + 1 }
  .ok { totalled with rowsLoaded := totalled.rowsLoaded + 1 }

def rowConflict (row : InputRow) (field : Text) : DedupError :=
  .invalid "load".toList
    ("snapshot conflict for (".toList ++ row.chain ++ ", ".toList ++
      row.contractAddress ++ ", ".toList ++ row.tokenId ++ "): distinct ".toList ++
      field ++ " values".toList)

def mergeUriValue (store : EntityStore) (existing : Option Nat) (incoming : Text)
    (field : Text) (row : InputRow) : Except DedupError (Option Nat × EntityStore) :=
  if incoming.isEmpty then
    .ok (existing, store)
  else
    match existing with
    | some id => do
        let text ← store.string id
        if text ≠ incoming then
          .error (rowConflict row field)
        else
          .ok (existing, store)
    | none => do
        let (id, store) ← store.internString incoming
        .ok (some id, store)

/-- The first name that is not blank is kept. -/
def mergeNameValue (store : EntityStore) (existing : Option Nat) (incoming : Text) :
    Except DedupError (Option Nat × EntityStore) :=
  if existing.isNone && !incoming.trim.isEmpty then do
    let (id, store) ← store.internString incoming
    .ok (some id, store)
  else
    .ok (existing, store)

def mergeDuplicateNft (store : EntityStore) (nftId : Nat) (row : InputRow) :
    Except DedupError EntityStore := do
  let existing ← indexed store.nfts nftId
  let (nameId, store) ← store.mergeNameValue existing.nameId row.nameNorm
  let (tokenUriId, store) ← store.mergeUriValue existing.tokenUriId
    row.tokenUriNorm "token_uri_norm".toList row
  let (imageUriId, store) ← store.mergeUriValue existing.imageUriId
    row.imageUriNorm "image_uri_norm".toList row
  let nft ← indexed store.nfts nftId
  .ok { store with
    nfts := store.nfts.set nftId { nft with
      nameId := nameId, tokenUriId := tokenUriId, imageUriId := imageUriId } }

def ingestNft (store : EntityStore) (chainId contractId : Nat) (row : InputRow) :
    Except DedupError EntityStore :=
  match store.nftIndex (contractId, row.tokenId) with
  | some nftId => store.mergeDuplicateNft nftId row
  | none => do
      let (tokenUriId, store) ← store.internUnless row.tokenUriNorm.isEmpty
        row.tokenUriNorm
      let (imageUriId, store) ← store.internUnless row.imageUriNorm.isEmpty
        row.imageUriNorm
      let (nameId, store) ← store.internUnless row.nameNorm.trim.isEmpty row.nameNorm
      store.insertNft chainId
        ⟨0, contractId, row.tokenId, nameId, tokenUriId, imageUriId, row.sourceOrder⟩

def ingestMetadata (canonicalizeJsonStrict : Canonicalizer) (store : EntityStore)
    (contractId : Nat) (row : InputRow) : Except DedupError EntityStore :=
  match validatedMetadata canonicalizeJsonStrict row.metadataJson with
  | none => .ok store
  | some canonicalJson =>
      store.insertMetadataAnchor contractId row.chain
        ⟨row.tokenId, canonicalJson, row.sourceOrder⟩

def tryIngestRow (canonicalizeJsonStrict : Canonicalizer) (store : EntityStore)
    (row : InputRow) : Except DedupError EntityStore :=
  if row.isSkipped then
    .ok store
  else do
    let (chainId, store) ← store.ensureChain row.chain
    let (contractId, store) ← store.ensureContract chainId row.contractAddress
    let store ← store.ingestMetadata canonicalizeJsonStrict contractId row
    store.ingestNft chainId contractId row

/-- Number every key of the shard in this store, in the shard's order, and
record where each one went. -/
def mapKeys (ensure : EntityStore → Text → Except DedupError (Nat × EntityStore)) :
    EntityStore → List Text → Except DedupError (List Nat × EntityStore)
  | store, [] => .ok ([], store)
  | store, key :: keys => do
      let (id, store) ← ensure store key
      let (ids, store) ← mapKeys ensure store keys
      .ok (id :: ids, store)

/-- `contract_map[contract.id] = contract_id`. -/
def assign (values : List Nat) (position value : Nat) :
    Except DedupError (List Nat) :=
  if position < values.length then
    .ok (values.set position value)
  else
    .error .panicked

def mergeContract (chainMap : List Nat) (state : List Nat × EntityStore)
    (contract : Contract) : Except DedupError (List Nat × EntityStore) := do
  let (contractMap, store) := state
  let chainId ← indexed chainMap contract.chainId
  let (contractId, store) ← store.ensureContract chainId contract.address
  let contractMap ← assign contractMap contract.id contractId
  let chainName ← indexed store.chains chainId
  let store ← contract.metadataByToken.foldlM
    (fun store record => store.insertMetadataAnchor contractId chainName record) store
  .ok (contractMap, store)

def shardConflict (contractId : Nat) (tokenId field : Text) : DedupError :=
  .invalid "load".toList
    ("snapshot conflict for contract ".toList ++ Text.ofNat contractId ++
      ", token ".toList ++ tokenId ++ ": distinct ".toList ++ field ++
      " values".toList)

def mergeMappedUri (existing incoming : Option Nat) (field : Text)
    (contractId : Nat) (tokenId : Text) : Except DedupError (Option Nat) :=
  match existing, incoming with
  | none, value => .ok value
  | value, none => .ok value
  | some existing, some incoming =>
      if existing = incoming then
        .ok (some existing)
      else
        .error (shardConflict contractId tokenId field)

/-- `id.map(|id| string_map[id])`. -/
def remapString (stringMap : List Nat) : Option Nat → Except DedupError (Option Nat)
  | none => .ok none
  | some id => do
      let mapped ← indexed stringMap id
      .ok (some mapped)

def remapNft (contractMap stringMap : List Nat) (nft : Nft) : Except DedupError Nft := do
  let contractId ← indexed contractMap nft.contractId
  let nameId ← remapString stringMap nft.nameId
  let tokenUriId ← remapString stringMap nft.tokenUriId
  let imageUriId ← remapString stringMap nft.imageUriId
  .ok { nft with
    contractId := contractId, nameId := nameId
    tokenUriId := tokenUriId, imageUriId := imageUriId }

def mergeExistingNft (store : EntityStore) (existingId : Nat) (nft : Nft) :
    Except DedupError EntityStore := do
  let existing ← indexed store.nfts existingId
  let tokenUriId ← mergeMappedUri existing.tokenUriId nft.tokenUriId
    "token_uri_norm".toList nft.contractId nft.tokenId
  let imageUriId ← mergeMappedUri existing.imageUriId nft.imageUriId
    "image_uri_norm".toList nft.contractId nft.tokenId
  .ok { store with
    nfts := store.nfts.set existingId { existing with
      nameId := existing.nameId.or nft.nameId
      tokenUriId := tokenUriId
      imageUriId := imageUriId } }

def mergeRemappedNft (store : EntityStore) (nft : Nft) :
    Except DedupError EntityStore :=
  match store.nftIndex nft.key with
  | some existingId => store.mergeExistingNft existingId nft
  | none => do
      let contract ← indexed store.contracts nft.contractId
      store.insertNft contract.chainId nft

def mergeNft (contractMap stringMap : List Nat) (store : EntityStore) (nft : Nft) :
    Except DedupError EntityStore := do
  let remapped ← remapNft contractMap stringMap nft
  store.mergeRemappedNft remapped

def mergeShard (store shard : EntityStore) : Except DedupError EntityStore := do
  let (chainMap, store) ← mapKeys ensureChain store shard.chains
  let (stringMap, store) ← mapKeys internString store shard.strings
  let (contractMap, store) ← shard.contracts.foldlM (mergeContract chainMap)
    (List.replicate shard.contracts.length 0, store)
  shard.nfts.foldlM (mergeNft contractMap stringMap) store

end EntityStore

end NftData.Dedup
