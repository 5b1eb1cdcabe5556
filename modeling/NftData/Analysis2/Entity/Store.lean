import NftData.Analysis2.Entity.Types
import NftData.Foundation.BinarySearch

namespace NftData.Analysis2

/-! # Resident store operations

Loading a row and merging a shard, step by step as the loader performs them. -/

def chainIdCapacity : Nat := 2 ^ 16
def contractIdCapacity : Nat := 2 ^ 32
def nftIdCapacity : Nat := 2 ^ 32

/-- `UInt::try_from(length)` for an identifier type with `capacity` values. -/
def tryFrom (capacity length : Nat) (message : String) : Except Analysis2Error Nat :=
  if length < capacity then
    .ok length
  else
    .error (.invalid message.toList)

/-- Pass-1 decoded row (identity + name + URI; no metadata). -/
structure IdentityRow where
  chain : Text
  contractAddress : Text
  tokenId : Text
  nameNorm : Text
  tokenUriNorm : Text
  imageUriNorm : Text
  deriving DecidableEq, Repr

def IdentityRow.isSkipped (row : IdentityRow) : Bool :=
  row.chain.isEmpty || row.contractAddress.isEmpty || row.tokenId.isEmpty

/-! ## Token order

Reading a number of any size belongs to a library. -/

abbrev NumberParser := Text → Option Nat

def compareTokenIds (parseBytes : NumberParser) (left right : Text) (isEvm : Bool) :
    Ordering :=
  if isEvm then
    match parseBytes left.trim, parseBytes right.trim with
    | some first, some second => cmp first second
    | some _, none => .lt
    | none, some _ => .gt
    | none, none => cmp left right
  else
    cmp left right

def compareTokenIdsDesc (parseBytes : NumberParser) (left right : Text) (isEvm : Bool) :
    Ordering :=
  compareTokenIds parseBytes right left isEvm

namespace ResidentStore

def ensureChain (store : ResidentStore) (chain : Text) :
    Except Analysis2Error (Nat × ResidentStore) :=
  match store.chainIds chain with
  | some id => .ok (id, store)
  | none => do
      let id ← tryFrom chainIdCapacity store.chains.length "too many chains for ChainId"
      .ok (id, { store with
        chains := store.chains ++ [chain]
        chainIds := Function.update store.chainIds chain (some id)
        totals := Function.update store.totals id (some ChainTotals.default) })

def withStrings {Value : Type} (store : ResidentStore)
    (result : Except Analysis2Error (Value × StringPool)) :
    Except Analysis2Error (Value × ResidentStore) := do
  let (value, strings) ← result
  .ok (value, { store with
    strings := strings })

def intern (store : ResidentStore) (value : Text) :
    Except Analysis2Error (Nat × ResidentStore) :=
  store.withStrings (store.strings.intern value)

def internNonempty (store : ResidentStore) (value : Text) :
    Except Analysis2Error (Option Nat × ResidentStore) :=
  store.withStrings (store.strings.internNonempty value)

def internNonblank (store : ResidentStore) (value : Text) :
    Except Analysis2Error (Option Nat × ResidentStore) :=
  store.withStrings (store.strings.internNonblank value)

/-- `totals.entry(chain_id).or_default()`, updated in place. -/
def updateTotals (store : ResidentStore) (chainId : Nat) (change : ChainTotals → ChainTotals) :
    ResidentStore :=
  { store with
    totals := Function.update store.totals chainId
      (some (change ((store.totals chainId).getD ChainTotals.default))) }

/-- Find the contract of an interned address or create it: the block that
`ingest_identity_strs` and `merge_shard` share. -/
def ensureContract (store : ResidentStore) (chainId addressId : Nat) (address : Text) :
    Except Analysis2Error (Nat × ResidentStore) :=
  match store.contractIndex (chainId, addressId) with
  | some id => .ok (id, store)
  | none => do
      let id ← tryFrom contractIdCapacity store.contracts.length
        "too many contracts for ContractId"
      let contract : Contract := ⟨id, chainId, address, 0, none, []⟩
      let pushed := { store with
        contracts := store.contracts ++ [contract]
        contractIndex := Function.update store.contractIndex (chainId, addressId) (some id) }
      .ok (id, pushed.updateTotals chainId fun totals =>
        { totals with
          contracts := totals.contracts + 1 })

/-- `self.contracts[contract_id]`, updated in place. -/
def updateContract (store : ResidentStore) (contractId : Nat) (change : Contract → Contract) :
    Except Analysis2Error ResidentStore := do
  let contract ← indexed store.contracts contractId
  .ok { store with
    contracts := store.contracts.set contractId (change contract) }

/-- The first record of a token is kept, the list stays sorted, and a configured limit
drops its last element. -/
def insertAnchor (parseBytes : NumberParser) (limit : Option Nat) (isEvm : Bool)
    (anchors : List MetadataRecord) (record : MetadataRecord) : List MetadataRecord :=
  if anchors.any fun existing => existing.tokenId == record.tokenId then
    anchors
  else
    let insertAt := searchPosition anchors fun existing =>
      compareTokenIdsDesc parseBytes existing.tokenId record.tokenId isEvm
    match limit with
    | none => anchors.insertIdx insertAt record
    | some limit =>
        if limit ≤ insertAt ∧ limit ≤ anchors.length then
          anchors
        else
          let inserted := anchors.insertIdx insertAt record
          if limit < inserted.length then inserted.dropLast else inserted

def insertMetadataAnchor (parseBytes : NumberParser) (store : ResidentStore)
    (contractId : Nat) (chain : Text) (record : MetadataRecord) :
    Except Analysis2Error ResidentStore :=
  if store.metadataAnchorLimit = some 0 then
    .ok store
  else
    store.updateContract contractId fun contract =>
      { contract with
        metadataByToken := insertAnchor parseBytes store.metadataAnchorLimit
          (store.isEvmChain chain) contract.metadataByToken record }

/-- Append a new NFT and count it: the block that `ingest_identity_strs` and `merge_shard`
share. -/
def insertNft (store : ResidentStore) (chainId : Nat) (nft : Nft) :
    Except Analysis2Error ResidentStore := do
  let nftId ← tryFrom nftIdCapacity store.nfts.length "too many NFTs for NftId"
  let pushed := { store with
    nfts := store.nfts ++ [nft]
    nftIndex := Function.update store.nftIndex (nft.contractId, nft.tokenIdId) (some nftId) }
  let counted ← pushed.updateContract nft.contractId fun contract =>
    { contract with
      nftCount := contract.nftCount + 1 }
  let totalled := counted.updateTotals chainId fun totals =>
    { totals with
      nfts := totals.nfts + 1 }
  .ok { totalled with
    rowsLoaded := totalled.rowsLoaded + 1 }

def rowConflict (chain tokenId field : Text) : Analysis2Error :=
  .invalid ("snapshot conflict for (".toList ++ chain ++ ", token ".toList ++ tokenId ++
    "): distinct ".toList ++ field ++ " values".toList)

def mergeUriValue (store : ResidentStore) (existing : Option Nat)
    (incoming field chain tokenId : Text) :
    Except Analysis2Error (Option Nat × ResidentStore) :=
  if incoming.trim.isEmpty then
    .ok (existing, store)
  else
    match existing with
    | some id => do
        let text ← store.string id
        if text ≠ incoming then
          .error (rowConflict chain tokenId field)
        else
          .ok (existing, store)
    | none => store.internNonempty incoming

/-- The first name that is not blank is kept. -/
def mergeNameValue (store : ResidentStore) (existing : Option Nat) (incoming : Text) :
    Except Analysis2Error (Option Nat × ResidentStore) :=
  if existing.isNone then store.internNonblank incoming else .ok (existing, store)

def mergeDuplicateNft (store : ResidentStore) (nftId : Nat) (row : IdentityRow) :
    Except Analysis2Error ResidentStore := do
  let existing ← indexed store.nfts nftId
  let tokenId ← store.string existing.tokenIdId
  let (nameId, store) ← store.mergeNameValue existing.nameId row.nameNorm
  let (tokenUriId, store) ← store.mergeUriValue existing.tokenUriId row.tokenUriNorm
    "token_uri_norm".toList row.chain tokenId
  let (imageUriId, store) ← store.mergeUriValue existing.imageUriId row.imageUriNorm
    "image_uri_norm".toList row.chain tokenId
  let nft ← indexed store.nfts nftId
  .ok { store with
    nfts := store.nfts.set nftId { nft with
      nameId := nameId
      tokenUriId := tokenUriId
      imageUriId := imageUriId } }

def ingestNft (store : ResidentStore) (chainId contractId : Nat) (row : IdentityRow) :
    Except Analysis2Error ResidentStore := do
  let (tokenSid, store) ← store.intern row.tokenId
  match store.nftIndex (contractId, tokenSid) with
  | some nftId => store.mergeDuplicateNft nftId row
  | none =>
      let (nameId, store) ← store.internNonblank row.nameNorm
      let (tokenUriId, store) ← store.internNonempty row.tokenUriNorm
      let (imageUriId, store) ← store.internNonempty row.imageUriNorm
      store.insertNft chainId ⟨contractId, tokenSid, nameId, tokenUriId, imageUriId⟩

/-- `ingest_identity_strs`. -/
def ingestIdentityRow (store : ResidentStore) (row : IdentityRow) :
    Except Analysis2Error ResidentStore :=
  if row.isSkipped then
    .ok store
  else do
    let (chainId, store) ← store.ensureChain row.chain
    let (addressId, store) ← store.intern row.contractAddress
    let (contractId, store) ← store.ensureContract chainId addressId row.contractAddress
    store.ingestNft chainId contractId row

/-- Number every key of the shard in this store, in the shard's order, and record where each
one went. -/
def mapKeys (ensure : ResidentStore → Text → Except Analysis2Error (Nat × ResidentStore)) :
    ResidentStore → List Text → Except Analysis2Error (List Nat × ResidentStore)
  | store, [] => .ok ([], store)
  | store, key :: keys => do
      let (id, store) ← ensure store key
      let (ids, store) ← mapKeys ensure store keys
      .ok (id :: ids, store)

/-- `contract_map[contract.id] = contract_id`. -/
def assign (values : List Nat) (position value : Nat) : Except Analysis2Error (List Nat) :=
  if position < values.length then
    .ok (values.set position value)
  else
    .error .panicked

def mergeContract (parseBytes : NumberParser) (chainMap : List Nat)
    (state : List Nat × ResidentStore) (contract : Contract) :
    Except Analysis2Error (List Nat × ResidentStore) := do
  let (contractMap, store) := state
  let chainId ← indexed chainMap contract.chainId
  let (addressId, store) ← store.intern contract.address
  let (contractId, store) ← store.ensureContract chainId addressId contract.address
  let contractMap ← assign contractMap contract.id contractId
  let chainName ← indexed store.chains chainId
  let store ← contract.metadataByToken.foldlM
    (fun store record => store.insertMetadataAnchor parseBytes contractId chainName record)
    store
  .ok (contractMap, store)

def shardConflict (contractId : Nat) (tokenId field : Text) : Analysis2Error :=
  .invalid ("snapshot conflict for contract ".toList ++ Text.ofNat contractId ++
    ", token ".toList ++ tokenId ++ ": distinct ".toList ++ field ++ " values".toList)

def mergeMappedUri (existing incoming : Option Nat) (field : Text) (contractId : Nat)
    (tokenId : Text) : Except Analysis2Error (Option Nat) :=
  match existing, incoming with
  | none, value => .ok value
  | value, none => .ok value
  | some existing, some incoming =>
      if existing = incoming then
        .ok (some existing)
      else
        .error (shardConflict contractId tokenId field)

/-- `id.map(|id| string_map[id])`. -/
def remapString (stringMap : List Nat) : Option Nat → Except Analysis2Error (Option Nat)
  | none => .ok none
  | some id => do
      let mapped ← indexed stringMap id
      .ok (some mapped)

def remapNft (contractMap stringMap : List Nat) (nft : Nft) : Except Analysis2Error Nft := do
  let contractId ← indexed contractMap nft.contractId
  let nameId ← remapString stringMap nft.nameId
  let tokenUriId ← remapString stringMap nft.tokenUriId
  let imageUriId ← remapString stringMap nft.imageUriId
  let tokenSid ← indexed stringMap nft.tokenIdId
  .ok ⟨contractId, tokenSid, nameId, tokenUriId, imageUriId⟩

def mergeExistingNft (store : ResidentStore) (existingId : Nat) (nft : Nft) (tokenId : Text) :
    Except Analysis2Error ResidentStore := do
  let existing ← indexed store.nfts existingId
  let tokenUriId ← mergeMappedUri existing.tokenUriId nft.tokenUriId
    "token_uri_norm".toList nft.contractId tokenId
  let imageUriId ← mergeMappedUri existing.imageUriId nft.imageUriId
    "image_uri_norm".toList nft.contractId tokenId
  .ok { store with
    nfts := store.nfts.set existingId { existing with
      nameId := existing.nameId.or nft.nameId
      tokenUriId := tokenUriId
      imageUriId := imageUriId } }

def mergeRemappedNft (store : ResidentStore) (nft : Nft) :
    Except Analysis2Error ResidentStore := do
  let tokenId ← store.string nft.tokenIdId
  match store.nftIndex (nft.contractId, nft.tokenIdId) with
  | some existingId => store.mergeExistingNft existingId nft tokenId
  | none =>
      let contract ← indexed store.contracts nft.contractId
      store.insertNft contract.chainId nft

def mergeNft (contractMap stringMap : List Nat) (store : ResidentStore) (nft : Nft) :
    Except Analysis2Error ResidentStore := do
  let remapped ← remapNft contractMap stringMap nft
  store.mergeRemappedNft remapped

def mergeShard (parseBytes : NumberParser) (store shard : ResidentStore) :
    Except Analysis2Error ResidentStore := do
  let (chainMap, store) ← mapKeys ensureChain store shard.chains
  let (stringMap, store) ← mapKeys intern store shard.strings.strings
  let (contractMap, store) ← shard.contracts.foldlM (mergeContract parseBytes chainMap)
    (List.replicate shard.contracts.length 0, store)
  shard.nfts.foldlM (mergeNft contractMap stringMap) store

end ResidentStore

end NftData.Analysis2
