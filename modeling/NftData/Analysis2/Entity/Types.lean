import NftData.Foundation.Outcome
import NftData.Foundation.Text

namespace NftData.Analysis2

/-! # Entity types

The resident snapshot of the analysis: identities, interned strings and the indexes the
seed queries read. -/

/-- What stops an operation: a reported error, or a Rust panic. -/
inductive Analysis2Error where
  | invalid (message : Text)
  | http (message : Text)
  | panicked
  deriving DecidableEq, Repr

/-- The rendered error. A panic is never rendered. -/
def Analysis2Error.toText : Analysis2Error → Text
  | .invalid message => "invalid input: ".toList ++ message
  | .http message => "http error: ".toList ++ message
  | .panicked => []

def indexed {α : Type*} (values : List α) (position : Nat) : Except Analysis2Error α :=
  match values[position]? with
  | some value => .ok value
  | none => .error .panicked

theorem indexed_eq_ok_iff {α : Type*} {values : List α} {position : Nat} {value : α} :
    indexed values position = .ok value ↔ values[position]? = some value := by
  rw [indexed]
  cases values[position]? <;> simp

structure SourceOrder where
  fileOrdinal : Nat
  fileRowNumber : Nat
  deriving DecidableEq, Repr

structure ChainTotals where
  contracts : Nat
  nfts : Nat
  deriving DecidableEq, Repr

/-- `ChainTotals::default()`. -/
def ChainTotals.default : ChainTotals := ⟨0, 0⟩

structure MetadataRecord where
  tokenId : Text
  canonicalJson : Text
  sourceOrder : SourceOrder
  deriving DecidableEq, Repr

structure Contract where
  id : Nat
  chainId : Nat
  address : Text
  nftCount : Nat
  nameId : Option Nat
  /-- Valid metadata records by token id descending. -/
  metadataByToken : List MetadataRecord
  deriving DecidableEq, Repr

structure Nft where
  contractId : Nat
  tokenIdId : Nat
  nameId : Option Nat
  tokenUriId : Option Nat
  imageUriId : Option Nat
  deriving DecidableEq, Repr

def stringIdCapacity : Nat := 2 ^ 32

/-- Every string once, in the order of interning. `by_hash` and `collisions` together
find the identifier of a string by its text, which every match is checked against. -/
structure StringPool where
  strings : List Text
  lookup : Text → Option Nat

namespace StringPool

def new : StringPool := ⟨[], fun _ => none⟩

def get (pool : StringPool) (id : Nat) : Except Analysis2Error Text :=
  indexed pool.strings id

def intern (pool : StringPool) (value : Text) : Except Analysis2Error (Nat × StringPool) :=
  match pool.lookup value with
  | some id => .ok (id, pool)
  | none =>
      if pool.strings.length < stringIdCapacity then
        .ok (pool.strings.length, {
          strings := pool.strings ++ [value]
          lookup := Function.update pool.lookup value (some pool.strings.length) })
      else
        .error .panicked

def internNonempty (pool : StringPool) (value : Text) :
    Except Analysis2Error (Option Nat × StringPool) :=
  if value.trim.isEmpty then
    .ok (none, pool)
  else do
    let (id, pool) ← pool.intern value
    .ok (some id, pool)

def internNonblank (pool : StringPool) (value : Text) :
    Except Analysis2Error (Option Nat × StringPool) :=
  if value.trim.isEmpty then
    .ok (none, pool)
  else do
    let (id, pool) ← pool.intern value.trim
    .ok (some id, pool)

end StringPool

/-- Sorted keys with contiguous value slices: the values of `keys[i]` are
`values[offsets[i]..offsets[i + 1]]`. -/
structure CsrIndex where
  keys : List Nat
  offsets : List Nat
  values : List Nat
  deriving DecidableEq, Repr

structure UriChainRun where
  chainId : Nat
  start : Nat
  stop : Nat
  deriving DecidableEq, Repr

/-- URI postings with one run per chain. -/
structure UriChainIndex where
  keys : List Nat
  valueOffsets : List Nat
  values : List Nat
  runOffsets : List Nat
  runs : List UriChainRun
  deriving DecidableEq, Repr

def CsrIndex.new : CsrIndex := ⟨[], [], []⟩

def UriChainIndex.new : UriChainIndex := ⟨[], [], [], [], []⟩

/-- The hash maps `chain_ids`, `contract_index`, `nft_index` and `totals` are read by key,
so each is its lookup function. -/
structure ResidentStore where
  chains : List Text
  chainIds : Text → Option Nat
  contracts : List Contract
  /-- `(chain, address_string_id)` → contract. -/
  contractIndex : Nat × Nat → Option Nat
  nfts : List Nft
  /-- `(contract, token_id_string_id)` → nft. -/
  nftIndex : Nat × Nat → Option Nat
  strings : StringPool
  contractNftCsr : CsrIndex
  tokenUriCsr : UriChainIndex
  imageUriCsr : UriChainIndex
  totals : Nat → Option ChainTotals
  rowsLoaded : Nat
  metadataAnchorLimit : Option Nat
  evmChains : Finset Text

namespace ResidentStore

def withOptions (metadataAnchorLimit : Option Nat) (evmChains : Finset Text) :
    ResidentStore where
  chains := []
  chainIds := fun _ => none
  contracts := []
  contractIndex := fun _ => none
  nfts := []
  nftIndex := fun _ => none
  strings := .new
  contractNftCsr := .new
  tokenUriCsr := .new
  imageUriCsr := .new
  totals := fun _ => none
  rowsLoaded := 0
  metadataAnchorLimit := metadataAnchorLimit
  evmChains := evmChains

def chainName (store : ResidentStore) (id : Nat) : Except Analysis2Error Text :=
  indexed store.chains id

def string (store : ResidentStore) (id : Nat) : Except Analysis2Error Text :=
  store.strings.get id

def isEvmChain (store : ResidentStore) (chain : Text) : Bool :=
  decide (chain ∈ store.evmChains)

/-- Resolve `(chain, address)`. -/
def contractId (store : ResidentStore) (chain address : Text) : Option Nat := do
  let chainId ← store.chainIds chain
  let addressId ← store.strings.lookup address
  store.contractIndex (chainId, addressId)

def nftId (store : ResidentStore) (contractId : Nat) (tokenId : Text) : Option Nat := do
  let tokenSid ← store.strings.lookup tokenId
  store.nftIndex (contractId, tokenSid)

end ResidentStore

end NftData.Analysis2
