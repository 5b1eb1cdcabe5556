import NftData.Foundation.Outcome
import NftData.Foundation.Text

namespace NftData.Dedup

/-! # Entity types

The records of the in-memory snapshot. Identifiers are positions in the store's
own vectors; the machine width of each identifier type is a capacity checked
when an identifier is issued. -/

/-- What stops an operation: a reported error, or a Rust panic. -/
inductive DedupError
  | invalid (stage message : Text)
  | panicked
  deriving DecidableEq, Repr

def indexed {α : Type*} (values : List α) (position : Nat) : Except DedupError α :=
  match values[position]? with
  | some value => .ok value
  | none => .error .panicked

theorem indexed_eq_ok {α : Type*} {values : List α} {position : Nat} {value : α}
    (found : values[position]? = some value) :
    indexed values position = .ok value := by
  simp [indexed, found]

/-- `UInt::try_from(length)` for an identifier type with `capacity` values. -/
def tryFrom (capacity length : Nat) (message : String) : Except DedupError Nat :=
  if length < capacity then
    .ok length
  else
    .error (.invalid "load".toList message.toList)

variable {message : String} {capacity length : Nat}

theorem tryFrom_eq_ok (fits : length < capacity) :
    tryFrom capacity length message = .ok length := by
  simp [tryFrom, fits]

theorem tryFrom_inversion {id : Nat} (ok : tryFrom capacity length message = .ok id) :
    id = length ∧ length < capacity := by
  unfold tryFrom at ok
  split at ok
  · next fits => exact ⟨(Except.ok.inj ok).symm, fits⟩
  · cases ok

theorem tryFrom_bind_ok_iff {β : Type} (next : Nat → β) :
    (∃ result, (tryFrom capacity length message >>= fun id => Except.ok (next id)) =
      .ok result) ↔ length < capacity := by
  constructor
  · rintro ⟨result, ok⟩
    rcases bind_eq_ok ok with ⟨id, issued, _⟩
    exact (tryFrom_inversion issued).2
  · intro fits
    exact ⟨next length, by rw [tryFrom_eq_ok fits, ok_bind]⟩

def chainIdCapacity : Nat := 2 ^ 16
def contractIdCapacity : Nat := 2 ^ 32
def nftIdCapacity : Nat := 2 ^ 32
def stringIdCapacity : Nat := 2 ^ 32

structure SourceOrder where
  fileOrdinal : Nat
  fileRowNumber : Nat
  deriving DecidableEq, Repr

/-- The derived order: file first, then row. -/
def SourceOrder.compare (left right : SourceOrder) : Ordering :=
  (cmp left.fileOrdinal right.fileOrdinal).then
    (cmp left.fileRowNumber right.fileRowNumber)

structure InputRow where
  chain : Text
  contractAddress : Text
  tokenId : Text
  nameNorm : Text
  tokenUriNorm : Text
  imageUriNorm : Text
  metadataJson : Text
  sourceOrder : SourceOrder
  deriving DecidableEq, Repr

def InputRow.isSkipped (row : InputRow) : Bool :=
  row.chain.isEmpty || row.contractAddress.isEmpty || row.tokenId.isEmpty

structure MetadataRecord where
  tokenId : Text
  canonicalJson : Text
  sourceOrder : SourceOrder
  deriving DecidableEq, Repr

structure Contract where
  id : Nat
  chainId : Nat
  address : Text
  nftCount : Nat
  /-- Sorted metadata records. A configured limit keeps only the first records. -/
  metadataByToken : List MetadataRecord
  deriving DecidableEq, Repr

structure Nft where
  id : Nat
  contractId : Nat
  tokenId : Text
  nameId : Option Nat
  tokenUriId : Option Nat
  imageUriId : Option Nat
  sourceOrder : SourceOrder
  deriving DecidableEq, Repr

structure UriPosting where
  contractId : Nat
  chainId : Nat
  uriId : Nat
  nftIds : List Nat
  deriving DecidableEq, Repr

structure ChainTotals where
  contracts : Nat
  nfts : Nat
  deriving DecidableEq, Repr

/-- `ChainTotals::default()`. -/
def ChainTotals.default : ChainTotals := ⟨0, 0⟩

/-- The snapshot. The hash maps `chain_ids`, `contract_index`, `nft_index`,
`string_ids` and `totals` are only ever read by key, so each is its lookup
function. -/
structure EntityStore where
  chains : List Text
  chainIds : Text → Option Nat
  contracts : List Contract
  contractIndex : Nat × Text → Option Nat
  nfts : List Nft
  nftIndex : Nat × Text → Option Nat
  strings : List Text
  stringIds : Text → Option Nat
  tokenUriPostings : List UriPosting
  imageUriPostings : List UriPosting
  totals : Nat → Option ChainTotals
  rowsLoaded : Nat
  metadataAnchorLimit : Option Nat
  deferMetadataSort : Bool
  evmChains : Finset Text

/-- The key `contract_index` is searched by. -/
def Contract.key (contract : Contract) : Nat × Text :=
  (contract.chainId, contract.address)

/-- The key `nft_index` is searched by. -/
def Nft.key (nft : Nft) : Nat × Text := (nft.contractId, nft.tokenId)

end NftData.Dedup
