import NftData.Foundation.Chunks
import NftData.Foundation.KeyedBounds
import NftData.Analysis2.Entity.Resolved
import NftData.Dedup.Parquet

namespace NftData.Analysis2

open List
open Dedup (ContractName EntityStore NftName NftValue Table)
open ResidentStore

/-! # Pass 1: identity, name and URI columns

Every file is scanned in chunks of row groups, each into a store of its own, and the stores
are merged in order. -/

/-- The options that pass 1 reads. -/
structure LoadOptions where
  allowedChains : Finset Text
  evmChains : Finset Text
  metadataAnchors : Option Nat
  /-- When false, names and URIs are not loaded. -/
  buildDedupIndexes : Bool
  /-- Retain identity rows only for these normalized `(chain, contract)` keys. -/
  identityContractFilter : Option (Text → Option (Finset Text))

/-- Rust's `trim`, then ASCII lower case. -/
def normalizedChain (value : Text) : Text := value.trim.toAsciiLowercase

namespace LoadOptions

def newStore (options : LoadOptions) : ResidentStore :=
  withOptions options.metadataAnchors options.evmChains

def allowsChain (options : LoadOptions) (chain : Text) : Bool :=
  decide (options.allowedChains = ∅) || decide (chain ∈ options.allowedChains)

def filterAddress (options : LoadOptions) (chain contractAddress : Text) : Text :=
  if chain ∈ options.evmChains then contractAddress.toAsciiLowercase else contractAddress

def inFilter (options : LoadOptions) (filter : Text → Option (Finset Text))
    (contract : ContractName) : Bool :=
  (filter contract.1).any fun contracts =>
    decide (options.filterAddress contract.1 contract.2 ∈ contracts)

def retainsContract (options : LoadOptions) (contract : ContractName) : Bool :=
  match options.identityContractFilter with
  | none => true
  | some filter => options.inFilter filter contract

def identityRow (options : LoadOptions) (columns : IdentityRow) : IdentityRow where
  chain := normalizedChain columns.chain
  contractAddress := columns.contractAddress.trim
  tokenId := columns.tokenId.trim
  nameNorm := if options.buildDedupIndexes then columns.nameNorm else []
  tokenUriNorm := if options.buildDedupIndexes then columns.tokenUriNorm else []
  imageUriNorm := if options.buildDedupIndexes then columns.imageUriNorm else []

end LoadOptions

/-- One iteration of the row loop of `scan_row_group_chunk_pass1`. -/
def scanRow (options : LoadOptions) (store : ResidentStore) (columns : IdentityRow) :
    Except Analysis2Error ResidentStore :=
  let row := options.identityRow columns
  if !options.allowsChain row.chain then
    .ok store
  else if !options.retainsContract (row.chain, row.contractAddress) then
    .ok store
  else
    store.ingestIdentityRow row

def scanRowGroupChunkPass1 (options : LoadOptions) (chunk : List (List IdentityRow)) :
    Except Analysis2Error ResidentStore :=
  chunk.flatten.foldlM (scanRow options) options.newStore

def rowGroupChunks (threads : Nat) (rowGroups : List (List IdentityRow)) :
    List (List (List IdentityRow)) :=
  if rowGroups.length = 0 then
    []
  else
    let targetTasks := max (threads * 2) 1
    let groupsPerTask := max (rowGroups.length ⌈/⌉ targetTasks) 1
    chunks rowGroups groupsPerTask

def mergeShardsOrdered (parseBytes : NumberParser) (options : LoadOptions) :
    List (Except Analysis2Error ResidentStore) → Except Analysis2Error ResidentStore :=
  mergeTree options.newStore (mergeShard parseBytes)

def scanFilePass1 (parseBytes : NumberParser) (threads : Nat) (options : LoadOptions)
    (rowGroups : List (List IdentityRow)) : Except Analysis2Error ResidentStore :=
  mergeShardsOrdered parseBytes options
    ((rowGroupChunks threads rowGroups).map (scanRowGroupChunkPass1 options))

def scanPass1 (parseBytes : NumberParser) (threads : Nat) (options : LoadOptions)
    (inputs : List (List (List IdentityRow))) : Except Analysis2Error ResidentStore :=
  mergeShardsOrdered parseBytes options (inputs.map (scanFilePass1 parseBytes threads options))

def rowsInOrder (inputs : List (List (List IdentityRow))) : List IdentityRow :=
  inputs.flatten.flatten

def ingestInOrder (options : LoadOptions) (rows : List IdentityRow) :
    Except Analysis2Error ResidentStore :=
  rows.foldlM (scanRow options) options.newStore

theorem flatten_rowGroupChunks (threads : Nat) (rowGroups : List (List IdentityRow)) :
    (rowGroupChunks threads rowGroups).flatten = rowGroups := by
  rw [rowGroupChunks]
  split
  · next none => rw [length_eq_zero_iff.mp none, flatten_nil]
  · exact flatten_chunks rowGroups (Nat.lt_of_lt_of_le Nat.one_pos (Nat.le_max_right _ _))

namespace LoadOptions

def selects (options : LoadOptions) (columns : IdentityRow) : Bool :=
  let row := options.identityRow columns
  options.allowsChain row.chain && options.retainsContract (row.chain, row.contractAddress)

def selectedRows (options : LoadOptions) (rows : List IdentityRow) : List IdentityRow :=
  (rows.filter options.selects).map options.identityRow

def loadedRows (options : LoadOptions) (rows : List IdentityRow) : List IdentityRow :=
  (options.selectedRows rows).filter fun row => !row.isSkipped

end LoadOptions

theorem scanRow_eq (options : LoadOptions) (store : ResidentStore) (columns : IdentityRow) :
    scanRow options store columns =
      if options.selects columns then store.ingestIdentityRow (options.identityRow columns)
      else .ok store := by
  rw [scanRow, LoadOptions.selects]
  cases options.allowsChain (options.identityRow columns).chain with
  | false => rfl
  | true =>
      cases options.retainsContract ((options.identityRow columns).chain,
        (options.identityRow columns).contractAddress) <;> rfl

theorem foldlM_scanRow (options : LoadOptions) (rows : List IdentityRow) :
    ∀ store : ResidentStore, rows.foldlM (scanRow options) store =
      (options.selectedRows rows).foldlM ingestIdentityRow store := by
  induction rows with
  | nil => exact fun _ => rfl
  | cons row rows induction =>
      intro store
      rw [foldlM_cons, scanRow_eq, LoadOptions.selectedRows, filter_cons]
      split
      · rw [map_cons, foldlM_cons]
        congr 1
        funext next
        exact induction next
      · exact induction store

def rowTexts (row : IdentityRow) : List Text :=
  [row.contractAddress, row.tokenId] ++ (viewRow row).nftValue.texts

def loadTexts (rows : List IdentityRow) : Finset Text :=
  (rows.flatMap rowTexts).toFinset

def scannedTable (options : LoadOptions) (rows : List IdentityRow) : Option Table :=
  (Table.empty.addRows ((options.selectedRows rows).map viewRow)).filter Table.fits

theorem scannedTable_append (options : LoadOptions) (first second : List IdentityRow) :
    ((scannedTable options first).bind fun left => (scannedTable options second).bind
      fun right => (left.addTable right).filter Table.fits) =
      scannedTable options (first ++ second) := by
  rw [scannedTable, scannedTable, scannedTable, Dedup.addRows_parts, LoadOptions.selectedRows,
    LoadOptions.selectedRows, LoadOptions.selectedRows, filter_append, map_append,
    map_append]

section Scan

variable {strings : Finset Text} {options : LoadOptions} {parseBytes : NumberParser}
  {threads : Nat}

def RowsWithin (strings : Finset Text) (options : LoadOptions) (rows : List IdentityRow) :
    Prop :=
  ∀ row ∈ options.selectedRows rows, row.isSkipped = false → RowWithin strings row

theorem RowsWithin.subset {rows part : List IdentityRow} (partSubset : part ⊆ rows)
    (within : RowsWithin strings options rows) : RowsWithin strings options part := by
  intro row member
  apply within row
  rcases mem_map.mp member with ⟨columns, selected, equal⟩
  rw [mem_filter] at selected
  exact mem_map.mpr ⟨columns, mem_filter.mpr ⟨partSubset selected.1, selected.2⟩,
    equal⟩

theorem rowsWithin_loadTexts (rows : List IdentityRow) :
    RowsWithin (loadTexts (options.loadedRows rows)) options rows := by
  intro row member loaded
  have inRows : row ∈ options.loadedRows rows :=
    mem_filter.mpr ⟨member, by simp [loaded]⟩
  have interned : ∀ text ∈ rowTexts row, text ∈ loadTexts (options.loadedRows rows) := by
    intro text inside
    rw [loadTexts, mem_toFinset]
    exact mem_flatMap.mpr ⟨row, inRows, inside⟩
  refine ⟨interned _ (by simp [rowTexts]), interned _ (by simp [rowTexts]), ?_⟩
  constructor <;>
  · intro text isText
    apply interned
    simp [rowTexts, NftValue.texts, Option.mem_def.mp isText]

def LoadsRows (strings : Finset Text) (options : LoadOptions) (rows : List IdentityRow)
    (result : Except Analysis2Error ResidentStore) : Prop :=
  RowsWithin strings options rows →
    Simulates (Represents strings) result (scannedTable options rows)

theorem foldlM_scanRow_loads (capacity : strings.card ≤ Dedup.stringIdCapacity)
    (rows : List IdentityRow) :
    LoadsRows strings options rows (rows.foldlM (scanRow options) options.newStore) := by
  intro within
  rw [foldlM_scanRow]
  exact ingestIdentityRows_simulates (represents_withOptions _ _ capacity) within

theorem mergeShard_loads {first second : List IdentityRow}
    {left right : Except Analysis2Error ResidentStore}
    (leftLoads : LoadsRows strings options first left)
    (rightLoads : LoadsRows strings options second right) :
    LoadsRows strings options (first ++ second) (do
      let left ← left
      let right ← right
      left.mergeShard parseBytes right) := by
  intro within
  rw [← scannedTable_append]
  apply (leftLoads (within.subset (subset_append_left _ _))).bind
  intro store table _ _ represents
  apply (rightLoads (within.subset (subset_append_right _ _))).bind
  intro shard part _ _ shardRepresents
  exact mergeShard_simulates parseBytes represents shardRepresents

section

variable (capacity : strings.card ≤ Dedup.stringIdCapacity)
include capacity

theorem mergeShardsOrdered_loads {Part : Type} {load : Part → Except Analysis2Error ResidentStore}
    {rowsOf : Part → List IdentityRow}
    (single : ∀ part, LoadsRows strings options (rowsOf part) (load part))
    (parts : List Part) :
    LoadsRows strings options (parts.flatMap rowsOf)
      (mergeShardsOrdered parseBytes options (parts.map load)) := by
  apply mergeTree_induction fun parts result =>
    LoadsRows strings options (parts.flatMap rowsOf) result
  · exact foldlM_scanRow_loads capacity []
  · intro part
    rw [flatMap_singleton]
    exact single part
  · intro first second left right _ _ leftLoads rightLoads
    rw [flatMap_append]
    exact mergeShard_loads leftLoads rightLoads

theorem scanFilePass1_loads (rowGroups : List (List IdentityRow)) :
    LoadsRows strings options rowGroups.flatten
      (scanFilePass1 parseBytes threads options rowGroups) := by
  have rows : rowGroups.flatten = (rowGroupChunks threads rowGroups).flatMap List.flatten := by
    rw [flatMap_def, ← flatten_flatten, flatten_rowGroupChunks]
  rw [rows]
  exact mergeShardsOrdered_loads capacity
    (fun chunk : List (List IdentityRow) => foldlM_scanRow_loads capacity chunk.flatten) _

theorem scanPass1_loads (inputs : List (List (List IdentityRow))) :
    LoadsRows strings options (rowsInOrder inputs)
      (scanPass1 parseBytes threads options inputs) := by
  have rows : rowsInOrder inputs = inputs.flatMap List.flatten := by
    rw [rowsInOrder, flatMap_def, ← flatten_flatten]
  rw [rows]
  exact mergeShardsOrdered_loads capacity
    (fun rowGroups => scanFilePass1_loads capacity rowGroups) _

end

end Scan

end NftData.Analysis2
