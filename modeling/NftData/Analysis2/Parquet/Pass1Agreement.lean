import NftData.Analysis2.Parquet.Pass1
import NftData.Dedup.Entity.Conflicts

namespace NftData.Analysis2

open List
open LoadOptions (loadedRows selectedRows)
open Dedup (ContractName NftName Table)
open ResidentStore

/-! # Chunking does not matter, and a filter restricts

The scan of any files in any chunks loads what the rows load in order. With a filter it loads
the NFTs of the contracts in the filter. -/

namespace IdentityRow

def contractName (row : IdentityRow) : ContractName := (row.chain, row.contractAddress)

def nftName (row : IdentityRow) : NftName := (row.contractName, row.tokenId)

end IdentityRow

def ColumnAgrees (first second : Text) : Prop :=
  first.trim ≠ [] → second.trim ≠ [] → first = second

/-- No `(chain, contract, token)` has two distinct non-blank values in one URI column. -/
def NoUriConflict (rows : List IdentityRow) : Prop :=
  ∀ first ∈ rows, ∀ second ∈ rows, first.nftName = second.nftName →
    ColumnAgrees first.tokenUriNorm second.tokenUriNorm ∧
      ColumnAgrees first.imageUriNorm second.imageUriNorm

/-- There are identifiers for all chains, contracts and NFTs of the rows. -/
structure FitsIdentifiers (rows : List IdentityRow) : Prop where
  chains : (rows.map IdentityRow.chain).toFinset.card ≤ chainIdCapacity
  contracts : (rows.map IdentityRow.contractName).toFinset.card ≤ contractIdCapacity
  nfts : (rows.map IdentityRow.nftName).toFinset.card ≤ nftIdCapacity

def TextsFit (rows : List IdentityRow) : Prop :=
  (loadTexts rows).card ≤ stringIdCapacity

namespace LoadOptions

def unfiltered (options : LoadOptions) : LoadOptions :=
  { options with
    identityContractFilter := none }

end LoadOptions

theorem uriAgrees_iff (first second : Text) :
    Dedup.UriAgrees (if first.trim.isEmpty then none else some first)
      (if second.trim.isEmpty then none else some second) ↔ ColumnAgrees first second := by
  rw [Dedup.UriAgrees, ColumnAgrees]
  cases firstBlank : first.trim.isEmpty with
  | true =>
      have blank := List.isEmpty_iff.mp firstBlank
      simp [blank]
  | false =>
      have present : first.trim ≠ [] := by simpa using firstBlank
      cases secondBlank : second.trim.isEmpty with
      | true =>
          have blank := List.isEmpty_iff.mp secondBlank
          simp [blank]
      | false =>
          have secondPresent : second.trim ≠ [] := by simpa using secondBlank
          simp [present, secondPresent]

theorem noConflict_iff (rows : List IdentityRow) :
    Dedup.NoConflict ((rows.map viewRow).map Dedup.InputRow.nftEntry) ↔ NoUriConflict rows := by
  have pair : ∀ first second : IdentityRow,
      (Dedup.UriAgrees (viewRow first).nftValue.tokenUri (viewRow second).nftValue.tokenUri ∧
        Dedup.UriAgrees (viewRow first).nftValue.imageUri (viewRow second).nftValue.imageUri) ↔
      ColumnAgrees first.tokenUriNorm second.tokenUriNorm ∧
        ColumnAgrees first.imageUriNorm second.imageUriNorm := by
    intro first second
    rw [viewRow_nftValue, viewRow_nftValue, uriAgrees_iff, uriAgrees_iff]
  rw [Dedup.NoConflict, NoUriConflict]
  simp only [map_map, forall_mem_map, Function.comp_apply]
  constructor
  · intro agree first firstMember second secondMember sameNft
    exact (pair first second).mp (agree first firstMember second secondMember sameNft)
  · intro agree first firstMember second secondMember sameNft
    exact (pair first second).mpr (agree first firstMember second secondMember sameNft)

theorem fitsIdentifiers_iff (rows : List IdentityRow) :
    Dedup.FitsIdentifiers (rows.map viewRow) ↔ FitsIdentifiers rows := by
  constructor
  · intro fits
    have chains := fits.chains
    have contracts := fits.contracts
    have nfts := fits.nfts
    rw [map_map] at chains contracts nfts
    exact ⟨chains, contracts, nfts⟩
  · intro fits
    refine ⟨?_, ?_, ?_⟩
    · rw [map_map]
      exact fits.chains
    · rw [map_map]
      exact fits.contracts
    · rw [map_map]
      exact fits.nfts

theorem loadedRows_viewRow (options : LoadOptions) (rows : List IdentityRow) :
    Table.loadedRows ((options.selectedRows rows).map viewRow) =
      (options.loadedRows rows).map viewRow := by
  rw [Table.loadedRows, filter_map]
  rfl

theorem scannedTable_isSome_iff (options : LoadOptions) (rows : List IdentityRow) :
    (∃ table, scannedTable options rows = some table) ↔
      NoUriConflict (options.loadedRows rows) ∧ FitsIdentifiers (options.loadedRows rows) := by
  rw [scannedTable, Dedup.addRows_fits_iff, loadedRows_viewRow, noConflict_iff,
    fitsIdentifiers_iff]

variable {rows : List IdentityRow} {table : Table}

theorem scannedTable_names {options : LoadOptions} (ok : scannedTable options rows = some table) :
    table.nfts.map Prod.fst =
      pushKeys [] ((options.loadedRows rows).map IdentityRow.nftName) := by
  have loaded := (Option.filter_eq_some_iff.mp ok).1
  rw [Table.addRows_eq] at loaded
  rcases Option.map_eq_some_iff.mp loaded with ⟨nfts, absorbed, equal⟩
  rw [← equal, keys_absorbAll absorbed, loadedRows_viewRow, map_map, map_map]
  rfl

variable {part : List IdentityRow}

theorem NoUriConflict.subset (partSubset : part ⊆ rows) (noConflict : NoUriConflict rows) :
    NoUriConflict part := by
  intro first firstMember second secondMember
  exact noConflict first (partSubset firstMember) second (partSubset secondMember)

theorem card_toFinset_mono {α : Type} [DecidableEq α] {values part : List α}
    (partSubset : part ⊆ values) : part.toFinset.card ≤ values.toFinset.card := by
  apply Finset.card_le_card
  intro value member
  rw [mem_toFinset] at member ⊢
  exact partSubset member

theorem card_toFinset_map_mono {α β : Type} [DecidableEq β] {values part : List α}
    (partSubset : part ⊆ values) (view : α → β) :
    (part.map view).toFinset.card ≤ (values.map view).toFinset.card :=
  card_toFinset_mono (map_subset view partSubset)

theorem FitsIdentifiers.subset (partSubset : part ⊆ rows) (fits : FitsIdentifiers rows) :
    FitsIdentifiers part where
  chains := (card_toFinset_map_mono partSubset _).trans fits.chains
  contracts := (card_toFinset_map_mono partSubset _).trans fits.contracts
  nfts := (card_toFinset_map_mono partSubset _).trans fits.nfts

theorem TextsFit.subset (partSubset : part ⊆ rows) (fits : TextsFit rows) : TextsFit part := by
  apply (card_toFinset_mono _).trans fits
  intro text member
  rcases mem_flatMap.mp member with ⟨row, inPart, inRow⟩
  exact mem_flatMap.mpr ⟨row, partSubset inPart, inRow⟩

theorem loadedRows_filtered (options : LoadOptions) (rows : List IdentityRow) :
    options.loadedRows rows =
      (options.unfiltered.loadedRows rows).filter fun row =>
        options.retainsContract row.contractName := by
  have selected : options.selectedRows rows =
      (options.unfiltered.selectedRows rows).filter fun row =>
        options.retainsContract row.contractName := by
    rw [selectedRows, selectedRows, filter_map, filter_filter]
    congr 1
    apply filter_congr
    intro columns _
    have unfiltered : options.unfiltered.selects columns =
        options.allowsChain (options.identityRow columns).chain := Bool.and_true _
    rw [unfiltered, Bool.and_comm]
    rfl
  rw [loadedRows, loadedRows, selected, filter_filter,
    filter_filter]
  apply filter_congr
  intro row _
  exact Bool.and_comm _ _

theorem loadedRows_subset (options : LoadOptions) (rows : List IdentityRow) :
    options.loadedRows rows ⊆ options.unfiltered.loadedRows rows := by
  rw [loadedRows_filtered]
  exact filter_subset_self _

section Agreement

variable {options : LoadOptions} {rows : List IdentityRow}
  {inputs : List (List (List IdentityRow))}

theorem ingestInOrder_loads (options : LoadOptions)
    (textsFit : TextsFit (options.loadedRows rows)) :
    Simulates (Represents (loadTexts (options.loadedRows rows))) (ingestInOrder options rows)
      (scannedTable options rows) :=
  foldlM_scanRow_loads textsFit rows (rowsWithin_loadTexts rows)

theorem scanPass1_simulates (parseBytes : NumberParser) (threads : Nat) (options : LoadOptions)
    (textsFit : TextsFit (options.loadedRows (rowsInOrder inputs))) :
    Simulates (Represents (loadTexts (options.loadedRows (rowsInOrder inputs))))
      (scanPass1 parseBytes threads options inputs)
      (scannedTable options (rowsInOrder inputs)) :=
  scanPass1_loads textsFit inputs (rowsWithin_loadTexts _)

theorem ResidentStore.Represents.names {strings : Finset Text} {store : ResidentStore}
    (represents : Represents strings store table) (ok : scannedTable options rows = some table) :
    store.nfts.map store.identity =
      (pushKeys [] ((options.loadedRows rows).map IdentityRow.nftName)).map some := by
  rw [represents.identities, scannedTable_names ok]

theorem names_filtered (options : LoadOptions) (rows : List IdentityRow) :
    pushKeys [] ((options.loadedRows rows).map IdentityRow.nftName) =
      (pushKeys [] ((options.unfiltered.loadedRows rows).map IdentityRow.nftName)).filter
        fun name => options.retainsContract name.1 := by
  rw [pushKeys_filter, filter_nil, filter_map, loadedRows_filtered options]
  rfl

end Agreement

/-- Scanning files in chunks loads what the rows load in order: it succeeds together with the
load in order, that is when no URI conflicts and every key gets an identifier, and the two
stores then differ in the numbers of their strings only. With a filter the load keeps, in
order, the NFTs of the contracts in the filter. -/
theorem scanPass1_agrees (parseBytes : NumberParser) (threads : Nat) (options : LoadOptions)
    (inputs : List (List (List IdentityRow)))
    (textsFit : TextsFit (options.unfiltered.loadedRows (rowsInOrder inputs))) :
    ((∃ store, scanPass1 parseBytes threads options inputs = .ok store) ↔
      ∃ store, ingestInOrder options (rowsInOrder inputs) = .ok store) ∧
    ((∃ store, ingestInOrder options (rowsInOrder inputs) = .ok store) ↔
      NoUriConflict (options.loadedRows (rowsInOrder inputs)) ∧
        FitsIdentifiers (options.loadedRows (rowsInOrder inputs))) ∧
    (∀ scanned inOrder, scanPass1 parseBytes threads options inputs = .ok scanned →
      ingestInOrder options (rowsInOrder inputs) = .ok inOrder →
      SameUpToStrings scanned inOrder) ∧
    ∀ whole, scanPass1 parseBytes threads options.unfiltered inputs = .ok whole →
      ∃ (restricted : ResidentStore) (names : List NftName),
        scanPass1 parseBytes threads options inputs = .ok restricted ∧
        whole.nfts.map whole.identity = names.map some ∧
        restricted.nfts.map restricted.identity =
          (names.filter fun name => options.retainsContract name.1).map some := by
  have restrictedFit := textsFit.subset (loadedRows_subset options (rowsInOrder inputs))
  have scan := scanPass1_simulates parseBytes threads options restrictedFit
  have inOrder := ingestInOrder_loads options restrictedFit
  have wholeScan := scanPass1_simulates parseBytes threads options.unfiltered textsFit
  refine ⟨scan.ok_iff.trans inOrder.ok_iff.symm,
    inOrder.ok_iff.trans (scannedTable_isSome_iff _ _), ?_, ?_⟩
  · intro scanned other scanOk otherOk
    rcases scan.related scanOk with ⟨table, tableOk, represents⟩
    rcases inOrder.related otherOk with ⟨otherTable, otherTableOk, otherRepresents⟩
    rw [tableOk] at otherTableOk
    cases otherTableOk
    exact represents.sameUpToStrings otherRepresents
  · intro whole wholeOk
    rcases wholeScan.related wholeOk with ⟨table, tableOk, represents⟩
    rcases (scannedTable_isSome_iff _ _).mp ⟨table, tableOk⟩ with ⟨noConflict, fits⟩
    have subset := loadedRows_subset options (rowsInOrder inputs)
    have restrictedTable := (scannedTable_isSome_iff options (rowsInOrder inputs)).mpr
      ⟨noConflict.subset subset, fits.subset subset⟩
    rcases scan.ok_iff.mpr restrictedTable with ⟨restricted, restrictedOk⟩
    rcases scan.related restrictedOk with
      ⟨smaller, smallerOk, smallerRepresents⟩
    refine ⟨restricted, _, restrictedOk, represents.names tableOk, ?_⟩
    rw [smallerRepresents.names smallerOk, names_filtered]

instance (rows : List IdentityRow) : Decidable (NoUriConflict rows) := by
  unfold NoUriConflict ColumnAgrees
  infer_instance

/-- Two files with one NFT each, and a filter for the contract of the first. -/
def twoFiles : List (List (List IdentityRow)) :=
  [[[⟨" Ethereum".toList, "0xAB".toList, "1".toList, "A".toList, "u".toList, []⟩]],
    [[⟨"ethereum".toList, "0xCD".toList, "2".toList, "B".toList, "u".toList, []⟩]]]

def onlyFirstContract : LoadOptions :=
  ⟨∅, {"ethereum".toList}, none, true,
    some fun chain => if chain = "ethereum".toList then some {"0xab".toList} else none⟩

theorem scanPass1_agrees_twoFiles :
    ∃ (whole restricted : ResidentStore) (names : List NftName),
      scanPass1 (fun _ => none) 1 onlyFirstContract.unfiltered twoFiles = .ok whole ∧
        scanPass1 (fun _ => none) 1 onlyFirstContract twoFiles = .ok restricted ∧
        whole.nfts.map whole.identity = names.map some ∧
        restricted.nfts.map restricted.identity =
          (names.filter fun name => onlyFirstContract.retainsContract name.1).map some := by
  have textsFit : TextsFit (onlyFirstContract.unfiltered.loadedRows (rowsInOrder twoFiles)) := by
    unfold TextsFit
    decide
  have whole := scanPass1_agrees (fun _ => none) 1 onlyFirstContract.unfiltered twoFiles textsFit
  have noConflict : NoUriConflict
      (onlyFirstContract.unfiltered.loadedRows (rowsInOrder twoFiles)) := by decide
  have fits : FitsIdentifiers (onlyFirstContract.unfiltered.loadedRows (rowsInOrder twoFiles)) :=
    ⟨by decide, by decide, by decide⟩
  rcases whole.1.mpr (whole.2.1.mpr ⟨noConflict, fits⟩) with ⟨store, storeOk⟩
  have restricts := (scanPass1_agrees (fun _ => none) 1 onlyFirstContract twoFiles textsFit).2.2.2
  rcases restricts store storeOk with ⟨restricted, names, agreement⟩
  exact ⟨store, restricted, names, storeOk, agreement⟩

def chainRow (chain : Nat) : IdentityRow :=
  ⟨Text.ofNat chain, "a".toList, "1".toList, [], [], []⟩

/-- No chain is excluded and no contract filtered out. -/
def allRows : LoadOptions := ⟨∅, ∅, none, true, none⟩

theorem toAsciiLowercase_ofNat (value : Nat) :
    (Text.ofNat value).toAsciiLowercase = Text.ofNat value := by
  have unchanged : ∀ character ∈ Text.ofNat value, character.toLower = id character := by
    intro character member
    have digit := Text.isDigit_of_mem_ofNat member
    have bounds : 48 ≤ character.toNat ∧ character.toNat ≤ 57 := by
      simpa [Char.isDigit, UInt32.le_iff_toNat_le] using digit
    rw [Char.toLower, dif_neg]
    · rfl
    · intro upper
      have atLeast : 65 ≤ character.toNat := UInt32.le_iff_toNat_le.mp upper.1
      omega
  rw [Text.toAsciiLowercase, map_congr_left unchanged, map_id]

theorem identityRow_chainRow (chain : Nat) :
    allRows.identityRow (chainRow chain) = chainRow chain := by
  rw [LoadOptions.identityRow, chainRow, normalizedChain, Text.trim_ofNat,
    toAsciiLowercase_ofNat]
  rfl

theorem loadedRows_chainRow (count : Nat) :
    allRows.loadedRows ((List.range count).map chainRow) = (List.range count).map chainRow := by
  have kept : ∀ row ∈ (List.range count).map chainRow,
      allRows.selects row = true ∧ allRows.identityRow row = id row ∧ row.isSkipped = false := by
    intro row member
    rcases mem_map.mp member with ⟨chain, _, equal⟩
    rw [← equal, id_eq]
    refine ⟨rfl, identityRow_chainRow chain, ?_⟩
    have nonempty : (Text.ofNat chain).isEmpty = false := by
      rw [isEmpty_eq_false_iff]
      exact Nat.toDigits_ne_nil
    rw [IdentityRow.isSkipped, chainRow, nonempty]
    rfl
  have selected : allRows.selectedRows ((List.range count).map chainRow) =
      (List.range count).map chainRow := by
    rw [selectedRows, filter_eq_self.mpr fun row member => (kept row member).1,
      map_congr_left fun row member => (kept row member).2.1, map_id]
  rw [loadedRows, selected, filter_eq_self]
  intro row member
  rw [(kept row member).2.2]
  rfl

theorem loadTexts_chainRow (count : Nat) : TextsFit ((List.range count).map chainRow) := by
  have known : loadTexts ((List.range count).map chainRow) ⊆ {"a".toList, "1".toList} := by
    intro text member
    rw [loadTexts, mem_toFinset] at member
    rcases mem_flatMap.mp member with ⟨row, inRows, inRow⟩
    rcases mem_map.mp inRows with ⟨chain, _, equal⟩
    rw [← equal, rowTexts, viewRow_nftValue] at inRow
    simpa [chainRow, Dedup.NftValue.texts, Text.trim, Text.trimStart, Text.trimEnd] using inRow
  apply (Finset.card_le_card known).trans
  apply Finset.card_le_two.trans
  decide

theorem noUriConflict_chainRow (count : Nat) :
    NoUriConflict (allRows.loadedRows ((List.range count).map chainRow)) := by
  rw [loadedRows_chainRow]
  intro first firstMember second secondMember _
  rcases mem_map.mp firstMember with ⟨chain, _, equal⟩
  rw [← equal]
  exact ⟨fun blank => absurd rfl blank, fun blank => absurd rfl blank⟩

theorem le_capacity_of_ingestInOrder (count : Nat)
    (loads : ∃ store, ingestInOrder allRows ((List.range count).map chainRow) = .ok store) :
    count ≤ chainIdCapacity := by
  have textsFit : TextsFit (allRows.loadedRows ((List.range count).map chainRow)) := by
    rw [loadedRows_chainRow]
    exact loadTexts_chainRow count
  have fits := ((ingestInOrder_loads allRows textsFit).ok_iff.trans
    (scannedTable_isSome_iff _ _)).mp loads
  have chains := fits.2.chains
  rw [loadedRows_chainRow, map_map] at chains
  have distinct : ((List.range count).map (IdentityRow.chain ∘ chainRow)).Nodup :=
    nodup_range.map Text.ofNat_injective
  rw [toFinset_card_of_nodup distinct, length_map, length_range] at chains
  exact chains

/-- One chain more than there are chain identifiers: no URI conflicts, and still the rows do
not load. -/
theorem ingestInOrder_too_many_chains :
    NoUriConflict (allRows.loadedRows ((List.range (chainIdCapacity + 1)).map chainRow)) ∧
      ¬ ∃ store, ingestInOrder allRows ((List.range (chainIdCapacity + 1)).map chainRow) =
        .ok store := by
  refine ⟨noUriConflict_chainRow _, fun loads => ?_⟩
  have atMost := le_capacity_of_ingestInOrder _ loads
  omega

end NftData.Analysis2
