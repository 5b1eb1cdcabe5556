import NftData.Foundation.KeyedFold
import NftData.Foundation.Simulation
import NftData.Dedup.Entity.Types

namespace NftData.Dedup

/-! # The table a snapshot stands for

What loading means, without identifiers: the distinct chains, contracts and NFTs
in the order they first occur, and for every NFT the first name and the one URI
of each kind that its rows give it. -/

open List

abbrev ContractName := Text × Text

abbrev NftName := ContractName × Text

structure NftValue where
  name : Option Text
  tokenUri : Option Text
  imageUri : Option Text
  sourceOrder : SourceOrder
  deriving DecidableEq

/-- A missing URI is filled in; two different URIs are a conflict. -/
def combineUri : Option Text → Option Text → Option (Option Text)
  | none, value => some value
  | some value, none => some (some value)
  | some first, some second => if first = second then some (some first) else none

theorem combineUri_associative : PartialAssociative combineUri := by
  intro first second third
  cases first with
  | none => cases second <;> simp [combineUri]
  | some first =>
      cases second with
      | none => simp [combineUri]
      | some second =>
          cases third with
          | none => by_cases same : first = second <;> simp [combineUri, same]
          | some third =>
              by_cases same : first = second
              · by_cases sameThird : second = third <;>
                  simp [combineUri, same, sameThird]
              · by_cases sameThird : second = third
                · subst sameThird
                  simp [combineUri, same]
                · simp [combineUri, same, sameThird]

def NftValue.combine (first second : NftValue) : Option NftValue :=
  (combineUri first.tokenUri second.tokenUri).bind fun tokenUri =>
    (combineUri first.imageUri second.imageUri).map fun imageUri =>
      ⟨first.name.or second.name, tokenUri, imageUri, first.sourceOrder⟩

theorem NftValue.combine_associative : PartialAssociative NftValue.combine := by
  intro first second third
  have left : (first.combine second).bind (NftValue.combine · third) =
      ((combineUri first.tokenUri second.tokenUri).bind
        (combineUri · third.tokenUri)).bind fun tokenUri =>
          ((combineUri first.imageUri second.imageUri).bind
            (combineUri · third.imageUri)).map fun imageUri =>
              ⟨first.name.or (second.name.or third.name), tokenUri, imageUri,
                first.sourceOrder⟩ := by
    cases tokenUri : combineUri first.tokenUri second.tokenUri <;>
      cases imageUri : combineUri first.imageUri second.imageUri <;>
      simp [NftValue.combine, tokenUri, imageUri, Option.or_assoc]
  have right : (second.combine third).bind (first.combine ·) =
      ((combineUri second.tokenUri third.tokenUri).bind
        (combineUri first.tokenUri ·)).bind fun tokenUri =>
          ((combineUri second.imageUri third.imageUri).bind
            (combineUri first.imageUri ·)).map fun imageUri =>
              ⟨first.name.or (second.name.or third.name), tokenUri, imageUri,
                first.sourceOrder⟩ := by
    cases tokenUri : combineUri second.tokenUri third.tokenUri <;>
      cases imageUri : combineUri second.imageUri third.imageUri <;>
      simp [NftValue.combine, tokenUri, imageUri]
  rw [left, right, combineUri_associative, combineUri_associative]

structure Table where
  chains : List Text
  contracts : List ContractName
  nfts : List (NftName × NftValue)

variable {table : Table} {next : Table}

namespace Table

def empty : Table := ⟨[], [], []⟩

/-- The identifier types can number everything in the table. -/
def fits (table : Table) : Bool :=
  decide (table.chains.length ≤ chainIdCapacity) &&
    decide (table.contracts.length ≤ contractIdCapacity) &&
    decide (table.nfts.length ≤ nftIdCapacity)

theorem fits_iff (table : Table) :
    table.fits = true ↔ table.chains.length ≤ chainIdCapacity ∧
      table.contracts.length ≤ contractIdCapacity ∧
      table.nfts.length ≤ nftIdCapacity := by
  simp [fits, and_assoc]

def addChain (table : Table) (chain : Text) : Table :=
  { table with chains := pushKey table.chains chain }

def addContract (table : Table) (contract : ContractName) : Table :=
  { table with contracts := pushKey table.contracts contract }

def addNft (table : Table) (entry : NftName × NftValue) : Option Table :=
  (absorb NftValue.combine table.nfts entry).map fun nfts => { table with nfts := nfts }

def setNft (table : Table) (position : Nat) (entry : NftName × NftValue) : Table :=
  { table with nfts := table.nfts.set position entry }

theorem addNft_shrinks {entry : NftName × NftValue} (ok : table.addNft entry = some next)
    (nextFits : next.fits = true) :
    table.fits = true := by
  rcases Option.map_eq_some_iff.mp ok with ⟨nfts, absorbed, equal⟩
  subst equal
  have keys := congrArg List.length (keys_absorb absorbed)
  rw [length_map] at keys
  have grown := length_le_pushKey (table.nfts.map Prod.fst) entry.1
  rw [length_map] at grown
  rw [fits_iff] at nextFits ⊢
  refine ⟨nextFits.1, nextFits.2.1, ?_⟩
  have := nextFits.2.2
  simp only at this
  omega

theorem addChain_shrinks {chain : Text} (nextFits : (table.addChain chain).fits = true) :
    table.fits = true := by
  rw [fits_iff] at nextFits ⊢
  exact ⟨(length_le_pushKey table.chains chain).trans nextFits.1, nextFits.2⟩

theorem addContract_shrinks {contract : ContractName}
    (nextFits : (table.addContract contract).fits = true) : table.fits = true := by
  rw [fits_iff] at nextFits ⊢
  exact ⟨nextFits.1, (length_le_pushKey table.contracts contract).trans nextFits.2.1,
    nextFits.2.2⟩

end Table

namespace InputRow

def contractName (row : InputRow) : ContractName := (row.chain, row.contractAddress)

/-- The columns of a row, where an empty or blank column says nothing. -/
def nftValue (row : InputRow) : NftValue where
  name := if row.nameNorm.trim.isEmpty then none else some row.nameNorm
  tokenUri := if row.tokenUriNorm.isEmpty then none else some row.tokenUriNorm
  imageUri := if row.imageUriNorm.isEmpty then none else some row.imageUriNorm
  sourceOrder := row.sourceOrder

def nftEntry (row : InputRow) : NftName × NftValue :=
  ((row.contractName, row.tokenId), row.nftValue)

end InputRow

namespace Table

def addRow (table : Table) (row : InputRow) : Option Table :=
  if row.isSkipped then
    some table
  else
    ((table.addChain row.chain).addContract row.contractName).addNft row.nftEntry

def addRows (table : Table) (rows : List InputRow) : Option Table :=
  rows.foldlM addRow table

def addTable (table part : Table) : Option Table :=
  (absorbAll NftValue.combine table.nfts part.nfts).map fun nfts =>
    ⟨pushKeys table.chains part.chains, pushKeys table.contracts part.contracts, nfts⟩

def loadedRows (rows : List InputRow) : List InputRow :=
  rows.filter fun row => !row.isSkipped

theorem addRows_eq (table : Table) (rows : List InputRow) :
    table.addRows rows =
      (absorbAll NftValue.combine table.nfts
        ((loadedRows rows).map InputRow.nftEntry)).map fun nfts =>
          ⟨pushKeys table.chains ((loadedRows rows).map InputRow.chain),
            pushKeys table.contracts ((loadedRows rows).map InputRow.contractName),
            nfts⟩ := by
  induction rows generalizing table with
  | nil => rfl
  | cons row rows induction =>
      rw [addRows, foldlM_cons]
      cases skipped : row.isSkipped with
      | true =>
          have same : loadedRows (row :: rows) = loadedRows rows := by
            simp [loadedRows, skipped]
          rw [same, addRow, skipped]
          exact induction table
      | false =>
          have more : loadedRows (row :: rows) = row :: loadedRows rows := by
            simp [loadedRows, skipped]
          simp only [more, addRow, skipped, map_cons, absorbAll_cons, addNft,
            Bool.false_eq_true, if_false]
          cases absorbed : absorb NftValue.combine
              ((table.addChain row.chain).addContract row.contractName).nfts
              row.nftEntry with
          | none =>
              have : absorb NftValue.combine table.nfts row.nftEntry = none := absorbed
              rw [this]
              rfl
          | some nfts =>
              have : absorb NftValue.combine table.nfts row.nftEntry = some nfts := absorbed
              rw [this]
              exact induction _

theorem addRow_shrinks {row : InputRow} (ok : table.addRow row = some next)
    (nextFits : next.fits = true) :
    table.fits = true := by
  unfold addRow at ok
  split at ok
  · cases ok
    exact nextFits
  · exact addChain_shrinks (addContract_shrinks (addNft_shrinks ok nextFits))

/-- Loading a part of the rows on its own and adding the part gives the table
that loading its rows in place gives. -/
theorem addTable_addRows (table : Table) (rows : List InputRow) :
    (empty.addRows rows).bind table.addTable = table.addRows rows := by
  rw [addRows_eq empty, addRows_eq table, Option.bind_map]
  simp only [empty, Function.comp_def, addTable, pushKeys_pushKeys]
  rw [bind_map_eq, absorbAll_absorbAll NftValue.combine_associative]

theorem addTable_shrinks {whole part : Table} {rows : List InputRow}
    (partRows : empty.addRows rows = some part) (ok : table.addTable part = some whole)
    (wholeFits : whole.fits = true) : table.fits = true ∧ part.fits = true := by
  rcases Option.map_eq_some_iff.mp ok with ⟨nfts, absorbed, equal⟩
  subst equal
  rw [addRows_eq] at partRows
  rcases Option.map_eq_some_iff.mp partRows with ⟨partNfts, partAbsorbed, partEqual⟩
  subst partEqual
  have chainsNodup := nodup_pushKeys ((loadedRows rows).map InputRow.chain)
    nodup_nil
  have contractsNodup := nodup_pushKeys ((loadedRows rows).map InputRow.contractName)
    nodup_nil
  have nftsNodup : (partNfts.map Prod.fst).Nodup := by
    rw [keys_absorbAll partAbsorbed]
    exact nodup_pushKeys _ nodup_nil
  have nftLength := congrArg List.length (keys_absorbAll absorbed)
  have tableNfts := length_le_pushKeys (table.nfts.map Prod.fst) (partNfts.map Prod.fst)
  have partNftsLe := length_incoming_le_pushKeys (table.nfts.map Prod.fst) nftsNodup
  rw [length_map] at nftLength tableNfts partNftsLe
  rw [← nftLength] at tableNfts partNftsLe
  rw [fits_iff] at wholeFits
  rw [fits_iff, fits_iff]
  exact ⟨⟨(length_le_pushKeys _ _).trans wholeFits.1,
      (length_le_pushKeys _ _).trans wholeFits.2.1, tableNfts.trans wholeFits.2.2⟩,
    ⟨(length_incoming_le_pushKeys _ chainsNodup).trans wholeFits.1,
      (length_incoming_le_pushKeys _ contractsNodup).trans wholeFits.2.1,
      partNftsLe.trans wholeFits.2.2⟩⟩

theorem addRows_append (table : Table) (first second : List InputRow) :
    table.addRows (first ++ second) =
      (table.addRows first).bind fun middle => middle.addRows second := by
  rw [addRows, foldlM_append]
  rfl

end Table

end NftData.Dedup
