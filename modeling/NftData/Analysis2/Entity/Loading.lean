import NftData.Analysis2.Entity.Matching

namespace NftData.Analysis2.ResidentStore

open Option
open Dedup (EntityStore Table)

/-! # Loading rows into a resident store

The store refines the same table as the snapshot it matches, so loading a row adds the row
to the table and merging a shard adds the shard's table. -/

def Represents (strings : Finset Text) (store : ResidentStore) (table : Table) : Prop :=
  ∃ image, Matches store image ∧ EntityStore.Represents strings image table

/-- The strings that loading a row interns. -/
structure RowWithin (strings : Finset Text) (row : IdentityRow) : Prop where
  address : row.contractAddress ∈ strings
  tokenId : row.tokenId ∈ strings
  value : EntityStore.ValueWithin strings (viewRow row).nftValue

theorem represents_withOptions (metadataAnchorLimit : Option Nat) (evmChains : Finset Text)
    {strings : Finset Text} (capacity : strings.card ≤ Dedup.stringIdCapacity) :
    Represents strings (withOptions metadataAnchorLimit evmChains) Table.empty :=
  ⟨_, matches_withOptions metadataAnchorLimit evmChains, .withOptions none evmChains,
    ⟨by simp [EntityStore.withOptions], capacity⟩, rfl⟩

section Rows

variable {strings : Finset Text} {store : ResidentStore} {image : EntityStore}

theorem simulates_represents {step : Except Analysis2Error ResidentStore}
    {imageStep : Except Dedup.DedupError EntityStore} {abstract : Option Table}
    (lockStep : LockStep Matches step imageStep)
    (simulates : Simulates (EntityStore.Represents strings) imageStep abstract) :
    Simulates (Represents strings) step abstract := by
  apply (lockStep.simulates simulates).weaken
  intro next table _ related
  rcases related with ⟨imageNext, _, nextSame, represents⟩
  exact ⟨imageNext, nextSame, represents⟩

variable {value : Text}

theorem Matches.intern_interned (same : Matches store image)
    (within : EntityStore.Within strings image) (known : value ∈ strings) :
    ∃ id next imageNext, store.intern value = .ok (id, next) ∧ Matches next imageNext ∧
      EntityStore.Interned strings image imageNext (some id) (some value) := by
  rcases EntityStore.internString_interned same.valid within known with
    ⟨id, imageNext, imageOk, interned⟩
  rcases (same.intern value).of_second_ok imageOk with ⟨result, ok, sameId, nextSame⟩
  rcases result with ⟨resultId, next⟩
  rcases sameId
  exact ⟨id, next, imageNext, ok, nextSame, interned⟩

theorem internUnless_interned {step : Except Analysis2Error (Option Nat × ResidentStore)}
    {absent : Bool} (lockStep : LockStep MatchesWith step (image.internUnless absent value))
    (valid : image.Valid) (within : EntityStore.Within strings image)
    (known : absent = false → value ∈ strings) :
    ∃ id next imageNext, step = .ok (id, next) ∧ Matches next imageNext ∧
      EntityStore.Interned strings image imageNext id
        (if absent then none else some value) := by
  rcases EntityStore.internUnless_interned valid within known with
    ⟨id, imageNext, imageOk, interned⟩
  rcases lockStep.of_second_ok imageOk with ⟨result, ok, sameId, nextSame⟩
  rcases result with ⟨resultId, next⟩
  rcases sameId
  exact ⟨id, next, imageNext, ok, nextSame, interned⟩

theorem viewRow_nftValue (row : IdentityRow) :
    (viewRow row).nftValue =
      ⟨if row.nameNorm.trim.isEmpty then none else some row.nameNorm.trim,
        if row.tokenUriNorm.trim.isEmpty then none else some row.tokenUriNorm,
        if row.imageUriNorm.trim.isEmpty then none else some row.imageUriNorm, ⟨0, 0⟩⟩ := by
  have uri : ∀ value : Text,
      (if (if value.trim.isEmpty then [] else value).isEmpty then none
        else some (if value.trim.isEmpty then [] else value)) =
        if value.trim.isEmpty then none else some value := by
    intro value
    cases blank : value.trim.isEmpty with
    | true => rfl
    | false =>
        cases value with
        | nil => exact absurd blank (by decide)
        | cons head tail => rfl
  rw [Dedup.InputRow.nftValue, viewRow, Text.trim_trim]
  congr 1
  · exact uri row.tokenUriNorm
  · exact uri row.imageUriNorm

variable {row : IdentityRow}

theorem Matches.mergeDuplicateNft_represents (same : Matches store image)
    (within : EntityStore.Within strings image) {nftId : Nat} {nft : Dedup.Nft}
    (found : image.nfts[nftId]? = some nft)
    (sameName : image.nftName nft = (viewRow row).nftEntry.1)
    (known : EntityStore.ValueWithin strings (viewRow row).nftValue) :
    Simulates (Represents strings) (store.mergeDuplicateNft nftId row)
      (image.table.addNft (viewRow row).nftEntry) := by
  exact simulates_represents (same.mergeDuplicateNft nftId row)
    (EntityStore.mergeDuplicateNft_simulates same.valid within found sameName known)

theorem RowWithin.columns (known : RowWithin strings row) :
    (row.nameNorm.trim.isEmpty = false → row.nameNorm.trim ∈ strings) ∧
      (row.tokenUriNorm.trim.isEmpty = false → row.tokenUriNorm ∈ strings) ∧
      (row.imageUriNorm.trim.isEmpty = false → row.imageUriNorm ∈ strings) := by
  have value := known.value
  rw [viewRow_nftValue] at value
  refine ⟨?_, ?_, ?_⟩
  · intro present
    exact value.name _ (by simp [present])
  · intro present
    exact value.tokenUri _ (by simp [present])
  · intro present
    exact value.imageUri _ (by simp [present])

/-- The NFT part of a row, once its token id is interned. -/
theorem ingestNft_simulates {chainId contractId : Nat} (same : Matches store image)
    (within : EntityStore.Within strings image)
    (contractAt : EntityStore.ContractAt image contractId chainId (viewRow row).contractName)
    (known : RowWithin strings row) :
    Simulates (Represents strings) (store.ingestNft chainId contractId row)
      ((image.table.addNft (viewRow row).nftEntry).filter Table.fits) := by
  rcases same.intern_interned within known.tokenId with
    ⟨tokenSid, tokenStore, tokenImage, tokenOk, tokenSame, token⟩
  have tokenAt : tokenStore.strings.strings[tokenSid]? = some row.tokenId :=
    tokenSame.strings ▸ token.reads
  have contractKept := contractAt.extend token.only.extension
  rw [ResidentStore.ingestNft, tokenOk, ← token.only.table same.valid]
  simp only [ok_bind]
  rw [tokenSame.nftIndex, tokenAt, bind_some]
  cases indexedAt : tokenImage.nftIndex (contractId, row.tokenId) with
  | some nftId =>
      have keyAt := tokenSame.valid.nftKeys.get_of_lookup indexedAt
      rw [List.getElem?_map] at keyAt
      rcases map_eq_some_iff.mp keyAt with ⟨nft, found, keyEqual⟩
      have sameName : tokenImage.nftName nft = (viewRow row).nftEntry.1 := by
        have sameContract : nft.contractId = contractId := congrArg Prod.fst keyEqual
        have sameToken : nft.tokenId = row.tokenId := congrArg Prod.snd keyEqual
        simp only [EntityStore.nftName, sameContract, sameToken, contractKept.named,
          getD_some]
        rfl
      apply (tokenSame.mergeDuplicateNft_represents token.within found sameName known.value).filter
      intro _ _ both
      rcases both with ⟨_, _, represents⟩
      exact represents.fits
  | none =>
      change Simulates _ (tokenStore.internNonblank row.nameNorm >>= _) _
      rcases known.columns with ⟨nameKnown, tokenUriKnown, imageUriKnown⟩
      rcases internUnless_interned (tokenSame.internNonblank row.nameNorm) tokenSame.valid
        token.within nameKnown with ⟨nameId, nameStore, nameImage, nameOk, nameSame, name⟩
      rcases internUnless_interned (nameSame.internNonempty row.tokenUriNorm) nameSame.valid
        name.within tokenUriKnown with
        ⟨tokenUriId, uriStore, uriImage, uriOk, uriSame, tokenUri⟩
      rcases internUnless_interned (uriSame.internNonempty row.imageUriNorm) uriSame.valid
        tokenUri.within imageUriKnown with
        ⟨imageUriId, lastStore, lastImage, lastOk, lastSame, imageUri⟩
      simp only [nameOk, uriOk, lastOk, ok_bind]
      have untilUri := name.only.trans tokenUri.only
      have untilLast := untilUri.trans imageUri.only
      have fresh : lastImage.nftIndex (contractId, row.tokenId) = none := by
        rw [untilLast.nftIndex]
        exact indexedAt
      have contractLast := contractKept.extend untilLast.extension
      have nameLast := (name.inside.mono tokenUri.only.extension).mono imageUri.only.extension
      have tokenUriLast := tokenUri.inside.mono imageUri.only.extension
      have tokenLast : lastStore.strings.strings[tokenSid]? = some row.tokenId :=
        lastSame.strings ▸ untilLast.extension.string token.reads
      let nft : Nft := ⟨contractId, tokenSid, nameId, tokenUriId, imageUriId⟩
      let imageNft : Dedup.Nft :=
        ⟨0, contractId, row.tokenId, nameId, tokenUriId, imageUriId, ⟨0, 0⟩⟩
      have sameNft : MatchesNft lastStore.strings.strings nft imageNft :=
        ⟨rfl, tokenLast, rfl, rfl, rfl, rfl⟩
      have inserted := EntityStore.insertNft_simulates imageNft untilLast.valid
        imageUri.within fresh contractLast.onChain nameLast tokenUriLast imageUri.inside
      have valid : ∀ next, lastImage.insertNft chainId imageNft = .ok next → next.Valid := by
        intro next ok
        rcases inserted.related ok with ⟨table, _, represents⟩
        exact represents.valid
      have nameReads : lastImage.text nameId = (viewRow row).nftValue.name := by
        rw [EntityStore.text_of_extends imageUri.only.extension
            (name.inside.mono tokenUri.only.extension),
          EntityStore.text_of_extends tokenUri.only.extension name.inside, name.reads,
          viewRow_nftValue]
      have tokenUriReads : lastImage.text tokenUriId = (viewRow row).nftValue.tokenUri := by
        rw [EntityStore.text_of_extends imageUri.only.extension tokenUri.inside,
          tokenUri.reads, viewRow_nftValue]
      have imageUriReads : lastImage.text imageUriId = (viewRow row).nftValue.imageUri := by
        rw [imageUri.reads, viewRow_nftValue]
      have entry : lastImage.nftEntry imageNft = (viewRow row).nftEntry := by
        simp only [EntityStore.nftEntry, EntityStore.nftName, EntityStore.nftValue,
          contractLast.named, getD_some, nameReads, tokenUriReads, imageUriReads,
          imageNft]
        rfl
      rw [entry, untilLast.table tokenSame.valid] at inserted
      exact simulates_represents (lockStep_matches valid (lastSame.insertNft sameNft)) inserted

variable {table : Table}

/-- Loading a row is adding it to the table. -/
theorem ingestIdentityRow_simulates (represents : Represents strings store table)
    (known : row.isSkipped = false → RowWithin strings row) :
    Simulates (Represents strings) (store.ingestIdentityRow row)
      ((table.addRow (viewRow row)).filter Table.fits) := by
  rcases represents with ⟨image, same, represents⟩
  rw [ResidentStore.ingestIdentityRow]
  cases skipped : row.isSkipped with
  | true =>
      have unchanged : table.addRow (viewRow row) = some table := by
        rw [Table.addRow, if_pos (show (viewRow row).isSkipped = true from skipped)]
      rw [unchanged, filter_some, if_pos represents.fits]
      exact ⟨image, same, represents⟩
  | false =>
      have within := known skipped
      rw [EntityStore.addRow_steps (show (viewRow row).isSkipped = false from skipped),
        ← represents.reads]
      apply ((same.ensureChain row.chain).simulates
        (EntityStore.ensureChain_simulates represents.valid represents.within)).bind
      intro result chainTable _ _ chained
      rcases result with ⟨chainId, chained⟩
      rcases chained with ⟨chainImage, _, sameChain, chainRepresents, _, chainAt⟩
      rcases chainImage with ⟨imageChainId, chainImage⟩
      rcases sameChain with ⟨rfl, chainSame⟩
      rcases chainSame.intern_interned chainRepresents.within within.address with
        ⟨addressId, addressStore, addressImage, addressOk, addressSame, address⟩
      change Simulates _ (chained.intern row.contractAddress >>= _) _
      rw [addressOk, ok_bind, ← chainRepresents.reads,
        ← address.only.table chainRepresents.valid]
      have chainKept := address.only.extension.chain chainAt
      have inside : imageChainId < addressStore.chains.length :=
        addressSame.chains ▸ (List.getElem?_eq_some_iff.mp chainKept).1
      apply ((addressSame.ensureContract inside (addressSame.strings ▸ address.reads)).simulates
        (EntityStore.ensureContract_simulates address.only.valid address.within
          chainKept)).bind
      intro result contractTable _ _ contracted
      rcases result with ⟨contractId, contracted⟩
      rcases contracted with
        ⟨contractImage, _, sameContract, contractRepresents, contractExtends, keyAt⟩
      rcases contractImage with ⟨imageContractId, contractImage⟩
      rcases sameContract with ⟨rfl, contractSame⟩
      rw [← contractRepresents.reads]
      exact ingestNft_simulates contractSame contractRepresents.within
        ⟨contractExtends.chain chainKept, keyAt⟩ within

theorem ingestIdentityRows_simulates {rows : List IdentityRow}
    (represents : Represents strings store table)
    (known : ∀ row ∈ rows, row.isSkipped = false → RowWithin strings row) :
    Simulates (Represents strings) (rows.foldlM ingestIdentityRow store)
      ((table.addRows (rows.map viewRow)).filter Table.fits) := by
  rcases represents with ⟨image, same, imageRepresents⟩
  rw [Table.addRows, ← foldlM_filter Table.fits Table.addRow
    (fun _ _ _ ok => Table.addRow_shrinks ok) (rows.map viewRow) table imageRepresents.fits]
  have inputs : List.Forall₂ (fun row image => image = viewRow row ∧
      (row.isSkipped = false → RowWithin strings row)) rows (rows.map viewRow) := by
    rw [List.forall₂_map_right_iff, List.forall₂_same]
    exact fun row member => ⟨rfl, known row member⟩
  apply Simulates.foldlM _ ⟨image, same, imageRepresents⟩ inputs
  intro state image row sameRow represents both
  rw [both.1]
  exact ingestIdentityRow_simulates represents both.2

/-- Merging a shard is adding its table. -/
theorem mergeShard_simulates {shard : ResidentStore} {part : Table} (parseBytes : NumberParser)
    (represents : Represents strings store table) (shardRepresents : Represents strings shard part)
    :
    Simulates (Represents strings) (store.mergeShard parseBytes shard)
      ((table.addTable part).filter Table.fits) := by
  rcases represents with ⟨image, same, represents⟩
  rcases shardRepresents with ⟨shardImage, shardSame, shardRepresents⟩
  exact simulates_represents (same.mergeShard shardSame parseBytes)
    (EntityStore.mergeShard_simulates represents shardRepresents)

end Rows

end NftData.Analysis2.ResidentStore
