import NftData.Dedup.Entity.Refinement

namespace NftData.Dedup.EntityStore

/-! # Loading rows and merging shards

The two operations of the loader simulate adding a row and adding a table. A
store is refused exactly when a URI conflicts or an identifier type is full. -/

open List
open Table (addRow fits fits_iff)

variable {store : EntityStore} {strings : Finset Text}

theorem Represents.fits {table : Table} (represents : Represents strings store table) :
    table.fits = true := by
  have valid := represents.valid
  rw [← represents.reads, fits_iff]
  refine ⟨valid.chainCapacity, ?_, ?_⟩
  · simpa [EntityStore.table] using valid.contractCapacity
  · simpa [EntityStore.table] using valid.nftCapacity

/-! ## Numbering chains and contracts -/

private theorem filter_pushed {Key : Type} [DecidableEq Key] {keys : List Key}
    {key : Key} (capacity : Nat) (inside : keys.length ≤ capacity) :
    (pushKey keys key).length ≤ capacity ↔ key ∈ keys ∨ keys.length < capacity := by
  unfold pushKey
  split
  · next known => simp [known, inside]
  · next fresh =>
      simp only [length_append, length_singleton, fresh, false_or]
      omega

variable {chain : Text} {next : EntityStore} {id : Nat}

theorem ensureChain_chains (valid : Valid store) (ok : store.ensureChain chain = .ok (id, next)) :
    next.chains = pushKey store.chains chain := by
  rcases issue_cases ok with ⟨found, rfl⟩ | ⟨found, _, _, rfl⟩
  · have known := (valid.chainKeys.lookup_isSome_iff chain).mp ⟨id, found⟩
    rw [pushKey, if_pos known]
  · have fresh := (valid.chainKeys.lookup_eq_none_iff chain).mp found
    rw [pushKey, if_neg fresh]

theorem ensureChain_ok_iff (valid : Valid store) :
    (∃ result, store.ensureChain chain = .ok result) ↔
      (pushKey store.chains chain).length ≤ chainIdCapacity := by
  rw [filter_pushed _ valid.chainCapacity, ← valid.chainKeys.lookup_isSome_iff chain]
  unfold ensureChain
  cases found : store.chainIds chain with
  | some id => simp
  | none =>
      simp only [reduceCtorEq, exists_false, false_or]
      exact tryFrom_bind_ok_iff _

/-- A step that succeeds exactly when the abstract result fits. -/
private theorem simulates_filter {α : Type} {Related : α → Table → Prop}
    {step : Except DedupError α} {table : Table}
    (okIff : (∃ result, step = .ok result) ↔ table.fits = true)
    (related : ∀ result, step = .ok result → Related result table) :
    Simulates Related step ((some table).filter fits) := by
  rw [Option.filter_some]
  cases stepped : step with
  | ok result =>
      rw [if_pos (okIff.mp ⟨result, stepped⟩)]
      exact related result stepped
  | error error =>
      have bad : ¬ table.fits = true := by
        intro good
        rcases okIff.mpr good with ⟨result, ok⟩
        rw [stepped] at ok
        cases ok
      rw [if_neg bad]
      exact trivial

theorem ensureChain_simulates (valid : Valid store) (within : Within strings store) :
    Simulates
      (fun result table => Represents strings result.2 table ∧
        Extends store result.2 ∧ result.2.chains[result.1]? = some chain)
      (store.ensureChain chain)
      ((some (store.table.addChain chain)).filter fits) := by
  apply simulates_filter
  · rw [ensureChain_ok_iff valid, fits_iff]
    have contracts : store.table.contracts.length ≤ contractIdCapacity := by
      simpa [table] using valid.contractCapacity
    have nfts : store.table.nfts.length ≤ nftIdCapacity := by
      simpa [table] using valid.nftCapacity
    simp only [Table.addChain, contracts, nfts, and_true]
    rfl
  · rintro ⟨id, next⟩ ok
    rcases ensureChain_spec valid ok with ⟨nextValid, extension, found, frame⟩
    have sameStrings : next.strings = store.strings := by rw [frame]
    have sameContracts : next.contracts = store.contracts := by rw [frame]
    have sameNfts : next.nfts = store.nfts := by rw [frame]
    refine ⟨⟨nextValid, ⟨sameStrings ▸ within.known, within.capacity⟩, ?_⟩,
      extension, found⟩
    rw [table, ensureChain_chains valid ok,
      contractNames_of_extends valid extension (by rw [sameContracts]),
      nftEntries_of_extends valid extension sameNfts]
    rfl

variable {chainId : Nat} {address : Text}

theorem ensureContract_keys (valid : Valid store)
    (ok : store.ensureContract chainId address = .ok (id, next)) :
    next.contracts.map Contract.key =
      pushKey (store.contracts.map Contract.key) (chainId, address) := by
  rcases issue_cases ok with ⟨found, rfl⟩ | ⟨found, _, _, rfl⟩
  · have known := (valid.contractKeys.lookup_isSome_iff _).mp ⟨id, found⟩
    rw [pushKey, if_pos known]
  · have fresh := (valid.contractKeys.lookup_eq_none_iff _).mp found
    rw [pushKey, if_neg fresh]
    simp [updateTotals, Contract.key]

theorem ensureContract_ok_iff (valid : Valid store) :
    (∃ result, store.ensureContract chainId address = .ok result) ↔
      (pushKey (store.contracts.map Contract.key) (chainId, address)).length ≤
        contractIdCapacity := by
  rw [filter_pushed _ (by simpa using valid.contractCapacity),
    ← valid.contractKeys.lookup_isSome_iff, length_map]
  unfold ensureContract
  cases found : store.contractIndex (chainId, address) with
  | some id => simp
  | none =>
      simp only [reduceCtorEq, exists_false, false_or]
      exact tryFrom_bind_ok_iff _

/-- Adding a key and adding its name go together when names identify keys. -/
private theorem map_pushKey {Key Name : Type} [DecidableEq Key] [DecidableEq Name]
    {keys : List Key} {key : Key} {nameOf : Key → Name}
    (injective : ∀ other ∈ keys, nameOf other = nameOf key → other = key) :
    (pushKey keys key).map nameOf = pushKey (keys.map nameOf) (nameOf key) := by
  by_cases known : key ∈ keys
  · rw [pushKey, pushKey, if_pos known, if_pos (mem_map.mpr ⟨key, known, rfl⟩)]
  · have nameFresh : nameOf key ∉ keys.map nameOf := by
      intro member
      rcases mem_map.mp member with ⟨other, inside, equal⟩
      exact known (injective other inside equal ▸ inside)
    rw [pushKey, pushKey, if_neg known, if_neg nameFresh]
    simp

private theorem contractNames_pushed (address : Text) (valid : Valid store)
    (chainAt : store.chains[chainId]? = some chain) :
    (pushKey (store.contracts.map Contract.key) (chainId, address)).map
        (fun key => (store.chains[key.1]?.getD [], key.2)) =
      pushKey (store.contracts.map store.contractName) (chain, address) := by
  have named : ((store.chains[chainId]?.getD [], address) : ContractName) =
      (chain, address) := by rw [chainAt, Option.getD_some]
  rw [map_pushKey, ← contractNames_eq, named]
  intro other member equal
  rcases mem_map.mp member with ⟨contract, inside, keyEqual⟩
  have otherAt := List.getElem?_eq_getElem (valid.contractChains contract inside)
  rw [← keyEqual] at equal ⊢
  simp only [Contract.key, otherAt, chainAt, Option.getD_some, Prod.mk.injEq] at equal
  rw [equal.1] at otherAt
  exact Prod.ext (valid.chainKeys.position_unique otherAt chainAt) equal.2

theorem ensureContract_simulates (valid : Valid store) (within : Within strings store)
    (chainAt : store.chains[chainId]? = some chain) :
    Simulates
      (fun result table => Represents strings result.2 table ∧
        Extends store result.2 ∧
        (result.2.contracts.map Contract.key)[result.1]? = some (chainId, address))
      (store.ensureContract chainId address)
      ((some (store.table.addContract (chain, address))).filter fits) := by
  have names := contractNames_pushed address valid chainAt
  apply simulates_filter
  · rw [ensureContract_ok_iff valid, fits_iff]
    have nfts : store.table.nfts.length ≤ nftIdCapacity := by
      simpa [table] using valid.nftCapacity
    have chains : store.table.chains.length ≤ chainIdCapacity := valid.chainCapacity
    have sameLength := congrArg List.length names
    rw [length_map] at sameLength
    rw [sameLength]
    simp only [Table.addContract, chains, nfts, and_true, true_and]
    rfl
  · rintro ⟨id, next⟩ ok
    have inside := (List.getElem?_eq_some_iff.mp chainAt).1
    rcases ensureContract_spec valid inside ok with ⟨nextValid, extension, found, frame⟩
    have sameStrings : next.strings = store.strings := by rw [frame]
    have sameChains : next.chains = store.chains := by rw [frame]
    have sameNfts : next.nfts = store.nfts := by rw [frame]
    refine ⟨⟨nextValid, ⟨sameStrings ▸ within.known, within.capacity⟩, ?_⟩,
      extension, found⟩
    rw [table, nftEntries_of_extends valid extension sameNfts, contractNames_eq,
      ensureContract_keys valid ok, sameChains, names]
    rfl

/-! ## NFTs -/

/-- An NFT key that is not indexed has a name that is not in the table. -/
theorem nftName_fresh {nft : Nft} (valid : Valid store) (fresh : store.nftIndex nft.key = none)
    (contract : nft.contractId < store.contracts.length) :
    store.nftName nft ∉ store.table.nfts.map Prod.fst := by
  intro member
  simp only [table, map_map] at member
  rcases mem_map.mp member with ⟨other, inside, equal⟩
  have otherInside := valid.nftContracts other inside
  have otherLt : other.contractId < (store.contracts.map store.contractName).length := by
    simpa using otherInside
  have nftLt : nft.contractId < (store.contracts.map store.contractName).length := by
    simpa using contract
  simp only [Function.comp_apply, nftEntry, nftName, List.getElem?_eq_getElem otherLt,
    List.getElem?_eq_getElem nftLt, Option.getD_some, Prod.mk.injEq] at equal
  have sameContract := (contractNames_nodup valid).getElem_inj_iff.mp equal.1
  have sameKey : other.key = nft.key := Prod.ext sameContract equal.2
  have notMember := (valid.nftKeys.lookup_eq_none_iff _).mp fresh
  exact notMember (sameKey ▸ mem_map.mpr ⟨other, inside, rfl⟩)

/-- Appending a new NFT to the store appends its entry to the table. -/
theorem insertNft_simulates (nft : Nft) (valid : Valid store) (within : Within strings store)
    (fresh : store.nftIndex nft.key = none)
    (onChain : (store.contracts.map Contract.chainId)[nft.contractId]? = some chainId)
    (name : InStrings store nft.nameId) (tokenUri : InStrings store nft.tokenUriId)
    (imageUri : InStrings store nft.imageUriId) :
    Simulates (Represents strings) (store.insertNft chainId nft)
      ((store.table.addNft (store.nftEntry nft)).filter fits) := by
  have contract : nft.contractId < store.contracts.length := by
    simpa using (List.getElem?_eq_some_iff.mp onChain).1
  have added : store.table.addNft (store.nftEntry nft) =
      some { store.table with nfts := store.table.nfts ++ [store.nftEntry nft] } := by
    rw [Table.addNft, absorb_fresh (nftName_fresh valid fresh contract)]
    rfl
  rw [added]
  apply simulates_filter
  · have chains : store.table.chains.length ≤ chainIdCapacity := valid.chainCapacity
    have contracts : store.table.contracts.length ≤ contractIdCapacity := by
      simpa [table] using valid.contractCapacity
    have grown : store.table.nfts.length = store.nfts.length := by simp [table]
    rw [fits_iff]
    simp only [chains, contracts, true_and, length_append, length_singleton,
      grown]
    constructor
    · rintro ⟨next, ok⟩
      rcases bind_eq_ok ok with ⟨issued, issuedOk, _⟩
      exact (tryFrom_inversion issuedOk).2
    · intro inside
      have found := List.getElem?_eq_getElem contract
      simp only [insertNft, tryFrom_eq_ok (Nat.lt_of_succ_le inside), ok_bind,
        updateContract, indexed_eq_ok found]
      exact ⟨_, rfl⟩
  · intro next ok
    rcases insertNft_spec nft valid fresh onChain name tokenUri imageUri ok with
      ⟨nextValid, extension, frame⟩
    have sameStrings : next.strings = store.strings := by rw [frame]
    have sameChains : next.chains = store.chains := by rw [frame]
    have nfts : next.nfts = store.nfts ++ [{ nft with id := store.nfts.length }] := by
      rw [frame]
    have sameKeys : next.contracts.map Contract.key =
        store.contracts.map Contract.key := by
      rcases bind_eq_ok ok with ⟨issued, _, rest⟩
      rcases bind_eq_ok rest with ⟨counted, countedOk, last⟩
      rcases updateContract_inversion countedOk with ⟨before, found, equal⟩
      cases last
      subst equal
      exact map_set_of_eq Contract.key found rfl
    refine ⟨nextValid, ⟨sameStrings ▸ within.known, within.capacity⟩, ?_⟩
    have oldEntries : store.nfts.map next.nftEntry = store.nfts.map store.nftEntry := by
      apply map_congr_left
      intro other member
      exact nftEntry_of_extends other valid extension (valid.nftContracts other member)
        (valid.nftNames other member) (valid.nftTokenUris other member)
        (valid.nftImageUris other member)
    have newEntry : next.nftEntry { nft with id := store.nfts.length } =
        store.nftEntry nft :=
      nftEntry_of_extends { nft with id := store.nfts.length } valid extension contract
        name tokenUri imageUri
    rw [table, sameChains, contractNames_of_extends valid extension sameKeys, nfts,
      map_append, oldEntries, map_singleton, newEntry]
    rfl

/-- The place of a named contract in a store. -/
structure ContractAt (store : EntityStore) (contractId chainId : Nat)
    (name : ContractName) : Prop where
  chain : store.chains[chainId]? = some name.1
  key : (store.contracts.map Contract.key)[contractId]? = some (chainId, name.2)

namespace ContractAt

variable {store next : EntityStore} {contractId chainId : Nat} {name : ContractName}

section

variable (at_ : ContractAt store contractId chainId name)
include at_

theorem extend (extension : Extends store next) : ContractAt next contractId chainId name :=
  ⟨extension.chain at_.chain, extension.contract at_.key⟩

theorem named :
    (store.contracts.map store.contractName)[contractId]? = some name :=
  contractName_at at_.chain at_.key

theorem onChain :
    (store.contracts.map Contract.chainId)[contractId]? = some chainId := by
  have key := at_.key
  rw [List.getElem?_map] at key ⊢
  rcases Option.map_eq_some_iff.mp key with ⟨contract, found, equal⟩
  rw [found]
  exact congrArg some (congrArg Prod.fst equal)

theorem inside :
    contractId < store.contracts.length := by
  simpa using (List.getElem?_eq_some_iff.mp at_.key).1

end

end ContractAt

variable {contractId : Nat} {row : InputRow}

/-- The NFT part of a row. -/
theorem ingestNft_simulates (valid : Valid store) (within : Within strings store)
    (contractAt : ContractAt store contractId chainId row.contractName)
    (known : ValueWithin strings row.nftValue) :
    Simulates (Represents strings) (store.ingestNft chainId contractId row)
      ((store.table.addNft row.nftEntry).filter fits) := by
  unfold ingestNft
  cases indexedAt : store.nftIndex (contractId, row.tokenId) with
  | some nftId =>
      have keyAt := valid.nftKeys.get_of_lookup indexedAt
      rw [List.getElem?_map] at keyAt
      rcases Option.map_eq_some_iff.mp keyAt with ⟨nft, found, keyEqual⟩
      have sameContract : nft.contractId = contractId := congrArg Prod.fst keyEqual
      have sameToken : nft.tokenId = row.tokenId := congrArg Prod.snd keyEqual
      have sameName : store.nftName nft = row.nftEntry.1 := by
        simp only [nftName, sameContract, sameToken, contractAt.named, Option.getD_some]
        rfl
      exact (mergeDuplicateNft_simulates valid within found sameName known).filter
        fun _ _ represents => represents.fits
  | none =>
      rcases known_of_valueWithin known with ⟨nameKnown, tokenKnown, imageKnown⟩
      rcases internUnless_interned valid within tokenKnown with
        ⟨tokenUriId, tokenStore, tokenOk, token⟩
      rcases internUnless_interned token.only.valid token.within imageKnown with
        ⟨imageUriId, imageStore, imageOk, image⟩
      have untilImage := token.only.trans image.only
      rcases internUnless_interned untilImage.valid image.within nameKnown with
        ⟨nameId, nameStore, nameOk, name⟩
      have untilName := untilImage.trans name.only
      simp only [tokenOk, imageOk, nameOk, ok_bind]
      have fresh : nameStore.nftIndex (contractId, row.tokenId) = none := by
        rw [untilName.nftIndex]
        exact indexedAt
      have contractLast := contractAt.extend untilName.extension
      have tokenImage := token.inside.mono image.only.extension
      have tokenLast := tokenImage.mono name.only.extension
      have imageLast := image.inside.mono name.only.extension
      have inserted := insertNft_simulates
        ⟨0, contractId, row.tokenId, nameId, tokenUriId, imageUriId, row.sourceOrder⟩
        untilName.valid name.within fresh contractLast.onChain name.inside tokenLast
        imageLast
      have tokenReads : nameStore.text tokenUriId = row.nftValue.tokenUri := by
        rw [text_of_extends name.only.extension tokenImage,
          text_of_extends image.only.extension token.inside]
        exact token.reads
      have imageReads : nameStore.text imageUriId = row.nftValue.imageUri := by
        rw [text_of_extends name.only.extension image.inside]
        exact image.reads
      have entry : nameStore.nftEntry ⟨0, contractId, row.tokenId, nameId, tokenUriId,
          imageUriId, row.sourceOrder⟩ = row.nftEntry := by
        simp only [nftEntry, nftName, nftValue, contractLast.named, Option.getD_some,
          name.reads, tokenReads, imageReads]
        rfl
      rw [entry, untilName.table valid] at inserted
      exact inserted

/-- What an operation on metadata alone leaves. -/
structure OnlyMetadata (store next : EntityStore) : Prop where
  valid : Valid next
  extension : Extends store next
  chains : next.chains = store.chains
  strings : next.strings = store.strings
  nfts : next.nfts = store.nfts
  keys : next.contracts.map Contract.key = store.contracts.map Contract.key

namespace OnlyMetadata

variable {strings : Finset Text} {store middle next : EntityStore}

theorem refl (valid : Valid store) : OnlyMetadata store store :=
  ⟨valid, .refl store, rfl, rfl, rfl, rfl⟩

theorem trans (first : OnlyMetadata store middle) (second : OnlyMetadata middle next) :
    OnlyMetadata store next :=
  ⟨second.valid, first.extension.trans second.extension,
    second.chains.trans first.chains, second.strings.trans first.strings,
    second.nfts.trans first.nfts, second.keys.trans first.keys⟩

theorem table (valid : Valid store) (only : OnlyMetadata store next) :
    next.table = store.table :=
  table_of_extends valid only.extension only.chains only.keys only.nfts

theorem within (only : OnlyMetadata store next) (within : Within strings store) :
    Within strings next :=
  ⟨only.strings ▸ within.known, within.capacity⟩

end OnlyMetadata

variable {name : ContractName}

theorem insertMetadataAnchor_only (record : MetadataRecord) (valid : Valid store)
    (contractAt : ContractAt store contractId chainId name)
    (chainAt : store.chains[chainId]? = some chain) :
    ∃ next, store.insertMetadataAnchor contractId chain record = .ok next ∧
      OnlyMetadata store next := by
  have known : ∃ contract, store.contracts[contractId]? = some contract :=
    ⟨_, List.getElem?_eq_getElem contractAt.inside⟩
  rcases known with ⟨contract, found⟩
  have changed : ∀ change : Contract → Contract, (∀ contract : Contract,
      (change contract).key = contract.key) →
      ∃ next, store.updateContract contractId change = .ok next ∧
        next.contracts.map Contract.key = store.contracts.map Contract.key := by
    intro change sameKey
    refine ⟨{ store with contracts := store.contracts.set contractId (change contract) },
      ?_, map_set_of_eq Contract.key found (sameKey contract)⟩
    simp only [updateContract, indexed_eq_ok found, ok_bind]
  have succeeds : ∃ next,
      store.insertMetadataAnchor contractId chain record = .ok next ∧
        next.contracts.map Contract.key = store.contracts.map Contract.key := by
    unfold insertMetadataAnchor
    split
    · exact ⟨store, rfl, rfl⟩
    split
    · exact changed _ fun _ => rfl
    · exact changed _ fun _ => rfl
  rcases succeeds with ⟨next, ok, keys⟩
  rcases insertMetadataAnchor_spec valid chainAt contractAt.key ok with
    ⟨nextValid, extension, frame⟩
  refine ⟨next, ok, nextValid, extension, ?_, ?_, ?_, keys⟩
  · rw [frame]
  · rw [frame]
  · rw [frame]

theorem ingestMetadata_only (canonicalizeJsonStrict : Canonicalizer) (valid : Valid store)
    (contractAt : ContractAt store contractId chainId row.contractName) :
    ∃ next, store.ingestMetadata canonicalizeJsonStrict contractId row = .ok next ∧
      OnlyMetadata store next := by
  unfold ingestMetadata
  cases validatedMetadata canonicalizeJsonStrict row.metadataJson with
  | none => exact ⟨store, rfl, .refl valid⟩
  | some canonicalJson =>
      exact insertMetadataAnchor_only _ valid contractAt contractAt.chain

theorem insertRecords_only (records : List MetadataRecord) :
    ∀ {store : EntityStore}, Valid store → ContractAt store contractId chainId name →
      ∃ next, records.foldlM
        (fun store record => store.insertMetadataAnchor contractId name.1 record) store =
          .ok next ∧ OnlyMetadata store next := by
  induction records with
  | nil =>
      intro store valid _
      exact ⟨store, rfl, .refl valid⟩
  | cons record records induction =>
      intro store valid contractAt
      rcases insertMetadataAnchor_only record valid contractAt contractAt.chain with
        ⟨middle, middleOk, middleOnly⟩
      rcases induction middleOnly.valid (contractAt.extend middleOnly.extension) with
        ⟨next, nextOk, nextOnly⟩
      refine ⟨next, ?_, middleOnly.trans nextOnly⟩
      rw [foldlM_cons, middleOk]
      exact nextOk

/-- Adding a row checks the identifier types one after the other. -/
theorem addRow_steps {table : Table} (loaded : row.isSkipped = false) :
    (table.addRow row).filter fits =
      ((some (table.addChain row.chain)).filter fits).bind fun chained =>
        ((some (chained.addContract row.contractName)).filter fits).bind
          fun contracted => (contracted.addNft row.nftEntry).filter fits := by
  rw [addRow, loaded]
  simp only [Bool.false_eq_true, if_false, Option.filter_some]
  have lost : ∀ middle : Table, middle.fits = false →
      (middle.addNft row.nftEntry).filter fits = none := by
    intro middle bad
    cases added : middle.addNft row.nftEntry with
    | none => rfl
    | some next =>
        rw [Option.filter_some, if_neg]
        intro good
        rw [Table.addNft_shrinks added good] at bad
        cases bad
  cases chained : (table.addChain row.chain).fits with
  | true =>
      simp only [if_true, Option.bind_some]
      cases contracted :
          ((table.addChain row.chain).addContract row.contractName).fits with
      | true => simp
      | false =>
          rw [lost _ contracted]
          rfl
  | false =>
      have contracted :
          ((table.addChain row.chain).addContract row.contractName).fits = false := by
        by_contra good
        rw [Bool.not_eq_false] at good
        rw [Table.addContract_shrinks good] at chained
        cases chained
      rw [lost _ contracted]
      rfl

/-- Loading a row is adding it to the table. -/
theorem tryIngestRow_simulates {canonicalizeJsonStrict : Canonicalizer} {table : Table}
    (represents : Represents strings store table)
    (known : row.isSkipped = false → ValueWithin strings row.nftValue) :
    Simulates (Represents strings) (store.tryIngestRow canonicalizeJsonStrict row)
      ((table.addRow row).filter fits) := by
  unfold tryIngestRow
  cases skipped : row.isSkipped with
  | true =>
      simp only [if_true]
      have same : table.addRow row = some table := by
        rw [addRow, skipped]
        rfl
      rw [same, Option.filter_some, if_pos represents.fits]
      exact represents
  | false =>
      simp only [Bool.false_eq_true, if_false]
      rw [addRow_steps skipped, ← represents.reads]
      refine (ensureChain_simulates represents.valid represents.within).bind ?_
      rintro ⟨chainId, chained⟩ chainTable _ _ ⟨chainRepresents, _, chainAt⟩
      rw [← chainRepresents.reads]
      refine (ensureContract_simulates chainRepresents.valid chainRepresents.within
        chainAt).bind ?_
      rintro ⟨contractId, contracted⟩ contractTable _ _
        ⟨contractRepresents, contractExtends, keyAt⟩
      have contractAt : ContractAt contracted contractId chainId row.contractName :=
        ⟨contractExtends.chain chainAt, keyAt⟩
      rcases ingestMetadata_only canonicalizeJsonStrict contractRepresents.valid
        contractAt with
        ⟨described, metadataOk, metadataOnly⟩
      simp only [metadataOk, ok_bind]
      rw [← contractRepresents.reads,
        ← metadataOnly.table contractRepresents.valid]
      exact ingestNft_simulates metadataOnly.valid
        (metadataOnly.within contractRepresents.within)
        (contractAt.extend metadataOnly.extension) (known skipped)

end NftData.Dedup.EntityStore
