import NftData.Dedup.Entity.Loading

namespace NftData.Dedup

open Option
open NftValue (combine)

/-! # Merging a shard

`merge_shard` renumbers the chains, strings and contracts of a loaded shard and
then adds its NFTs one by one: it adds the shard's table. -/

open List

variable {table : Table}

namespace Table

def addChainChecked (table : Table) (chain : Text) : Option Table :=
  (some (table.addChain chain)).filter fits

def addContractChecked (table : Table) (contract : ContractName) : Option Table :=
  (some (table.addContract contract)).filter fits

def addNftChecked (table : Table) (entry : NftName × NftValue) : Option Table :=
  (table.addNft entry).filter fits

section

variable (tableFits : table.fits = true)
include tableFits

theorem addChains_eq (chains : List Text) :
    chains.foldlM addChainChecked table =
      (some { table with chains := pushKeys table.chains chains }).filter fits := by
  have checked := foldlM_filter fits (fun table chain => some (addChain table chain))
    (fun table chain next ok nextFits => by
      cases ok
      exact addChain_shrinks nextFits) chains table tableFits
  have unchecked : ∀ (chains : List Text) (table : Table),
      chains.foldlM (fun table chain => some (addChain table chain)) table =
        some { table with chains := pushKeys table.chains chains } := by
    intro chains
    induction chains with
    | nil => exact fun _ => rfl
    | cons chain chains induction => exact fun table => induction (table.addChain chain)
  rw [unchecked] at checked
  exact checked

theorem addContracts_eq (contracts : List ContractName) :
    contracts.foldlM addContractChecked table =
      (some { table with contracts := pushKeys table.contracts contracts }).filter
        fits := by
  have checked := foldlM_filter fits
    (fun table contract => some (addContract table contract))
    (fun table contract next ok nextFits => by
      cases ok
      exact addContract_shrinks nextFits) contracts table tableFits
  have unchecked : ∀ (contracts : List ContractName) (table : Table),
      contracts.foldlM (fun table contract => some (addContract table contract)) table =
        some { table with contracts := pushKeys table.contracts contracts } := by
    intro contracts
    induction contracts with
    | nil => exact fun _ => rfl
    | cons contract contracts induction =>
        exact fun table => induction (table.addContract contract)
  rw [unchecked] at checked
  exact checked

theorem addNfts_eq (entries : List (NftName × NftValue)) :
    entries.foldlM addNftChecked table =
      ((absorbAll combine table.nfts entries).map fun nfts =>
        { table with nfts := nfts }).filter fits := by
  have checked := foldlM_filter fits addNft
    (fun table entry next ok nextFits => addNft_shrinks ok nextFits)
    entries table tableFits
  have unchecked : ∀ (entries : List (NftName × NftValue)) (table : Table),
      entries.foldlM addNft table =
        (absorbAll combine table.nfts entries).map fun nfts =>
          { table with nfts := nfts } := by
    intro entries
    induction entries with
    | nil => exact fun _ => rfl
    | cons entry entries induction =>
        intro table
        rw [foldlM_cons, absorbAll_cons, addNft]
        cases absorb combine table.nfts entry with
        | none => rfl
        | some nfts => exact induction { table with nfts := nfts }
  rw [unchecked] at checked
  exact checked

/-- Adding a table checks the identifier types key by key. -/
theorem addTable_steps (part : Table) :
    (table.addTable part).filter fits =
      (part.chains.foldlM addChainChecked table).bind fun chained =>
        (part.contracts.foldlM addContractChecked chained).bind fun contracted =>
          part.nfts.foldlM addNftChecked contracted := by
  rw [addChains_eq tableFits, filter_some]
  have lost : ∀ middle : Table, middle.fits = false →
      ((absorbAll combine middle.nfts part.nfts).map fun nfts =>
        { middle with nfts := nfts }).filter fits = none := by
    intro middle bad
    cases absorbed : absorbAll combine middle.nfts part.nfts with
    | none => rfl
    | some nfts =>
        rw [map_some, filter_some, if_neg]
        intro good
        have keys := congrArg List.length (keys_absorbAll absorbed)
        have grown := length_le_pushKeys (middle.nfts.map Prod.fst)
          (part.nfts.map Prod.fst)
        rw [length_map] at keys grown
        rw [fits_iff] at good
        have : middle.fits = true := by
          rw [fits_iff]
          refine ⟨good.1, good.2.1, ?_⟩
          have := good.2.2
          simp only at this
          omega
        rw [this] at bad
        cases bad
  let chained : Table := { table with chains := pushKeys table.chains part.chains }
  let contracted : Table :=
    { chained with contracts := pushKeys table.contracts part.contracts }
  change ((absorbAll combine contracted.nfts part.nfts).map fun nfts =>
    { contracted with nfts := nfts }).filter fits = _
  rcases Bool.eq_false_or_eq_true chained.fits with chainedFits | chainedBad
  · have outer : ({ table with chains := pushKeys table.chains part.chains } :
        Table).fits = true := chainedFits
    rw [if_pos outer, bind_some, addContracts_eq outer, filter_some]
    rcases Bool.eq_false_or_eq_true contracted.fits with contractedFits | contractedBad
    · have inner : ({ chained with
          contracts := pushKeys chained.contracts part.contracts } : Table).fits =
          true := contractedFits
      rw [if_pos inner, bind_some, addNfts_eq inner]
    · rw [lost contracted contractedBad, if_neg (Bool.eq_false_iff.mp contractedBad)]
      rfl
  · have contractedBad : contracted.fits = false := by
      by_contra good
      rw [Bool.not_eq_false, fits_iff] at good
      have grown := length_le_pushKeys table.contracts part.contracts
      have : chained.fits = true := by
        rw [fits_iff]
        exact ⟨good.1, grown.trans good.2.1, good.2.2⟩
      rw [this] at chainedBad
      cases chainedBad
    rw [lost contracted contractedBad, if_neg (Bool.eq_false_iff.mp chainedBad)]
    rfl

end

end Table

namespace EntityStore

variable {strings : Finset Text}

theorem mapChains_simulates (chains : List Text) :
    ∀ {store : EntityStore} {table : Table}, Represents strings store table →
      Simulates (fun result table => Represents strings result.2 table)
        (mapKeys ensureChain store chains)
        (chains.foldlM Table.addChainChecked table) := by
  induction chains with
  | nil =>
      intro store table represents
      exact represents
  | cons chain chains induction =>
      intro store table represents
      rw [foldlM_cons, ← represents.reads]
      refine (ensureChain_simulates represents.valid represents.within).bind ?_
      rintro ⟨id, middle⟩ middleTable _ _ ⟨middleRepresents, _, _⟩
      refine (induction middleRepresents).thenOk ?_
      rintro ⟨ids, next⟩ nextTable _ nextRepresents
      exact ⟨_, rfl, nextRepresents⟩

theorem mapStrings_ok (values : List Text) :
    ∀ {store : EntityStore}, Valid store → Within strings store →
      (∀ value ∈ values, value ∈ strings) →
      ∃ ids next, mapKeys internString store values = .ok (ids, next) ∧
        OnlyStrings store next ∧ Within strings next := by
  induction values with
  | nil =>
      intro store valid within _
      exact ⟨[], store, rfl, .refl valid, within⟩
  | cons value values induction =>
      intro store valid within known
      rcases internString_interned valid within (known value (by simp)) with
        ⟨id, middle, ok, interned⟩
      rcases induction interned.only.valid interned.within
        (fun other member => known other (mem_cons_of_mem _ member)) with
        ⟨ids, next, restOk, only, nextWithin⟩
      refine ⟨id :: ids, next, ?_, interned.only.trans only, nextWithin⟩
      simp only [mapKeys, ok, ok_bind, restOk]

/-- The first contracts of the shard have found their place in the store. -/
structure ContractsMapped (shard store : EntityStore) (count : Nat)
    (contractMap : List Nat) : Prop where
  length : contractMap.length = shard.contracts.length
  mapped : ∀ position name, position < count →
    (shard.contracts.map shard.contractName)[position]? = some name →
    ∃ contractId chainId, contractMap[position]? = some contractId ∧
      ContractAt store contractId chainId name

variable {store shard : EntityStore} {contractMap : List Nat}

theorem ContractsMapped.extend {next : EntityStore} {count : Nat}
    (mapped : ContractsMapped shard store count contractMap) (extension : Extends store next) :
    ContractsMapped shard next count contractMap := by
  refine ⟨mapped.length, ?_⟩
  intro position name before found
  rcases mapped.mapped position name before found with
    ⟨contractId, chainId, mapAt, contractAt⟩
  exact ⟨contractId, chainId, mapAt, contractAt.extend extension⟩

variable {chainMap : List Nat}

/-- Merging the next contract of the shard. -/
theorem mergeContract_simulates {position : Nat} {contract : Contract} (shardValid : Valid shard)
    (represents : Represents strings store table)
    (chains : List.Forall₂ (fun chain id => store.chains[id]? = some chain)
      shard.chains chainMap) (mapped : ContractsMapped shard store position contractMap)
    (found : shard.contracts[position]? = some contract) :
    Simulates
      (fun result table => Represents strings result.2 table ∧
        Extends store result.2 ∧
        ContractsMapped shard result.2 (position + 1) result.1)
      (mergeContract chainMap (contractMap, store) contract)
      (table.addContractChecked (shard.contractName contract)) := by
  have member := mem_of_getElem? found
  have shardChain : ∃ chain, shard.chains[contract.chainId]? = some chain :=
    ⟨_, List.getElem?_eq_getElem (shardValid.contractChains contract member)⟩
  rcases shardChain with ⟨chain, shardChainAt⟩
  have mappedChain : ∃ chainId, chainMap[contract.chainId]? = some chainId ∧
      store.chains[chainId]? = some chain := by
    rcases List.getElem?_eq_some_iff.mp shardChainAt with ⟨inside, equal⟩
    have mapInside : contract.chainId < chainMap.length := chains.length_eq ▸ inside
    have related := (forall₂_iff_get.mp chains).2 contract.chainId inside mapInside
    refine ⟨chainMap[contract.chainId], List.getElem?_eq_getElem mapInside, ?_⟩
    rw [← equal]
    exact related
  rcases mappedChain with ⟨chainId, mapAt, chainAt⟩
  have name : shard.contractName contract = (chain, contract.address) := by
    rw [contractName, shardChainAt, getD_some]
  simp only [mergeContract, indexed_eq_ok mapAt, ok_bind]
  rw [Table.addContractChecked, name, ← represents.reads]
  refine (ensureContract_simulates represents.valid represents.within chainAt).thenOk ?_
  rintro ⟨contractId, contracted⟩ contractTable _
    ⟨contractRepresents, contractExtends, keyAt⟩
  have contractAt : ContractAt contracted contractId chainId (chain, contract.address) :=
    ⟨contractExtends.chain chainAt, keyAt⟩
  have idEqual : contract.id = position := shardValid.contractIds position contract found
  have inside : contract.id < contractMap.length := by
    rw [idEqual, mapped.length]
    exact (List.getElem?_eq_some_iff.mp found).1
  rcases insertRecords_only contract.metadataByToken contractRepresents.valid contractAt
    with ⟨described, recordsOk, only⟩
  simp only [assign, if_pos inside, ok_bind, indexed_eq_ok contractAt.chain, recordsOk]
  have untilDescribed := contractExtends.trans only.extension
  refine ⟨_, rfl, ⟨only.valid, only.within contractRepresents.within, ?_⟩,
    untilDescribed, ?_, ?_⟩
  · rw [only.table contractRepresents.valid]
    exact contractRepresents.reads
  · rw [length_set]
    exact mapped.length
  · intro other otherName before otherAt
    rcases Nat.lt_or_eq_of_le (Nat.le_of_lt_succ before) with earlier | equal
    · rcases mapped.mapped other otherName earlier otherAt with
        ⟨otherId, otherChain, otherMap, otherContract⟩
      refine ⟨otherId, otherChain, ?_, otherContract.extend untilDescribed⟩
      rw [List.getElem?_set_ne (by omega)]
      exact otherMap
    · subst equal
      have : otherName = (chain, contract.address) := by
        rw [List.getElem?_map, found, map_some, name] at otherAt
        exact (Option.some.inj otherAt).symm
      subst this
      refine ⟨contractId, chainId, ?_, contractAt.extend only.extension⟩
      rw [idEqual, List.getElem?_set_self]
      omega

theorem mergeContracts_simulates (shardValid : Valid shard) :
    ∀ (rest : List Contract) (position : Nat) {store : EntityStore} {table : Table}
      {contractMap : List Nat},
      shard.contracts.drop position = rest → position + rest.length =
        shard.contracts.length →
      Represents strings store table →
      List.Forall₂ (fun chain id => store.chains[id]? = some chain)
        shard.chains chainMap →
      ContractsMapped shard store position contractMap →
      Simulates
        (fun result table => Represents strings result.2 table ∧
          Extends store result.2 ∧
          ContractsMapped shard result.2 shard.contracts.length result.1)
        (rest.foldlM (mergeContract chainMap) (contractMap, store))
        ((rest.map shard.contractName).foldlM Table.addContractChecked table) := by
  intro rest
  induction rest with
  | nil =>
      intro position store table contractMap _ atEnd represents _ mapped
      have : position = shard.contracts.length := by simpa using atEnd
      subst this
      exact ⟨represents, .refl store, mapped⟩
  | cons contract rest induction =>
      intro position store table contractMap suffix lengths represents chains mapped
      have found : shard.contracts[position]? = some contract := by
        have head := congrArg List.head? suffix
        simpa using head
      have tail : shard.contracts.drop (position + 1) = rest := by
        rw [← tail_drop, suffix, tail_cons]
      have tailLength : position + 1 + rest.length = shard.contracts.length := by
        simp only [length_cons] at lengths
        omega
      rw [map_cons, foldlM_cons, foldlM_cons]
      refine (mergeContract_simulates shardValid represents chains mapped found).bind ?_
      rintro ⟨nextMap, next⟩ nextTable _ _ ⟨nextRepresents, extension, nextMapped⟩
      have nextChains := chains.imp fun _ _ chainAt => extension.chain chainAt
      refine (induction (position + 1) tail tailLength nextRepresents nextChains
        nextMapped).weaken ?_
      rintro ⟨lastMap, last⟩ lastTable _ ⟨lastRepresents, lastExtends, lastMapped⟩
      exact ⟨lastRepresents, extension.trans lastExtends, lastMapped⟩

/-! ## The NFTs of the shard -/

variable {stringMap : List Nat}

theorem remapString_reads {id : Option Nat} (inside : InStrings shard id)
    (mapped : List.Forall₂ (fun value id => store.strings[id]? = some value)
      shard.strings stringMap) :
    ∃ remapped, remapString stringMap id = .ok remapped ∧
      InStrings store remapped ∧ store.text remapped = shard.text id := by
  cases id with
  | none => exact ⟨none, rfl, .none store, rfl⟩
  | some id =>
      have shardInside := inside id rfl
      have mapInside : id < stringMap.length := mapped.length_eq ▸ shardInside
      have related := (forall₂_iff_get.mp mapped).2 id shardInside mapInside
      refine ⟨some stringMap[id], ?_, .some related, ?_⟩
      · simp only [remapString, indexed_eq_ok (List.getElem?_eq_getElem mapInside),
          ok_bind]
      · have shardAt := List.getElem?_eq_getElem shardInside
        exact related.trans shardAt.symm

variable {nft : Nft}

/-- An NFT of the shard reads the same once its identifiers are this store's. -/
theorem remapNft_reads (shardValid : Valid shard) (member : nft ∈ shard.nfts)
    (contracts : ContractsMapped shard store shard.contracts.length contractMap)
    (strings : List.Forall₂ (fun value id => store.strings[id]? = some value)
      shard.strings stringMap) :
    ∃ remapped chainId, remapNft contractMap stringMap nft = .ok remapped ∧
      (∃ name, ContractAt store remapped.contractId chainId name) ∧
      InStrings store remapped.nameId ∧ InStrings store remapped.tokenUriId ∧
      InStrings store remapped.imageUriId ∧
      store.nftEntry remapped = shard.nftEntry nft := by
  have contractInside := shardValid.nftContracts nft member
  have named : ∃ name,
      (shard.contracts.map shard.contractName)[nft.contractId]? = some name :=
    ⟨_, List.getElem?_eq_getElem (by simpa using contractInside)⟩
  rcases named with ⟨name, nameAt⟩
  rcases contracts.mapped nft.contractId name contractInside nameAt with
    ⟨contractId, chainId, mapAt, contractAt⟩
  rcases remapString_reads (shardValid.nftNames nft member) strings with
    ⟨nameId, nameOk, nameInside, nameReads⟩
  rcases remapString_reads (shardValid.nftTokenUris nft member) strings with
    ⟨tokenUriId, tokenOk, tokenInside, tokenReads⟩
  rcases remapString_reads (shardValid.nftImageUris nft member) strings with
    ⟨imageUriId, imageOk, imageInside, imageReads⟩
  let remapped : Nft := { nft with
    contractId := contractId, nameId := nameId
    tokenUriId := tokenUriId, imageUriId := imageUriId }
  refine ⟨remapped, chainId, ?_, ⟨name, contractAt⟩, nameInside, tokenInside,
    imageInside, ?_⟩
  · simp only [remapNft, indexed_eq_ok mapAt, nameOk, tokenOk, imageOk, ok_bind,
      remapped]
  · simp only [nftEntry, nftName, nftValue, contractAt.named, nameAt, getD_some,
      nameReads, tokenReads, imageReads, remapped]

/-- Two identifiers of one store are equal exactly when they read the same. -/
theorem mergeMappedUri_simulates {existing incoming : Option Nat} (field : Text) (contractId : Nat)
    (tokenId : Text) (valid : Valid store) (before : InStrings store existing)
    (added : InStrings store incoming) :
    Simulates (fun id value => InStrings store id ∧ store.text id = value)
      (mergeMappedUri existing incoming field contractId tokenId)
      (combineUri (store.text existing) (store.text incoming)) := by
  cases existing with
  | none => exact ⟨added, rfl⟩
  | some existing =>
      rcases found_of_inStrings before with ⟨first, firstAt⟩
      have firstReads : store.text (some existing) = some first := firstAt
      cases incoming with
      | none =>
          rw [firstReads]
          exact ⟨before, firstReads⟩
      | some incoming =>
          rcases found_of_inStrings added with ⟨second, secondAt⟩
          have secondReads : store.text (some incoming) = some second := secondAt
          have same : existing = incoming ↔ first = second := by
            constructor
            · intro equal
              rw [equal, secondAt] at firstAt
              exact (Option.some.inj firstAt).symm
            · intro equal
              rw [equal] at firstAt
              exact valid.stringKeys.position_unique firstAt secondAt
          simp only [mergeMappedUri, firstReads, secondReads, combineUri]
          by_cases equal : existing = incoming
          · rw [if_pos equal, if_pos (same.mp equal)]
            exact ⟨before, firstReads⟩
          · rw [if_neg equal, if_neg (fun texts => equal (same.mpr texts))]
            exact trivial

/-- An NFT of the shard that the store already has. -/
theorem mergeExistingNft_simulates {existingId : Nat} {existing : Nft} (valid : Valid store)
    (within : Within strings store) (found : store.nfts[existingId]? = some existing)
    (sameKey : existing.key = nft.key) (name : InStrings store nft.nameId)
    (tokenUri : InStrings store nft.tokenUriId) (imageUri : InStrings store nft.imageUriId) :
    Simulates (Represents strings) (store.mergeExistingNft existingId nft)
      (store.table.addNft (store.nftEntry nft)) := by
  have member := mem_of_getElem? found
  have sameName : store.nftName nft = store.nftName existing := by
    have sameContract : existing.contractId = nft.contractId :=
      congrArg Prod.fst sameKey
    have sameToken : existing.tokenId = nft.tokenId := congrArg Prod.snd sameKey
    simp only [nftName, sameContract, sameToken]
  rw [nftEntry, sameName, addNft_known valid found]
  simp only [mergeExistingNft, indexed_eq_ok found, ok_bind]
  refine (mergeMappedUri_simulates _ _ _ valid (valid.nftTokenUris existing member)
    tokenUri).bind ?_
  rintro tokenUriId tokenText _ _ ⟨tokenInside, tokenReads⟩
  refine (mergeMappedUri_simulates _ _ _ valid (valid.nftImageUris existing member)
    imageUri).bind ?_
  rintro imageUriId imageText _ _ ⟨imageInside, imageReads⟩
  have nameInside : InStrings store (existing.nameId.or nft.nameId) := by
    intro id isName
    rcases or_eq_some_iff.mp isName with old | ⟨_, new⟩
    · exact valid.nftNames existing member id old
    · exact name id new
  have nameReads : store.text (existing.nameId.or nft.nameId) =
      (store.text existing.nameId).or (store.nftValue nft).name := by
    cases existingName : existing.nameId with
    | none => rfl
    | some id =>
        have inside := valid.nftNames existing member
        rw [existingName] at inside
        rcases found_of_inStrings inside with ⟨value, valueAt⟩
        have reads : store.text (some id) = some value := valueAt
        rw [some_or, reads, some_or]
  refine ⟨valid.setNft found rfl rfl nameInside tokenInside imageInside,
    ⟨within.known, within.capacity⟩, ?_⟩
  refine Eq.trans (table_setNft existing _ (by rfl)) ?_
  simp only [nftValue, nameReads, tokenReads, imageReads]

theorem mergeRemappedNft_simulates {chainId : Nat} {name : ContractName} (valid : Valid store)
    (within : Within strings store) (contractAt : ContractAt store nft.contractId chainId name)
    (nameInside : InStrings store nft.nameId) (tokenUri : InStrings store nft.tokenUriId)
    (imageUri : InStrings store nft.imageUriId) :
    Simulates (Represents strings) (store.mergeRemappedNft nft)
      (store.table.addNftChecked (store.nftEntry nft)) := by
  unfold mergeRemappedNft Table.addNftChecked
  cases indexedAt : store.nftIndex nft.key with
  | some existingId =>
      have keyAt := valid.nftKeys.get_of_lookup indexedAt
      rw [List.getElem?_map] at keyAt
      rcases map_eq_some_iff.mp keyAt with ⟨existing, found, sameKey⟩
      exact (mergeExistingNft_simulates valid within found sameKey nameInside tokenUri
        imageUri).filter fun _ _ represents => represents.fits
  | none =>
      have onChain := contractAt.onChain
      rw [List.getElem?_map] at onChain
      rcases map_eq_some_iff.mp onChain with ⟨contract, found, sameChain⟩
      simp only [indexed_eq_ok found, ok_bind, sameChain]
      exact insertNft_simulates nft valid within indexedAt contractAt.onChain nameInside
        tokenUri imageUri

theorem mergeNfts_simulates {known : Finset Text} (shardValid : Valid shard) (nfts : List Nft)
    (members : ∀ nft ∈ nfts, nft ∈ shard.nfts) :
    ∀ {store : EntityStore} {table : Table}, Represents known store table →
      ContractsMapped shard store shard.contracts.length contractMap →
      List.Forall₂ (fun value id => store.strings[id]? = some value)
        shard.strings stringMap →
      Simulates (Represents known) (nfts.foldlM (mergeNft contractMap stringMap) store)
        ((nfts.map shard.nftEntry).foldlM Table.addNftChecked table) := by
  induction nfts with
  | nil =>
      intro store table represents _ _
      exact represents
  | cons nft nfts induction =>
      intro store table represents contracts strings
      rcases remapNft_reads shardValid (members nft (by simp)) contracts strings with
        ⟨remapped, chainId, remapOk, ⟨name, contractAt⟩, nameInside, tokenInside,
          imageInside, entry⟩
      rw [map_cons, foldlM_cons, foldlM_cons, ← represents.reads,
        ← entry]
      have step : store.mergeRemappedNft remapped =
          mergeNft contractMap stringMap store nft := by
        rw [mergeNft, remapOk, ok_bind]
      have simulates := mergeRemappedNft_simulates represents.valid represents.within
        contractAt nameInside tokenInside imageInside
      rw [step] at simulates
      refine simulates.bind ?_
      intro next nextTable stepOk _ nextRepresents
      have inStrings : ∀ id ∈ stringMap, id < store.strings.length :=
        inside_of_forall₂ strings
      have extension := (mergeNft_spec represents.valid inStrings stepOk).2.1
      exact induction (fun other member => members other (mem_cons_of_mem _ member))
        nextRepresents (contracts.extend extension)
        (strings.imp fun _ _ found => extension.string found)

/-- Merging a shard is adding its table. -/
theorem mergeShard_simulates {part : Table} (represents : Represents strings store table)
    (shardRepresents : Represents strings shard part) :
    Simulates (Represents strings) (store.mergeShard shard)
      ((table.addTable part).filter Table.fits) := by
  have shardValid := shardRepresents.valid
  rw [Table.addTable_steps represents.fits, ← shardRepresents.reads]
  unfold mergeShard
  refine (mapChains_simulates shard.chains represents).bind ?_
  rintro ⟨chainMap, chained⟩ chainTable chainsOk _ chainRepresents
  rcases mapChains_spec represents.valid chainsOk with ⟨chainValid, _, chainsAt⟩
  rcases mapStrings_ok shard.strings chainValid chainRepresents.within
    shardRepresents.within.known with
    ⟨stringMap, interned, stringsOk, only, internedWithin⟩
  rcases mapStrings_spec chainValid stringsOk with ⟨internedValid, _, stringsAt⟩
  simp only [stringsOk, ok_bind]
  have internedRepresents : Represents strings interned chainTable :=
    ⟨internedValid, internedWithin, (only.table chainValid).trans chainRepresents.reads⟩
  have mappedNone : ContractsMapped shard interned 0
      (List.replicate shard.contracts.length 0) :=
    ⟨length_replicate, fun _ _ before => absurd before (Nat.not_lt_zero _)⟩
  refine (mergeContracts_simulates shardValid shard.contracts 0 rfl (by simp)
    internedRepresents
    (chainsAt.imp fun _ _ chainAt => only.extension.chain chainAt) mappedNone).bind ?_
  rintro ⟨contractMap, contracted⟩ contractTable _ _
    ⟨contractRepresents, extension, contractsMapped⟩
  exact mergeNfts_simulates shardValid shard.nfts (fun _ member => member)
    contractRepresents contractsMapped
    (stringsAt.imp fun _ _ found => extension.string found)

end EntityStore

end NftData.Dedup
