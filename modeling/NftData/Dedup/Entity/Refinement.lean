import NftData.Dedup.Entity.Reachable
import NftData.Dedup.Entity.Table

namespace NftData.Dedup.EntityStore

/-! # The store refines the table

Reading the identifiers of a valid store back as texts gives a table, and every
operation of the store computes the corresponding operation of the table. The
strings a load can meet are collected in one finite set, whose size bounds the
string identifiers. -/

open List

def contractName (store : EntityStore) (contract : Contract) : ContractName :=
  (store.chains[contract.chainId]?.getD [], contract.address)

def text (store : EntityStore) (id : Option Nat) : Option Text :=
  id.bind fun id => store.strings[id]?

def nftName (store : EntityStore) (nft : Nft) : NftName :=
  ((store.contracts.map store.contractName)[nft.contractId]?.getD ([], []), nft.tokenId)

def nftValue (store : EntityStore) (nft : Nft) : NftValue :=
  ⟨store.text nft.nameId, store.text nft.tokenUriId, store.text nft.imageUriId,
    nft.sourceOrder⟩

def nftEntry (store : EntityStore) (nft : Nft) : NftName × NftValue :=
  (store.nftName nft, store.nftValue nft)

def table (store : EntityStore) : Table :=
  ⟨store.chains, store.contracts.map store.contractName, store.nfts.map store.nftEntry⟩

/-! ## What extending a store preserves -/

variable {store next : EntityStore} {id : Option Nat}

theorem text_of_extends (extension : Extends store next) (inside : InStrings store id) :
    next.text id = store.text id := by
  cases id with
  | none => rfl
  | some id =>
      have found := List.getElem?_eq_getElem (inside id rfl)
      exact (extension.string found).trans found.symm

theorem contractNames_eq (store : EntityStore) :
    store.contracts.map store.contractName =
      (store.contracts.map Contract.key).map fun key =>
        (store.chains[key.1]?.getD [], key.2) := by
  rw [map_map]
  rfl

theorem contractName_at {contractId chainId : Nat} {chain address : Text}
    (chainAt : store.chains[chainId]? = some chain)
    (contractAt : (store.contracts.map Contract.key)[contractId]? =
      some (chainId, address)) :
    (store.contracts.map store.contractName)[contractId]? = some (chain, address) := by
  rw [contractNames_eq, List.getElem?_map, contractAt]
  simp [chainAt]

/-- Names identify contracts as keys do. -/
theorem contractNames_nodup (valid : Valid store) :
    (store.contracts.map store.contractName).Nodup := by
  rw [contractNames_eq]
  apply List.Nodup.map_on _ valid.contractKeys.nodup
  intro left leftMember right rightMember equal
  rcases mem_map.mp leftMember with ⟨leftContract, leftInside, leftKey⟩
  rcases mem_map.mp rightMember with ⟨rightContract, rightInside, rightKey⟩
  have leftAt := List.getElem?_eq_getElem (valid.contractChains leftContract leftInside)
  have rightAt :=
    List.getElem?_eq_getElem (valid.contractChains rightContract rightInside)
  rw [← leftKey, ← rightKey] at equal ⊢
  simp only [Contract.key, leftAt, rightAt, Option.getD_some, Prod.mk.injEq] at equal
  rw [← equal.1] at rightAt
  have sameChain := valid.chainKeys.position_unique leftAt rightAt
  exact Prod.ext sameChain equal.2

theorem nftNames_nodup (valid : Valid store) :
    (store.nfts.map store.nftName).Nodup := by
  have names : store.nfts.map store.nftName =
      (store.nfts.map Nft.key).map fun key =>
        ((store.contracts.map store.contractName)[key.1]?.getD ([], []), key.2) := by
    rw [map_map]
    rfl
  rw [names]
  apply List.Nodup.map_on _ valid.nftKeys.nodup
  intro left leftMember right rightMember equal
  rcases mem_map.mp leftMember with ⟨leftNft, leftInside, leftKey⟩
  rcases mem_map.mp rightMember with ⟨rightNft, rightInside, rightKey⟩
  have leftLt : leftNft.contractId < (store.contracts.map store.contractName).length := by
    simpa using valid.nftContracts leftNft leftInside
  have rightLt :
      rightNft.contractId < (store.contracts.map store.contractName).length := by
    simpa using valid.nftContracts rightNft rightInside
  rw [← leftKey, ← rightKey] at equal ⊢
  simp only [Nft.key, List.getElem?_eq_getElem leftLt, List.getElem?_eq_getElem rightLt,
    Option.getD_some, Prod.mk.injEq] at equal
  have samePosition := (contractNames_nodup valid).getElem_inj_iff.mp equal.1
  exact Prod.ext samePosition equal.2

theorem table_nfts_nodup (valid : Valid store) :
    (store.table.nfts.map Prod.fst).Nodup := by
  have : store.table.nfts.map Prod.fst = store.nfts.map store.nftName := by
    simp only [table, map_map]
    rfl
  rw [this]
  exact nftNames_nodup valid

theorem nftEntry_of_extends (nft : Nft) (valid : Valid store) (extension : Extends store next)
    (contract : nft.contractId < store.contracts.length) (name : InStrings store nft.nameId)
    (tokenUri : InStrings store nft.tokenUriId) (imageUri : InStrings store nft.imageUriId) :
    next.nftEntry nft = store.nftEntry nft := by
  have found := List.getElem?_eq_getElem contract
  have keyAt : (store.contracts.map Contract.key)[nft.contractId]? =
      some (store.contracts[nft.contractId].key) := by
    rw [List.getElem?_map, found]
    rfl
  have chainInside := valid.contractChains _ (getElem_mem contract)
  have chainAt := List.getElem?_eq_getElem chainInside
  have before := contractName_at chainAt keyAt
  have after := contractName_at (extension.chain chainAt) (extension.contract keyAt)
  simp only [nftEntry, nftName, nftValue, before, after, text_of_extends extension name,
    text_of_extends extension tokenUri, text_of_extends extension imageUri]

theorem nftEntries_of_extends (valid : Valid store) (extension : Extends store next)
    (sameNfts : next.nfts = store.nfts) :
    next.nfts.map next.nftEntry = store.nfts.map store.nftEntry := by
  rw [sameNfts]
  apply map_congr_left
  intro nft member
  exact nftEntry_of_extends nft valid extension (valid.nftContracts nft member)
    (valid.nftNames nft member) (valid.nftTokenUris nft member)
    (valid.nftImageUris nft member)

theorem contractNames_of_extends (valid : Valid store) (extension : Extends store next)
    (sameKeys : next.contracts.map Contract.key = store.contracts.map Contract.key) :
    next.contracts.map next.contractName = store.contracts.map store.contractName := by
  rw [contractNames_eq, contractNames_eq, sameKeys]
  apply map_congr_left
  intro key member
  rcases mem_map.mp member with ⟨contract, inside, equal⟩
  have found := List.getElem?_eq_getElem (valid.contractChains contract inside)
  rw [← equal, Contract.key]
  simp only [found, extension.chain found]

theorem table_of_extends (valid : Valid store) (extension : Extends store next)
    (sameChains : next.chains = store.chains)
    (sameKeys : next.contracts.map Contract.key = store.contracts.map Contract.key)
    (sameNfts : next.nfts = store.nfts) : next.table = store.table := by
  rw [table, table, sameChains, contractNames_of_extends valid extension sameKeys,
    nftEntries_of_extends valid extension sameNfts]

theorem OnlyStrings.table (valid : Valid store) (only : OnlyStrings store next) :
    next.table = store.table :=
  table_of_extends valid only.extension (by rw [only.frame]) (by rw [only.contracts])
    only.nfts

/-! ## Strings

Interning cannot fail while the strings of the load fit into the identifiers. -/

/-- The store holds strings of the load only, and they can all be numbered. -/
structure Within (strings : Finset Text) (store : EntityStore) : Prop where
  known : ∀ value ∈ store.strings, value ∈ strings
  capacity : strings.card ≤ stringIdCapacity

variable {strings : Finset Text} {value : Text}

theorem internString_ok (valid : Valid store) (within : Within strings store)
    (known : value ∈ strings) :
    ∃ id next, store.internString value = .ok (id, next) ∧ Within strings next := by
  unfold internString
  cases found : store.stringIds value with
  | some id => exact ⟨id, store, rfl, within⟩
  | none =>
      have fresh : value ∉ store.strings :=
        (valid.stringKeys.lookup_eq_none_iff value).mp found
      have fewer : store.strings.length < strings.card := by
        have added : insert value store.strings.toFinset ⊆ strings := by
          intro other member
          rcases Finset.mem_insert.mp member with equal | inside
          · exact equal ▸ known
          · exact within.known other (mem_toFinset.mp inside)
        have := Finset.card_le_card added
        rw [Finset.card_insert_of_notMem (by simpa using fresh),
          toFinset_card_of_nodup valid.stringKeys.nodup] at this
        omega
      simp only [tryFrom_eq_ok (fewer.trans_le within.capacity), ok_bind]
      refine ⟨_, _, rfl, ?_, within.capacity⟩
      intro other member
      rcases mem_append.mp member with old | new
      · exact within.known other old
      · rw [mem_singleton.mp new]
        exact known

theorem found_of_inStrings {id : Nat} (inside : InStrings store (some id)) :
    ∃ value, store.strings[id]? = some value :=
  ⟨_, List.getElem?_eq_getElem (inside id rfl)⟩

/-- What interning a column leaves: the store with the strings it needed, and an
identifier that reads back as the column. -/
structure Interned (strings : Finset Text) (store next : EntityStore)
    (id : Option Nat) (value : Option Text) : Prop where
  only : OnlyStrings store next
  within : Within strings next
  inside : InStrings next id
  reads : next.text id = value

theorem Interned.same (valid : Valid store) (within : Within strings store)
    (inside : InStrings store id) :
    Interned strings store store id (store.text id) :=
  ⟨.refl valid, within, inside, rfl⟩

theorem internString_interned (valid : Valid store) (within : Within strings store)
    (known : value ∈ strings) :
    ∃ id next, store.internString value = .ok (id, next) ∧
      Interned strings store next (some id) (some value) := by
  rcases internString_ok valid within known with ⟨id, next, ok, nextWithin⟩
  rcases internString_spec valid ok with ⟨nextValid, extension, found, frame⟩
  exact ⟨id, next, ok, ⟨nextValid, extension, frame⟩, nextWithin, .some found, found⟩

theorem internUnless_interned {absent : Bool} (valid : Valid store) (within : Within strings store)
    (known : absent = false → value ∈ strings) :
    ∃ id next, store.internUnless absent value = .ok (id, next) ∧
      Interned strings store next id (if absent then none else some value) := by
  cases absent with
  | true => exact ⟨none, store, rfl, .same valid within (.none store)⟩
  | false =>
      rcases internString_interned valid within (known rfl) with ⟨id, next, ok, interned⟩
      refine ⟨some id, next, ?_, interned⟩
      simp only [internUnless, Bool.false_eq_true, if_false, ok, ok_bind]

variable {existing : Option Nat} {incoming : Text}

theorem mergeNameValue_interned (valid : Valid store) (within : Within strings store)
    (inside : InStrings store existing) (known : incoming.trim.isEmpty = false → incoming ∈ strings)
    :
    ∃ id next, store.mergeNameValue existing incoming = .ok (id, next) ∧
      Interned strings store next id ((store.text existing).or
        (if incoming.trim.isEmpty then none else some incoming)) := by
  cases existing with
  | some id =>
      rcases found_of_inStrings inside with ⟨value, found⟩
      have reads : store.text (some id) = some value := found
      refine ⟨some id, store, rfl, ?_⟩
      rw [reads, Option.some_or, ← reads]
      exact .same valid within inside
  | none =>
      cases blank : incoming.trim.isEmpty with
      | true =>
          refine ⟨none, store, ?_, .same valid within (.none store)⟩
          simp [mergeNameValue, blank]
      | false =>
          rcases internString_interned valid within (known blank) with
            ⟨id, next, ok, interned⟩
          refine ⟨some id, next, ?_, interned⟩
          simp [mergeNameValue, blank, ok]

theorem mergeUriValue_simulates (field : Text) (row : InputRow) (valid : Valid store)
    (within : Within strings store) (inside : InStrings store existing)
    (known : incoming.isEmpty = false → incoming ∈ strings) :
    Simulates (fun result value => Interned strings store result.2 result.1 value)
      (store.mergeUriValue existing incoming field row)
      (combineUri (store.text existing)
        (if incoming.isEmpty then none else some incoming)) := by
  unfold mergeUriValue
  cases absent : incoming.isEmpty with
  | true =>
      have keeps : ∀ value : Option Text, combineUri value none = some value := by
        intro value
        cases value <;> rfl
      simp only [if_true, keeps]
      exact .same valid within inside
  | false =>
      simp only [Bool.false_eq_true, if_false]
      cases existing with
      | none =>
          rcases internString_interned valid within (known absent) with
            ⟨id, next, ok, interned⟩
          simp only [ok, ok_bind]
          exact interned
      | some id =>
          rcases found_of_inStrings inside with ⟨value, found⟩
          have reads : store.text (some id) = some value := found
          simp only [EntityStore.string, indexed_eq_ok found, ok_bind, reads, combineUri]
          by_cases same : value = incoming
          · simp only [same, ne_eq, not_true_eq_false, if_false, if_true]
            have : store.text (some id) = some incoming := by rw [reads, same]
            exact this ▸ .same valid within inside
          · simp only [same, ne_eq, not_false_eq_true, if_true, if_false]
            exact trivial

/-- Everything a store stands for, together with the string bound. -/
structure Represents (strings : Finset Text) (store : EntityStore) (table : Table) :
    Prop where
  valid : Valid store
  within : Within strings store
  reads : store.table = table

/-- The texts of a value are strings of the load. -/
structure ValueWithin (strings : Finset Text) (value : NftValue) : Prop where
  name : ∀ text ∈ value.name, text ∈ strings
  tokenUri : ∀ text ∈ value.tokenUri, text ∈ strings
  imageUri : ∀ text ∈ value.imageUri, text ∈ strings

variable {row : InputRow}

theorem known_of_valueWithin (known : ValueWithin strings row.nftValue) :
    (row.nameNorm.trim.isEmpty = false → row.nameNorm ∈ strings) ∧
      (row.tokenUriNorm.isEmpty = false → row.tokenUriNorm ∈ strings) ∧
      (row.imageUriNorm.isEmpty = false → row.imageUriNorm ∈ strings) := by
  refine ⟨?_, ?_, ?_⟩
  · intro present
    exact known.name _ (by simp [InputRow.nftValue, present])
  · intro present
    exact known.tokenUri _ (by simp [InputRow.nftValue, present])
  · intro present
    exact known.imageUri _ (by simp [InputRow.nftValue, present])

variable {nftId : Nat}

theorem table_setNft (old new : Nft) (sameKey : new.key = old.key) :
    { store with nfts := store.nfts.set nftId new }.table =
      store.table.setNft nftId (store.nftName old, store.nftValue new) := by
  have sameName : store.nftName new = store.nftName old := by
    have sameContract : new.contractId = old.contractId := congrArg Prod.fst sameKey
    have sameToken : new.tokenId = old.tokenId := congrArg Prod.snd sameKey
    simp only [nftName, sameContract, sameToken]
  have sameEntry : store.nftEntry new = (store.nftName old, store.nftValue new) := by
    rw [nftEntry, sameName]
  rw [← sameEntry]
  simp only [table, Table.setNft, ← map_set]
  rfl

variable {nft : Nft}

/-- Adding to a known NFT combines its value in the table. -/
theorem addNft_known (valid : Valid store) (found : store.nfts[nftId]? = some nft)
    (added : NftValue) :
    store.table.addNft (store.nftName nft, added) =
      (combineUri (store.text nft.tokenUriId) added.tokenUri).bind fun tokenUri =>
        (combineUri (store.text nft.imageUriId) added.imageUri).bind fun imageUri =>
          some (store.table.setNft nftId (store.nftName nft,
            ⟨(store.text nft.nameId).or added.name, tokenUri, imageUri,
              nft.sourceOrder⟩)) := by
  have entryAt : store.table.nfts[nftId]? =
      some (store.nftName nft, store.nftValue nft) := by
    simp only [table, List.getElem?_map, found]
    rfl
  rw [Table.addNft, absorb_known (table_nfts_nodup valid) entryAt, Option.map_map,
    NftValue.combine, Option.map_bind]
  congr 1
  funext tokenUri
  simp only [Function.comp_apply, Option.map_map, nftValue]
  cases combineUri (store.text nft.imageUriId) added.imageUri <;> rfl

/-- A row of a known NFT. -/
theorem mergeDuplicateNft_simulates (valid : Valid store) (within : Within strings store)
    (found : store.nfts[nftId]? = some nft) (sameName : store.nftName nft = row.nftEntry.1)
    (known : ValueWithin strings row.nftValue) :
    Simulates (Represents strings) (store.mergeDuplicateNft nftId row)
      (store.table.addNft row.nftEntry) := by
  have member := mem_of_getElem? found
  have entry : row.nftEntry = (store.nftName nft, row.nftValue) :=
    Prod.ext sameName.symm rfl
  rw [entry, addNft_known valid found]
  rcases known_of_valueWithin known with ⟨nameKnown, tokenKnown, imageKnown⟩
  simp only [mergeDuplicateNft, indexed_eq_ok found, ok_bind]
  rcases mergeNameValue_interned valid within (valid.nftNames nft member) nameKnown with
    ⟨nameId, named, nameOk, name⟩
  simp only [nameOk, ok_bind]
  have tokenBefore : InStrings named nft.tokenUriId :=
    InStrings.mono (valid.nftTokenUris nft member) name.only.extension
  have tokenReads := text_of_extends name.only.extension (valid.nftTokenUris nft member)
  have tokenStep := mergeUriValue_simulates "token_uri_norm".toList row name.only.valid name.within tokenBefore tokenKnown
  rw [tokenReads] at tokenStep
  refine tokenStep.bind ?_
  rintro ⟨tokenUriId, tokenStore⟩ tokenUri _ _ token
  have untilToken := name.only.trans token.only
  have imageBefore : InStrings tokenStore nft.imageUriId :=
    InStrings.mono (valid.nftImageUris nft member) untilToken.extension
  have imageReads := text_of_extends untilToken.extension (valid.nftImageUris nft member)
  have imageStep := mergeUriValue_simulates "image_uri_norm".toList row token.only.valid token.within imageBefore imageKnown
  rw [imageReads] at imageStep
  refine imageStep.bind ?_
  rintro ⟨imageUriId, imageStore⟩ imageUri _ _ image
  have untilImage := untilToken.trans image.only
  have foundLast : imageStore.nfts[nftId]? = some nft := by
    rw [untilImage.nfts]
    exact found
  simp only [indexed_eq_ok foundLast, ok_bind]
  have nameLast := (name.inside.mono token.only.extension).mono image.only.extension
  have tokenLast := token.inside.mono image.only.extension
  refine ⟨untilImage.valid.setNft foundLast rfl rfl nameLast tokenLast image.inside,
    ⟨image.within.known, image.within.capacity⟩, ?_⟩
  have sameTable := untilImage.table valid
  have sameEntry : imageStore.nftName nft = store.nftName nft := by
    have := nftEntry_of_extends nft valid untilImage.extension (valid.nftContracts nft member)
      (valid.nftNames nft member) (valid.nftTokenUris nft member)
      (valid.nftImageUris nft member)
    exact congrArg Prod.fst this
  refine Eq.trans (table_setNft nft _ (by rfl)) ?_
  rw [sameTable, sameEntry]
  have nameReads : imageStore.text nameId =
      (store.text nft.nameId).or row.nftValue.name := by
    rw [text_of_extends image.only.extension (name.inside.mono token.only.extension),
      text_of_extends token.only.extension name.inside, name.reads]
    rfl
  have tokenReadsLast : imageStore.text tokenUriId = tokenUri := by
    rw [text_of_extends image.only.extension token.inside]
    exact token.reads
  simp only [nftValue, nameReads, tokenReadsLast, image.reads]

end NftData.Dedup.EntityStore
