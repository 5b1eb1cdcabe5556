import NftData.Dedup.Entity.Invariant

namespace NftData.Dedup.EntityStore

/-! # Reachable stores

Loading a row and merging a shard are sequences of the primitive operations, so
they keep the representation invariant. -/

open List

/-- Identifiers of optional columns stay valid while strings are added. -/
def InStrings (store : EntityStore) (id : Option Nat) : Prop :=
  ∀ value ∈ id, value < store.strings.length

theorem InStrings.none (store : EntityStore) : InStrings store none := by
  simp [InStrings]

variable {store : EntityStore} {value : Text}

theorem InStrings.some {id : Nat} (found : store.strings[id]? = some value) :
    InStrings store (some id) := by
  intro other isId
  cases isId
  exact (List.getElem?_eq_some_iff.mp found).1

variable {next : EntityStore} {id : Option Nat}

theorem InStrings.mono (inside : InStrings store id) (extension : Extends store next) :
    InStrings next id :=
  fun value isId => (inside value isId).trans_le extension.strings.length_le

/-- What an operation that only interns strings leaves behind. -/
structure OnlyStrings (store next : EntityStore) : Prop where
  valid : Valid next
  extension : Extends store next
  frame : next = { store with strings := next.strings, stringIds := next.stringIds }

namespace OnlyStrings

variable {store middle next : EntityStore}

theorem refl (valid : Valid store) : OnlyStrings store store :=
  ⟨valid, .refl store, rfl⟩

theorem trans (first : OnlyStrings store middle) (second : OnlyStrings middle next) :
    OnlyStrings store next := by
  refine ⟨second.valid, first.extension.trans second.extension, ?_⟩
  have frame := second.frame
  rw [first.frame] at frame
  exact frame

theorem nfts (only : OnlyStrings store next) : next.nfts = store.nfts := by
  rw [only.frame]

theorem contracts (only : OnlyStrings store next) :
    next.contracts = store.contracts := by
  rw [only.frame]

theorem nftIndex (only : OnlyStrings store next) : next.nftIndex = store.nftIndex := by
  rw [only.frame]

end OnlyStrings

theorem internString_only {id : Nat} (valid : Valid store)
    (ok : store.internString value = .ok (id, next)) :
    OnlyStrings store next ∧ InStrings next (some id) := by
  rcases internString_spec valid ok with ⟨nextValid, extension, found, frame⟩
  exact ⟨⟨nextValid, extension, frame⟩, .some found⟩

theorem internUnless_spec {absent : Bool} (valid : Valid store)
    (ok : store.internUnless absent value = .ok (id, next)) :
    OnlyStrings store next ∧ InStrings next id := by
  unfold internUnless at ok
  split at ok
  · cases ok
    exact ⟨.refl valid, .none _⟩
  · rcases bind_eq_ok ok with ⟨⟨issued, interned⟩, internOk, rest⟩
    cases rest
    exact internString_only valid internOk

variable {row : InputRow} {existing : Option Nat} {incoming field : Text}

theorem mergeUriValue_spec (valid : Valid store) (inside : InStrings store existing)
    (ok : store.mergeUriValue existing incoming field row = .ok (id, next)) :
    OnlyStrings store next ∧ InStrings next id := by
  unfold mergeUriValue at ok
  split at ok
  · cases ok
    exact ⟨.refl valid, inside⟩
  · cases existing with
    | some old =>
        rcases bind_eq_ok ok with ⟨text, _, rest⟩
        split at rest
        · cases rest
        · cases rest
          exact ⟨.refl valid, inside⟩
    | none =>
        rcases bind_eq_ok ok with ⟨⟨issued, interned⟩, internOk, rest⟩
        cases rest
        exact internString_only valid internOk

theorem mergeNameValue_spec (valid : Valid store) (inside : InStrings store existing)
    (ok : store.mergeNameValue existing incoming = .ok (id, next)) :
    OnlyStrings store next ∧ InStrings next id := by
  unfold mergeNameValue at ok
  split at ok
  · rcases bind_eq_ok ok with ⟨⟨issued, interned⟩, internOk, rest⟩
    cases rest
    exact internString_only valid internOk
  · cases ok
    exact ⟨.refl valid, inside⟩

/-- Every contract kept its key and its metadata. -/
def SameAnchors (store next : EntityStore) : Prop :=
  next.contracts.map (fun contract => (contract.key, contract.metadataByToken)) =
    store.contracts.map fun contract => (contract.key, contract.metadataByToken)

variable {nft : Nft} {chainId : Nat}

theorem insertNft_sameAnchors (ok : store.insertNft chainId nft = .ok next) :
    SameAnchors store next := by
  rcases bind_eq_ok ok with ⟨issued, _, rest⟩
  rcases bind_eq_ok rest with ⟨counted, countedOk, last⟩
  rcases updateContract_inversion countedOk with ⟨contract, found, equal⟩
  cases last
  subst equal
  exact map_set_of_eq (fun contract : Contract =>
    (contract.key, contract.metadataByToken)) found rfl

theorem mergeDuplicateNft_spec {nftId : Nat} (valid : Valid store)
    (ok : store.mergeDuplicateNft nftId row = .ok next) :
    Valid next ∧ Extends store next ∧ next.contracts = store.contracts := by
  rcases bind_eq_ok ok with ⟨existing, existingOk, rest⟩
  have found := indexed_inversion existingOk
  have member := mem_of_getElem? found
  rcases bind_eq_ok rest with ⟨⟨nameId, named⟩, nameOk, rest⟩
  rcases mergeNameValue_spec valid (valid.nftNames existing member) nameOk with
    ⟨nameOnly, nameInside⟩
  rcases bind_eq_ok rest with ⟨⟨tokenUriId, tokenStore⟩, tokenOk, rest⟩
  have tokenBefore : InStrings named existing.tokenUriId :=
    InStrings.mono (valid.nftTokenUris existing member) nameOnly.extension
  rcases mergeUriValue_spec nameOnly.valid tokenBefore tokenOk with
    ⟨tokenOnly, tokenInside⟩
  have untilToken := nameOnly.trans tokenOnly
  rcases bind_eq_ok rest with ⟨⟨imageUriId, imageStore⟩, imageOk, rest⟩
  have imageBefore : InStrings tokenStore existing.imageUriId :=
    InStrings.mono (valid.nftImageUris existing member) untilToken.extension
  rcases mergeUriValue_spec tokenOnly.valid imageBefore imageOk with
    ⟨imageOnly, imageInside⟩
  have untilImage := untilToken.trans imageOnly
  rcases bind_eq_ok rest with ⟨nft, nftOk, last⟩
  have nftFound := indexed_inversion nftOk
  cases last
  refine ⟨untilImage.valid.setNft nftFound rfl rfl ?_ ?_ imageInside, ?_⟩
  · exact (nameInside.mono tokenOnly.extension).mono imageOnly.extension
  · exact tokenInside.mono imageOnly.extension
  · exact ⟨untilImage.extension.trans
      ⟨prefix_rfl, prefix_rfl, prefix_rfl, rfl, rfl, rfl⟩,
      untilImage.contracts⟩

variable {contractId : Nat} {address : Text}

theorem ingestNft_spec (valid : Valid store)
    (contractAt : (store.contracts.map Contract.key)[contractId]? =
      some (chainId, address)) (ok : store.ingestNft chainId contractId row = .ok next) :
    Valid next ∧ Extends store next ∧ SameAnchors store next := by
  unfold ingestNft at ok
  cases known : store.nftIndex (contractId, row.tokenId) with
  | some nftId =>
      simp only [known] at ok
      rcases mergeDuplicateNft_spec valid ok with ⟨nextValid, extension, contracts⟩
      exact ⟨nextValid, extension, by rw [SameAnchors, contracts]⟩
  | none =>
      simp only [known] at ok
      rcases bind_eq_ok ok with ⟨⟨tokenUriId, tokenStore⟩, tokenOk, rest⟩
      rcases internUnless_spec valid tokenOk with ⟨tokenOnly, tokenInside⟩
      rcases bind_eq_ok rest with ⟨⟨imageUriId, imageStore⟩, imageOk, rest⟩
      rcases internUnless_spec tokenOnly.valid imageOk with ⟨imageOnly, imageInside⟩
      have untilImage := tokenOnly.trans imageOnly
      rcases bind_eq_ok rest with ⟨⟨nameId, nameStore⟩, nameOk, last⟩
      rcases internUnless_spec untilImage.valid nameOk with ⟨nameOnly, nameInside⟩
      have untilName := untilImage.trans nameOnly
      have onChain : (nameStore.contracts.map Contract.chainId)[contractId]? =
          some chainId := by
        rw [untilName.contracts, List.getElem?_map]
        rw [List.getElem?_map] at contractAt
        rcases Option.map_eq_some_iff.mp contractAt with ⟨contract, found, equal⟩
        rw [found]
        exact congrArg some (congrArg Prod.fst equal)
      have fresh : nameStore.nftIndex (contractId, row.tokenId) = none := by
        rw [untilName.nftIndex]
        exact known
      have tokenLast := (tokenInside.mono imageOnly.extension).mono nameOnly.extension
      have imageLast := imageInside.mono nameOnly.extension
      have inserted := insertNft_spec
        ⟨0, contractId, row.tokenId, nameId, tokenUriId, imageUriId, row.sourceOrder⟩
        untilName.valid fresh onChain nameInside tokenLast imageLast last
      rcases inserted with ⟨nextValid, extension, _⟩
      have anchors := insertNft_sameAnchors last
      rw [SameAnchors, untilName.contracts] at anchors
      exact ⟨nextValid, untilName.extension.trans extension, anchors⟩

variable {canonicalizeJsonStrict : Canonicalizer}

theorem ingestMetadata_spec (valid : Valid store)
    (chainAt : store.chains[chainId]? = some row.chain)
    (contractAt : (store.contracts.map Contract.key)[contractId]? =
      some (chainId, address))
    (ok : store.ingestMetadata canonicalizeJsonStrict contractId row = .ok next) :
    Valid next ∧ Extends store next := by
  unfold ingestMetadata at ok
  split at ok
  · cases ok
    exact ⟨valid, .refl store⟩
  · rcases insertMetadataAnchor_spec valid chainAt contractAt ok with
      ⟨nextValid, extension, _⟩
    exact ⟨nextValid, extension⟩

/-- A loaded row keeps the invariant and every identifier issued before. -/
theorem tryIngestRow_spec (valid : Valid store)
    (ok : store.tryIngestRow canonicalizeJsonStrict row = .ok next) :
    Valid next ∧ Extends store next := by
  unfold tryIngestRow at ok
  split at ok
  · cases ok
    exact ⟨valid, .refl store⟩
  · rcases bind_eq_ok ok with ⟨⟨chainId, chained⟩, chainOk, rest⟩
    rcases ensureChain_spec valid chainOk with ⟨chainValid, chainExtends, chainAt, _⟩
    rcases bind_eq_ok rest with ⟨⟨contractId, contracted⟩, contractOk, rest⟩
    rcases ensureContract_spec chainValid (List.getElem?_eq_some_iff.mp chainAt).1
      contractOk with ⟨contractValid, contractExtends, contractAt, _⟩
    rcases bind_eq_ok rest with ⟨described, metadataOk, nftOk⟩
    rcases ingestMetadata_spec contractValid (contractExtends.chain chainAt) contractAt
      metadataOk with ⟨metadataValid, metadataExtends⟩
    rcases ingestNft_spec metadataValid (metadataExtends.contract contractAt) nftOk with
      ⟨nextValid, nftExtends, _⟩
    exact ⟨nextValid, ((chainExtends.trans contractExtends).trans
      metadataExtends).trans nftExtends⟩

/-! ## Shards -/

theorem mapKeys_spec {ensure : EntityStore → Text → Except DedupError (Nat × EntityStore)}
    {names : EntityStore → List Text}
    (grows : ∀ store next, Extends store next → names store <+: names next)
    (spec : ∀ store key id next, Valid store → ensure store key = .ok (id, next) →
      Valid next ∧ Extends store next ∧ (names next)[id]? = some key) :
    ∀ (keys : List Text) (store next : EntityStore) (ids : List Nat), Valid store →
      mapKeys ensure store keys = .ok (ids, next) →
      Valid next ∧ Extends store next ∧
        List.Forall₂ (fun key id => (names next)[id]? = some key) keys ids := by
  intro keys
  induction keys with
  | nil =>
      intro store next ids valid ok
      cases ok
      exact ⟨valid, .refl store, .nil⟩
  | cons key keys induction =>
      intro store next ids valid ok
      rcases bind_eq_ok ok with ⟨⟨id, middle⟩, ensureOk, rest⟩
      rcases spec store key id middle valid ensureOk with
        ⟨middleValid, middleExtends, found⟩
      rcases bind_eq_ok rest with ⟨⟨restIds, final⟩, restOk, last⟩
      injection last with last
      injection last with idsEqual nextEqual
      subst idsEqual nextEqual
      rcases induction middle final restIds middleValid restOk with
        ⟨finalValid, finalExtends, restFound⟩
      refine ⟨finalValid, middleExtends.trans finalExtends, .cons ?_ restFound⟩
      rcases grows middle final finalExtends with ⟨suffix, equal⟩
      rw [← equal, List.getElem?_append_left (List.getElem?_eq_some_iff.mp found).1]
      exact found

variable {ids : List Nat}

/-- Every identifier a map holds is the position of a known key. -/
theorem inside_of_forall₂ {names keys : List Text}
    (mapped : List.Forall₂ (fun key id => names[id]? = some key) keys ids) :
    ∀ id ∈ ids, id < names.length := by
  induction mapped with
  | nil => simp
  | cons found _ induction =>
      intro id member
      rcases mem_cons.mp member with equal | inside
      · rw [equal]
        exact (List.getElem?_eq_some_iff.mp found).1
      · exact induction id inside

theorem mapChains_spec {chains : List Text} (valid : Valid store)
    (ok : mapKeys ensureChain store chains = .ok (ids, next)) :
    Valid next ∧ Extends store next ∧
      List.Forall₂ (fun chain id => next.chains[id]? = some chain) chains ids :=
  mapKeys_spec (fun _ _ extension => extension.chains)
    (fun _ _ _ _ valid ok =>
      let spec := ensureChain_spec valid ok
      ⟨spec.1, spec.2.1, spec.2.2.1⟩)
    chains store next ids valid ok

theorem mapStrings_spec {values : List Text} (valid : Valid store)
    (ok : mapKeys internString store values = .ok (ids, next)) :
    Valid next ∧ Extends store next ∧
      List.Forall₂ (fun value id => next.strings[id]? = some value) values ids :=
  mapKeys_spec (fun _ _ extension => extension.strings)
    (fun _ _ _ _ valid ok =>
      let spec := internString_spec valid ok
      ⟨spec.1, spec.2.1, spec.2.2.1⟩)
    values store next ids valid ok

variable {contractMap : List Nat} {chainMap nextMap : List Nat}

theorem mergeContract_spec {contract : Contract} (valid : Valid store)
    (chains : ∀ id ∈ chainMap, id < store.chains.length)
    (ok : mergeContract chainMap (contractMap, store) contract = .ok (nextMap, next)) :
    Valid next ∧ Extends store next := by
  rcases bind_eq_ok ok with ⟨chainId, chainOk, rest⟩
  have chainInside := chains chainId (mem_of_getElem? (indexed_inversion chainOk))
  rcases bind_eq_ok rest with ⟨⟨contractId, contracted⟩, contractOk, rest⟩
  rcases ensureContract_spec valid chainInside contractOk with
    ⟨contractValid, contractExtends, contractAt, _⟩
  rcases bind_eq_ok rest with ⟨assigned, _, rest⟩
  rcases bind_eq_ok rest with ⟨chainName, nameOk, rest⟩
  have chainAt := indexed_inversion nameOk
  rcases bind_eq_ok rest with ⟨described, recordsOk, last⟩
  cases last
  have records := foldlM_induction
    (fun state => Valid state ∧ Extends contracted state)
    (fun state record after holds step => by
      rcases insertMetadataAnchor_spec holds.1 (holds.2.chain chainAt)
        (holds.2.contract contractAt) step with ⟨afterValid, afterExtends, _⟩
      exact ⟨afterValid, holds.2.trans afterExtends⟩)
    _ ⟨contractValid, .refl _⟩ recordsOk
  exact ⟨records.1, contractExtends.trans records.2⟩

theorem mergeContracts_spec {contracts : List Contract} (valid : Valid store)
    (chains : ∀ id ∈ chainMap, id < store.chains.length)
    (ok : contracts.foldlM (mergeContract chainMap) (contractMap, store) =
      .ok (nextMap, next)) :
    Valid next ∧ Extends store next :=
  foldlM_induction (fun state : List Nat × EntityStore =>
      Valid state.2 ∧ Extends store state.2)
    (fun state contract after holds step => by
      have inside : ∀ id ∈ chainMap, id < state.2.chains.length := fun id member =>
        (chains id member).trans_le holds.2.chains.length_le
      rcases mergeContract_spec holds.1 inside step with ⟨afterValid, afterExtends⟩
      exact ⟨afterValid, holds.2.trans afterExtends⟩)
    contracts ⟨valid, .refl _⟩ ok

variable {stringMap : List Nat}

theorem remapString_inside {mapped : Option Nat}
    (strings : ∀ id ∈ stringMap, id < store.strings.length)
    (ok : remapString stringMap id = .ok mapped) : InStrings store mapped := by
  cases id with
  | none =>
      cases ok
      exact .none store
  | some id =>
      rcases bind_eq_ok ok with ⟨value, valueOk, last⟩
      cases last
      intro other isMapped
      have equal : value = other := by simpa using isMapped
      rw [← equal]
      exact strings value (mem_of_getElem? (indexed_inversion valueOk))

theorem mergeMappedUri_inside {incoming merged : Option Nat} {tokenId : Text}
    (before : InStrings store existing) (added : InStrings store incoming)
    (ok : mergeMappedUri existing incoming field contractId tokenId = .ok merged) :
    InStrings store merged := by
  unfold mergeMappedUri at ok
  split at ok
  · cases ok
    exact added
  · cases ok
    exact before
  · split at ok
    · cases ok
      exact before
    · cases ok

theorem mergeExistingNft_spec {existingId : Nat} (valid : Valid store)
    (name : InStrings store nft.nameId) (tokenUri : InStrings store nft.tokenUriId)
    (imageUri : InStrings store nft.imageUriId)
    (ok : store.mergeExistingNft existingId nft = .ok next) :
    Valid next ∧ Extends store next ∧ SameAnchors store next := by
  rcases bind_eq_ok ok with ⟨existing, existingOk, rest⟩
  have found := indexed_inversion existingOk
  have member := mem_of_getElem? found
  rcases bind_eq_ok rest with ⟨tokenUriId, tokenOk, rest⟩
  rcases bind_eq_ok rest with ⟨imageUriId, imageOk, last⟩
  cases last
  refine ⟨valid.setNft found rfl rfl ?_ ?_ ?_,
    ⟨prefix_rfl, prefix_rfl, prefix_rfl, rfl, rfl, rfl⟩, rfl⟩
  · intro id isName
    rcases Option.or_eq_some_iff.mp isName with old | ⟨_, new⟩
    · exact valid.nftNames existing member id old
    · exact name id new
  · exact mergeMappedUri_inside (valid.nftTokenUris existing member) tokenUri tokenOk
  · exact mergeMappedUri_inside (valid.nftImageUris existing member) imageUri imageOk

theorem mergeRemappedNft_spec (valid : Valid store) (name : InStrings store nft.nameId)
    (tokenUri : InStrings store nft.tokenUriId) (imageUri : InStrings store nft.imageUriId)
    (ok : store.mergeRemappedNft nft = .ok next) :
    Valid next ∧ Extends store next ∧ SameAnchors store next := by
  unfold mergeRemappedNft at ok
  split at ok
  · exact mergeExistingNft_spec valid name tokenUri imageUri ok
  · next fresh =>
      rcases bind_eq_ok ok with ⟨contract, contractOk, last⟩
      have onChain := indexed_inversion contractOk
      rcases insertNft_spec nft valid fresh (by simp [onChain]) name tokenUri imageUri
        last with ⟨nextValid, extension, _⟩
      exact ⟨nextValid, extension, insertNft_sameAnchors last⟩

theorem mergeNft_spec (valid : Valid store) (strings : ∀ id ∈ stringMap, id < store.strings.length)
    (ok : mergeNft contractMap stringMap store nft = .ok next) :
    Valid next ∧ Extends store next ∧ SameAnchors store next := by
  rcases bind_eq_ok ok with ⟨remapped, remapOk, rest⟩
  rcases bind_eq_ok remapOk with ⟨contractId, _, remapOk⟩
  rcases bind_eq_ok remapOk with ⟨nameId, nameOk, remapOk⟩
  rcases bind_eq_ok remapOk with ⟨tokenUriId, tokenOk, remapOk⟩
  rcases bind_eq_ok remapOk with ⟨imageUriId, imageOk, last⟩
  cases last
  exact mergeRemappedNft_spec valid (remapString_inside strings nameOk)
    (remapString_inside strings tokenOk) (remapString_inside strings imageOk) rest

theorem mergeShard_spec {shard : EntityStore} (valid : Valid store)
    (ok : store.mergeShard shard = .ok next) : Valid next ∧ Extends store next := by
  rcases bind_eq_ok ok with ⟨⟨chainMap, chained⟩, chainsOk, rest⟩
  rcases mapChains_spec valid chainsOk with ⟨chainValid, chainExtends, chainsAt⟩
  rcases bind_eq_ok rest with ⟨⟨stringMap, interned⟩, stringsOk, rest⟩
  rcases mapStrings_spec chainValid stringsOk with
    ⟨stringValid, stringExtends, stringsAt⟩
  rcases bind_eq_ok rest with ⟨⟨contractMap, contracted⟩, contractsOk, nftsOk⟩
  have inside : ∀ id ∈ chainMap, id < interned.chains.length := fun id member =>
    (inside_of_forall₂ chainsAt id member).trans_le stringExtends.chains.length_le
  have contracts := mergeContracts_spec stringValid inside contractsOk
  have nfts := foldlM_induction
    (fun state => Valid state ∧ Extends interned state)
    (fun state nft after holds step => by
      have strings : ∀ id ∈ stringMap, id < state.strings.length := fun id member =>
        (inside_of_forall₂ stringsAt id member).trans_le holds.2.strings.length_le
      rcases mergeNft_spec holds.1 strings step with ⟨afterValid, afterExtends, _⟩
      exact ⟨afterValid, holds.2.trans afterExtends⟩)
    _ contracts nftsOk
  exact ⟨nfts.1, (chainExtends.trans stringExtends).trans nfts.2⟩

def sortedContract (store : EntityStore) (contract : Contract) : Contract :=
  { contract with
    metadataByToken :=
      finalizeAnchors (store.isEvm contract.chainId) contract.metadataByToken }

private theorem mapM_eq_ok {α β : Type} {values : List α}
    {action : α → Except DedupError β} {result : α → β}
    (each : ∀ value ∈ values, action value = .ok (result value)) :
    values.mapM action = .ok (values.map result) := by
  induction values with
  | nil => rfl
  | cons head tail induction =>
      rw [mapM_cons, each head (by simp),
        induction fun value member => each value (mem_cons_of_mem _ member)]
      rfl

/-- Finalizing a valid store cannot fail; it sorts every contract's records when
the sort was deferred. -/
theorem finalizeMetadataAnchors_eq (valid : Valid store) :
    store.finalizeMetadataAnchors = .ok (if store.deferMetadataSort then
      { store with
        contracts := store.contracts.map store.sortedContract
        deferMetadataSort := false }
    else store) := by
  have each : ∀ contract ∈ store.contracts,
      store.finalizeContract contract = .ok (store.sortedContract contract) := by
    intro contract member
    have chainAt := List.getElem?_eq_getElem (valid.contractChains contract member)
    simp only [finalizeContract, indexed_eq_ok chainAt, sortedContract, isEvm, chainAt,
      Option.any_some]
    rfl
  unfold finalizeMetadataAnchors
  cases store.deferMetadataSort with
  | false => rfl
  | true =>
      rw [mapM_eq_ok each]
      rfl

theorem finalizeMetadataAnchors_spec (valid : Valid store)
    (ok : store.finalizeMetadataAnchors = .ok next) : Valid next := by
  rw [finalizeMetadataAnchors_eq valid] at ok
  cases deferred : store.deferMetadataSort with
  | false =>
      rw [deferred] at ok
      cases ok
      exact valid
  | true =>
      rw [deferred] at ok
      cases ok
      have sameChains : (store.contracts.map store.sortedContract).map Contract.chainId =
          store.contracts.map Contract.chainId := by simp [sortedContract]
      have sameKeys : (store.contracts.map store.sortedContract).map Contract.key =
          store.contracts.map Contract.key := by simp [sortedContract, Contract.key]
      have eachContract : ∀ property : Contract → Prop,
          (∀ contract ∈ store.contracts, property (store.sortedContract contract)) →
          ∀ contract ∈ store.contracts.map store.sortedContract,
            property contract := by
        intro property old contract member
        rcases mem_map.mp member with ⟨before, inside, equal⟩
        exact equal ▸ old before inside
      exact { valid with
        contractIds := by
          intro position contract atPosition
          rw [if_pos rfl, List.getElem?_map] at atPosition
          rcases Option.map_eq_some_iff.mp atPosition with ⟨before, found, equal⟩
          rw [← equal]
          exact valid.contractIds position before found
        contractKeys := by
          simp only [if_true, sameKeys]
          exact valid.contractKeys
        contractChains := eachContract _ valid.contractChains
        nftContracts := by simpa using valid.nftContracts
        nftCounts := eachContract _ valid.nftCounts
        totals := by
          intro chainId
          simp only [contractsOn, nftsOn, if_true, sameChains]
          exact valid.totals chainId
        contractCapacity := by simpa using valid.contractCapacity
        deferredUnbounded := by simp
        anchorsBounded := by
          simp [valid.deferredUnbounded deferred]
        anchorsSorted := fun _ =>
          eachContract _ fun contract _ => finalizeAnchors_sorted _ _ }

/-- The stores that loading rows and merging loaded shards can produce. A shard
may have been loaded with options of its own. -/
inductive Reachable (canonicalizeJsonStrict : Canonicalizer) : EntityStore → Prop
  | empty (limit : Option Nat) (evmChains : Finset Text) :
      Reachable canonicalizeJsonStrict (withOptions limit evmChains)
  | deferred (limit : Option Nat) (evmChains : Finset Text) :
      Reachable canonicalizeJsonStrict
        (withOptions limit evmChains).deferUnboundedMetadataSort
  | ingested {store next : EntityStore} {row : InputRow}
      (reachable : Reachable canonicalizeJsonStrict store)
      (ok : store.tryIngestRow canonicalizeJsonStrict row = .ok next) :
      Reachable canonicalizeJsonStrict next
  | merged {store shard next : EntityStore}
      (reachable : Reachable canonicalizeJsonStrict store)
      (loaded : Reachable canonicalizeJsonStrict shard)
      (ok : store.mergeShard shard = .ok next) : Reachable canonicalizeJsonStrict next
  | finalized {store next : EntityStore}
      (reachable : Reachable canonicalizeJsonStrict store)
      (ok : store.finalizeMetadataAnchors = .ok next) :
      Reachable canonicalizeJsonStrict next

theorem valid_of_reachable (reachable : Reachable canonicalizeJsonStrict store) :
    Valid store := by
  induction reachable with
  | empty limit evmChains => exact .withOptions limit evmChains
  | deferred limit evmChains => exact .deferUnboundedMetadataSort limit evmChains
  | ingested _ ok induction => exact (tryIngestRow_spec induction ok).1
  | merged _ _ ok induction _ => exact (mergeShard_spec induction ok).1
  | finalized _ ok induction => exact finalizeMetadataAnchors_spec induction ok

/-- Every store the loader can reach has consistent tables: identifiers are
positions, the maps are exact inverses of vectors without repetition, stored
identifiers are in range, the counters count, and anchor lists are bounded,
distinct and sorted. -/
theorem reachable_representation {canonicalizeJsonStrict : Canonicalizer}
    {store : EntityStore} (reachable : Reachable canonicalizeJsonStrict store) :
    Valid store ∧ store.chains.Nodup ∧ store.strings.Nodup ∧
      (store.contracts.map Contract.key).Nodup ∧ (store.nfts.map Nft.key).Nodup := by
  have valid := valid_of_reachable reachable
  exact ⟨valid, valid.chainKeys.nodup, valid.stringKeys.nodup, valid.contractKeys.nodup,
    valid.nftKeys.nodup⟩

/-- A store with one loaded row, merged with the same row as a shard. -/
theorem reachable_representation_merged_row :
    let row : InputRow := ⟨"ethereum".toList, "0xabc".toList, "1".toList,
      "name".toList, "uri".toList, "image".toList, "[]".toList, ⟨0, 0⟩⟩
    ∃ store merged,
      (withOptions (some 1) {"ethereum".toList}).tryIngestRow some row = .ok store ∧
        store.mergeShard store = .ok merged ∧ Valid merged ∧ merged.rowsLoaded = 1 := by
  intro row
  have start : Reachable some (withOptions (some 1) {"ethereum".toList}) :=
    .empty (some 1) {"ethereum".toList}
  have loaded := @Reachable.ingested some _ _ row start rfl
  exact ⟨_, _, rfl, rfl, (reachable_representation (.merged loaded loaded rfl)).1, rfl⟩

/-- Identifiers stay what they are, however rows and loaded shards come in afterwards. -/
theorem ids_kept {canonicalizeJsonStrict : Canonicalizer}
    (store : {store // Reachable canonicalizeJsonStrict store})
    (inputs : List (InputRow ⊕ EntityStore)) :
    match inputs.foldlM (fun store => Sum.elim (store.tryIngestRow canonicalizeJsonStrict)
      store.mergeShard) store.1 with
    | .ok next => store.1.chains <+: next.chains ∧ store.1.strings <+: next.strings ∧
        store.1.contracts.map Contract.key <+: next.contracts.map Contract.key
    | .error _ => True := by
  split
  · next next ok =>
      have kept := foldlM_induction (fun state => Valid state ∧ Extends store.1 state)
        (fun state input after holds step => by
          cases input with
          | inl row =>
              have spec := tryIngestRow_spec holds.1 step
              exact ⟨spec.1, holds.2.trans spec.2⟩
          | inr shard =>
              have spec := mergeShard_spec holds.1 step
              exact ⟨spec.1, holds.2.trans spec.2⟩)
        inputs ⟨valid_of_reachable store.2, .refl store.1⟩ ok
      exact ⟨kept.2.chains, kept.2.strings, kept.2.contracts⟩
  · trivial

end NftData.Dedup.EntityStore
