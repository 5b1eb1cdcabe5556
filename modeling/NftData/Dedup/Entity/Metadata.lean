import NftData.Dedup.Entity.Merging

namespace NftData.Dedup

/-! # Metadata of a load

Loading a row inserts at most one record into the anchors of its contract, and
merging a shard inserts the anchors of each of its contracts in turn. -/

open List

/-- The options that decide how a record is inserted. -/
structure AnchorPolicy where
  limit : Option Nat
  deferred : Bool
  evmChains : Finset Text

def AnchorPolicy.insert (policy : AnchorPolicy) (chain : Text)
    (anchors : List MetadataRecord) (record : MetadataRecord) : List MetadataRecord :=
  if policy.limit = some 0 then
    anchors
  else if policy.deferred then
    anchors ++ [record]
  else
    EntityStore.insertAnchor policy.limit (decide (chain ∈ policy.evmChains)) anchors
      record

/-- The record a row gives a contract, if any. -/
def InputRow.recordsFor (canonicalizeJsonStrict : Canonicalizer) (row : InputRow)
    (name : ContractName) : List MetadataRecord :=
  if row.isSkipped = false ∧ row.contractName = name then
    (validatedMetadata canonicalizeJsonStrict row.metadataJson).toList.map
      fun canonicalJson => ⟨row.tokenId, canonicalJson, row.sourceOrder⟩
  else
    []

namespace EntityStore

def policy (store : EntityStore) : AnchorPolicy :=
  ⟨store.metadataAnchorLimit, store.deferMetadataSort, store.evmChains⟩

variable {store next : EntityStore}

theorem Extends.policy (extension : Extends store next) :
    next.policy = store.policy := by
  rw [EntityStore.policy, EntityStore.policy, extension.limit, extension.deferred,
    extension.evm]

def described (store : EntityStore) : List (ContractName × List MetadataRecord) :=
  store.contracts.map fun contract =>
    (store.contractName contract, contract.metadataByToken)

def metadataOf (store : EntityStore) (name : ContractName) : List MetadataRecord :=
  (store.described.lookup name).getD []

theorem described_names (store : EntityStore) :
    store.described.map Prod.fst = store.contracts.map store.contractName := by
  rw [described, map_map]
  rfl

section Lookup

variable {Key Value : Type} [BEq Key] [LawfulBEq Key] {entries : List (Key × Value)} {key : Key}

theorem lookup_eq_none_of_notMem (absent : key ∉ entries.map Prod.fst) :
    entries.lookup key = none := by
  induction entries with
  | nil => rfl
  | cons head tail induction =>
      rw [map_cons, mem_cons, not_or] at absent
      rw [lookup_cons, beq_eq_false_iff_ne.mpr absent.1]
      exact induction absent.2

variable {position : Nat}

theorem lookup_of_getElem? {value : Value} (nodup : (entries.map Prod.fst).Nodup)
    (found : entries[position]? = some (key, value)) :
    entries.lookup key = some value := by
  induction entries generalizing position with
  | nil => simp at found
  | cons head tail induction =>
      rcases head with ⟨headKey, headValue⟩
      rw [map_cons, nodup_cons] at nodup
      rw [lookup_cons]
      cases position with
      | zero =>
          have equal : (headKey, headValue) = (key, value) := by simpa using found
          injection equal with keyEqual valueEqual
          simp [keyEqual, valueEqual]
      | succ position =>
          have inTail : tail[position]? = some (key, value) := by simpa using found
          have different : key ≠ headKey := by
            intro equal
            apply nodup.1
            rw [← equal]
            exact mem_map.mpr ⟨_, mem_of_getElem? inTail, rfl⟩
          rw [beq_eq_false_iff_ne.mpr different]
          exact induction nodup.2 inTail

theorem lookup_set [DecidableEq Key] {old : Value} (nodup : (entries.map Prod.fst).Nodup)
    (found : entries[position]? = some (key, old)) (new : Value) (other : Key) :
    (entries.set position (key, new)).lookup other =
      if other = key then some new else entries.lookup other := by
  induction entries generalizing position with
  | nil => simp at found
  | cons head tail induction =>
      rcases head with ⟨headKey, headValue⟩
      rw [map_cons, nodup_cons] at nodup
      cases position with
      | zero =>
          have equal : (headKey, headValue) = (key, old) := by simpa using found
          injection equal with keyEqual _
          subst keyEqual
          rw [set_cons_zero, lookup_cons, lookup_cons]
          by_cases same : other = headKey
          · simp [same]
          · simp [same, beq_eq_false_iff_ne.mpr same]
      | succ position =>
          have inTail : tail[position]? = some (key, old) := by simpa using found
          rw [set_cons_succ, lookup_cons, lookup_cons,
            induction nodup.2 inTail]
          by_cases isHead : other = headKey
          · have different : other ≠ key := by
              intro equal
              apply nodup.1
              rw [← isHead, equal]
              exact mem_map.mpr ⟨_, mem_of_getElem? inTail, rfl⟩
            simp [isHead, isHead ▸ different]
          · rw [beq_eq_false_iff_ne.mpr isHead]

end Lookup

/-! ## Primitive operations -/

theorem described_nodup (valid : Valid store) :
    (store.described.map Prod.fst).Nodup := by
  rw [described_names]
  exact contractNames_nodup valid

/-- Operations that leave the records of every contract leave the metadata. -/
theorem described_of_same (valid : Valid store) (extension : Extends store next)
    (same : SameAnchors store next) :
    next.described = store.described := by
  have byKey : ∀ some : EntityStore, some.described =
      (some.contracts.map fun contract =>
        (contract.key, contract.metadataByToken)).map fun entry =>
          ((some.chains[entry.1.1]?.getD [], entry.1.2), entry.2) := by
    intro some
    rw [map_map]
    rfl
  rw [byKey, byKey, same]
  apply map_congr_left
  intro entry member
  rcases mem_map.mp member with ⟨contract, inside, equal⟩
  have found := List.getElem?_eq_getElem (valid.contractChains contract inside)
  rw [← equal]
  simp only [Contract.key, found, extension.chain found]

theorem OnlyStrings.described (valid : Valid store) (only : OnlyStrings store next) :
    next.described = store.described :=
  described_of_same valid only.extension (by rw [SameAnchors, only.contracts])

variable {id : Nat}

theorem ensureChain_described {chain : Text} (valid : Valid store)
    (ok : store.ensureChain chain = .ok (id, next)) :
    next.described = store.described := by
  rcases ensureChain_spec valid ok with ⟨_, extension, _, frame⟩
  exact described_of_same valid extension (by rw [SameAnchors, frame])

variable {chainId : Nat}

/-- A contract that is created has no metadata yet. -/
theorem ensureContract_metadata {address : Text}
    (ok : store.ensureContract chainId address = .ok (id, next)) (name : ContractName) :
    next.metadataOf name = store.metadataOf name := by
  rcases issue_cases ok with ⟨_, rfl⟩ | ⟨_, _, _, rfl⟩
  · rfl
  · have pushed : ∀ (entries : List (ContractName × List MetadataRecord))
        (fresh : ContractName),
        ((entries ++ [(fresh, [])]).lookup name).getD [] =
          (entries.lookup name).getD [] := by
      intro entries fresh
      rw [lookup_append]
      cases entries.lookup name with
      | some value => rfl
      | none =>
          rw [Option.none_or, lookup_cons]
          split <;> rfl
    rw [metadataOf, metadataOf, ← pushed store.described
      (store.chains[chainId]?.getD [], address)]
    simp only [described, updateTotals, map_append, map_singleton]
    rfl

variable {name : ContractName} {contractId : Nat}

theorem insertMetadataAnchor_metadata {record : MetadataRecord} (valid : Valid store)
    (contractAt : ContractAt store contractId chainId name)
    (ok : store.insertMetadataAnchor contractId name.1 record = .ok next) (other : ContractName) :
    next.metadataOf other =
      if other = name then store.policy.insert name.1 (store.metadataOf name) record
      else store.metadataOf other := by
  have known : ∃ contract, store.contracts[contractId]? = some contract :=
    ⟨_, List.getElem?_eq_getElem contractAt.inside⟩
  rcases known with ⟨contract, found⟩
  have named := contractAt.named
  rw [List.getElem?_map, found, Option.map_some] at named
  have nameEqual : store.contractName contract = name := Option.some.inj named
  have describedAt : store.described[contractId]? =
      some (name, contract.metadataByToken) := by
    rw [described, List.getElem?_map, found, Option.map_some, nameEqual]
  have before : store.metadataOf name = contract.metadataByToken := by
    rw [metadataOf, lookup_of_getElem? (described_nodup valid) describedAt,
      Option.getD_some]
  have changed : ∀ (change : Contract → Contract) (anchors : List MetadataRecord),
      (change contract).key = contract.key →
      (change contract).metadataByToken = anchors →
      store.updateContract contractId change = .ok next →
      next.metadataOf other =
        if other = name then anchors else store.metadataOf other := by
    intro change anchors sameKey after updateOk
    rcases updateContract_inversion updateOk with ⟨existing, existingAt, equal⟩
    have same : contract = existing := by
      rw [found] at existingAt
      exact Option.some.inj existingAt
    subst same equal
    have entry : (store.contractName (change contract),
        (change contract).metadataByToken) = (name, anchors) := by
      have sameChain : (change contract).chainId = contract.chainId :=
        congrArg Prod.fst sameKey
      have sameAddress : (change contract).address = contract.address :=
        congrArg Prod.snd sameKey
      rw [after, ← nameEqual, contractName, contractName, sameChain, sameAddress]
    have described' : described { store with
        contracts := store.contracts.set contractId (change contract) } =
        store.described.set contractId (name, anchors) := by
      rw [described, described, map_set]
      congr 1
    rw [metadataOf, described', lookup_set (described_nodup valid) describedAt]
    split <;> rfl
  unfold insertMetadataAnchor at ok
  rw [AnchorPolicy.insert, before]
  split at ok
  · next isZero =>
      cases ok
      rw [if_pos (show store.policy.limit = some 0 from isZero), ← before]
      split
      · next same => rw [same]
      · rfl
  · next notZero =>
      rw [if_neg (show ¬ store.policy.limit = some 0 from notZero)]
      split at ok
      · next deferred =>
          rw [if_pos (show store.policy.deferred = true from deferred)]
          exact changed _ _ (by rfl) (by rfl) ok
      · next notDeferred =>
          rw [if_neg (show ¬ store.policy.deferred = true from notDeferred)]
          exact changed _ _ (by rfl) (by rfl) ok

/-! ## Rows and shards -/

/-- Loading a row inserts its record, if it has one, at its contract. -/
theorem tryIngestRow_metadata {canonicalizeJsonStrict : Canonicalizer} {row : InputRow}
    (valid : Valid store) (ok : store.tryIngestRow canonicalizeJsonStrict row = .ok next)
    (name : ContractName) :
    next.metadataOf name =
      (row.recordsFor canonicalizeJsonStrict name).foldl (store.policy.insert name.1)
        (store.metadataOf name) := by
  unfold tryIngestRow at ok
  unfold InputRow.recordsFor
  split at ok
  · next skipped =>
      cases ok
      rw [if_neg (by simp [skipped])]
      rfl
  · next notSkipped =>
      rcases bind_eq_ok ok with ⟨⟨chainId, chained⟩, chainOk, rest⟩
      rcases ensureChain_spec valid chainOk with ⟨chainValid, chainExtends, chainAt, _⟩
      rcases bind_eq_ok rest with ⟨⟨contractId, contracted⟩, contractOk, rest⟩
      rcases ensureContract_spec chainValid (List.getElem?_eq_some_iff.mp chainAt).1
        contractOk with ⟨contractValid, contractExtends, keyAt, _⟩
      have contractAt : ContractAt contracted contractId chainId row.contractName :=
        ⟨contractExtends.chain chainAt, keyAt⟩
      rcases bind_eq_ok rest with ⟨described, metadataOk, nftOk⟩
      rcases ingestMetadata_spec contractValid (contractExtends.chain chainAt) keyAt
        metadataOk with ⟨metadataValid, metadataExtends⟩
      rcases ingestNft_spec metadataValid (metadataExtends.contract keyAt) nftOk with
        ⟨_, nftExtends, sameAnchors⟩
      have afterNft : next.metadataOf name = described.metadataOf name := by
        rw [metadataOf, metadataOf,
          described_of_same metadataValid nftExtends sameAnchors]
      have beforeRecord : contracted.metadataOf name = store.metadataOf name := by
        rw [ensureContract_metadata contractOk, metadataOf, metadataOf,
          ensureChain_described valid chainOk]
      have samePolicy : contracted.policy = store.policy :=
        (chainExtends.trans contractExtends).policy
      rw [afterNft]
      unfold ingestMetadata at metadataOk
      cases validated : validatedMetadata canonicalizeJsonStrict row.metadataJson with
      | none =>
          simp only [validated, Except.ok.injEq] at metadataOk
          rw [← metadataOk, beforeRecord]
          split <;> rfl
      | some canonicalJson =>
          simp only [validated] at metadataOk
          rw [insertMetadataAnchor_metadata contractValid contractAt metadataOk,
            samePolicy, beforeRecord]
          by_cases same : name = row.contractName
          · have loaded : row.isSkipped = false := by simpa using notSkipped
            rw [if_pos same, if_pos ⟨loaded, same.symm⟩, ← same, beforeRecord]
            rfl
          · rw [if_neg same, if_neg fun both => same both.2.symm]
            rfl

theorem insertRecords_metadata (records : List MetadataRecord) :
    ∀ {store next : EntityStore}, Valid store →
      ContractAt store contractId chainId name →
      records.foldlM (fun store record =>
        store.insertMetadataAnchor contractId name.1 record) store = .ok next →
      ∀ other, next.metadataOf other =
        if other = name then
          records.foldl (store.policy.insert name.1) (store.metadataOf name)
        else store.metadataOf other := by
  induction records with
  | nil =>
      intro store next valid _ ok other
      cases ok
      split
      · next same => rw [same, foldl_nil]
      · rfl
  | cons record records induction =>
      intro store next valid contractAt ok other
      rw [foldlM_cons] at ok
      rcases bind_eq_ok ok with ⟨middle, middleOk, rest⟩
      rcases insertMetadataAnchor_spec valid contractAt.chain contractAt.key middleOk
        with ⟨middleValid, extension, _⟩
      have step := insertMetadataAnchor_metadata valid contractAt middleOk
      rw [induction middleValid (contractAt.extend extension) rest other,
        extension.policy, step name, step other, if_pos rfl]
      by_cases same : other = name
      · rw [if_pos same, if_pos same, foldl_cons]
      · rw [if_neg same, if_neg same, if_neg same]

variable {shard : EntityStore} {chainMap : List Nat}

/-- Merging a contract of the shard inserts its records one after the other. -/
theorem mergeContract_metadata {contractMap nextMap : List Nat} {contract : Contract}
    (shardValid : Valid shard) (member : contract ∈ shard.contracts) (valid : Valid store)
    (chains : List.Forall₂ (fun chain id => store.chains[id]? = some chain)
      shard.chains chainMap)
    (ok : mergeContract chainMap (contractMap, store) contract = .ok (nextMap, next))
    (other : ContractName) :
    next.metadataOf other =
      if other = shard.contractName contract then
        contract.metadataByToken.foldl (store.policy.insert other.1)
          (store.metadataOf other)
      else store.metadataOf other := by
  rcases bind_eq_ok ok with ⟨chainId, chainOk, rest⟩
  have mapAt := indexed_inversion chainOk
  have shardInside := shardValid.contractChains contract member
  have mapInside : contract.chainId < chainMap.length := chains.length_eq ▸ shardInside
  have related := (forall₂_iff_get.mp chains).2 contract.chainId shardInside
    mapInside
  rw [List.getElem?_eq_getElem mapInside] at mapAt
  have chainAt : store.chains[chainId]? = some shard.chains[contract.chainId] :=
    Option.some.inj mapAt ▸ related
  have name : shard.contractName contract =
      (shard.chains[contract.chainId], contract.address) := by
    rw [contractName, List.getElem?_eq_getElem shardInside, Option.getD_some]
  rcases bind_eq_ok rest with ⟨⟨contractId, contracted⟩, contractOk, rest⟩
  rcases ensureContract_spec valid (List.getElem?_eq_some_iff.mp chainAt).1 contractOk
    with ⟨contractValid, extension, keyAt, _⟩
  have contractAt : ContractAt contracted contractId chainId
      (shard.contractName contract) := by
    rw [name]
    exact ⟨extension.chain chainAt, keyAt⟩
  rcases bind_eq_ok rest with ⟨assigned, _, rest⟩
  rcases bind_eq_ok rest with ⟨chainName, nameOk, rest⟩
  have sameChain : chainName = (shard.contractName contract).1 := by
    have found := indexed_inversion nameOk
    rw [contractAt.chain] at found
    exact (Option.some.inj found).symm
  subst sameChain
  rcases bind_eq_ok rest with ⟨described, recordsOk, last⟩
  cases last
  rw [insertRecords_metadata _ contractValid contractAt recordsOk other,
    extension.policy, ensureContract_metadata contractOk,
    ensureContract_metadata contractOk]
  by_cases same : other = shard.contractName contract
  · rw [if_pos same, if_pos same, same]
  · rw [if_neg same, if_neg same]

theorem mergeContracts_metadata (shardValid : Valid shard) :
    ∀ (rest : List Contract) {store next : EntityStore} {contractMap nextMap : List Nat},
      (∀ contract ∈ rest, contract ∈ shard.contracts) →
      (rest.map shard.contractName).Nodup → Valid store →
      List.Forall₂ (fun chain id => store.chains[id]? = some chain)
        shard.chains chainMap →
      rest.foldlM (mergeContract chainMap) (contractMap, store) = .ok (nextMap, next) →
      ∀ other, next.metadataOf other =
        (((rest.map fun contract => (shard.contractName contract,
          contract.metadataByToken)).lookup other).getD []).foldl
            (store.policy.insert other.1) (store.metadataOf other) := by
  intro rest
  induction rest with
  | nil =>
      intro store next contractMap nextMap _ _ _ _ ok other
      cases ok
      rfl
  | cons contract rest induction =>
      intro store next contractMap nextMap members nodup valid chains ok other
      rw [foldlM_cons] at ok
      rcases bind_eq_ok ok with ⟨⟨middleMap, middle⟩, stepOk, restOk⟩
      have inRange : ∀ id ∈ chainMap, id < store.chains.length :=
        inside_of_forall₂ chains
      rcases mergeContract_spec valid inRange stepOk with ⟨middleValid, extension⟩
      rw [map_cons, nodup_cons] at nodup
      have step := mergeContract_metadata shardValid (members contract (by simp)) valid
        chains stepOk
      rw [induction (fun later member => members later (mem_cons_of_mem _ member))
        nodup.2 middleValid (chains.imp fun _ _ found => extension.chain found) restOk
        other, extension.policy, step other, map_cons, lookup_cons]
      by_cases same : other = shard.contractName contract
      · have absent : other ∉ (rest.map fun contract =>
            (shard.contractName contract, contract.metadataByToken)).map Prod.fst := by
          rw [map_map]
          rw [same]
          exact nodup.1
        rw [if_pos same, lookup_eq_none_of_notMem absent, beq_iff_eq.mpr same]
        rfl
      · rw [if_neg same, beq_eq_false_iff_ne.mpr same]

/-- Numbering keys leaves the metadata when numbering one key does. -/
theorem mapKeys_described
    {ensure : EntityStore → Text → Except DedupError (Nat × EntityStore)}
    (step : ∀ store key id next, Valid store → ensure store key = .ok (id, next) →
      Valid next ∧ next.described = store.described) :
    ∀ (keys : List Text) {store next : EntityStore} {ids : List Nat}, Valid store →
      mapKeys ensure store keys = .ok (ids, next) →
      next.described = store.described := by
  intro keys
  induction keys with
  | nil =>
      intro store next ids _ ok
      cases ok
      rfl
  | cons key keys induction =>
      intro store next ids valid ok
      rcases bind_eq_ok ok with ⟨⟨id, middle⟩, ensureOk, rest⟩
      rcases step store key id middle valid ensureOk with ⟨middleValid, same⟩
      rcases bind_eq_ok rest with ⟨⟨restIds, final⟩, restOk, last⟩
      cases last
      rw [induction middleValid restOk, same]

/-- Merging a shard inserts the anchors of each of its contracts. -/
theorem mergeShard_metadata (valid : Valid store) (shardValid : Valid shard)
    (ok : store.mergeShard shard = .ok next) (name : ContractName) :
    next.metadataOf name =
      (shard.metadataOf name).foldl (store.policy.insert name.1)
        (store.metadataOf name) := by
  rcases bind_eq_ok ok with ⟨⟨chainMap, chained⟩, chainsOk, rest⟩
  rcases mapChains_spec valid chainsOk with ⟨chainValid, chainExtends, chainsAt⟩
  rcases bind_eq_ok rest with ⟨⟨stringMap, interned⟩, stringsOk, rest⟩
  rcases mapStrings_spec chainValid stringsOk with
    ⟨stringValid, stringExtends, stringsAt⟩
  rcases bind_eq_ok rest with ⟨⟨contractMap, contracted⟩, contractsOk, nftsOk⟩
  have chainsSame : chained.described = store.described :=
    mapKeys_described (fun _ _ _ _ valid ok =>
      ⟨(ensureChain_spec valid ok).1, ensureChain_described valid ok⟩)
      shard.chains valid chainsOk
  have stringsSame : interned.described = chained.described :=
    mapKeys_described (fun _ _ _ _ valid ok =>
      let only := (internString_only valid ok).1
      ⟨only.valid, only.described valid⟩)
      shard.strings chainValid stringsOk
  have inRange : ∀ id ∈ chainMap, id < interned.chains.length := fun id member =>
    (inside_of_forall₂ chainsAt id member).trans_le stringExtends.chains.length_le
  have contracts := mergeContracts_metadata shardValid shard.contracts
    (fun _ member => member) (contractNames_nodup shardValid) stringValid
    (chainsAt.imp fun _ _ found => stringExtends.chain found) contractsOk name
  have contractsKept := mergeContracts_spec stringValid inRange contractsOk
  have nfts := foldlM_induction
    (fun state => Valid state ∧ Extends interned state ∧
      state.described = contracted.described)
    (fun state nft after holds step => by
      have strings : ∀ id ∈ stringMap, id < state.strings.length := fun id member =>
        (inside_of_forall₂ stringsAt id member).trans_le holds.2.1.strings.length_le
      rcases mergeNft_spec holds.1 strings step with ⟨afterValid, extension, same⟩
      exact ⟨afterValid, holds.2.1.trans extension,
        (described_of_same holds.1 extension same).trans holds.2.2⟩)
    _ ⟨contractsKept.1, contractsKept.2, rfl⟩ nftsOk
  have lastSame : next.metadataOf name = contracted.metadataOf name := by
    rw [metadataOf, metadataOf, nfts.2.2]
  have firstSame : interned.metadataOf name = store.metadataOf name := by
    rw [metadataOf, metadataOf, stringsSame, chainsSame]
  rw [lastSame, contracts, firstSame, (chainExtends.trans stringExtends).policy]
  rfl

end EntityStore

end NftData.Dedup
