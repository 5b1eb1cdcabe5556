import NftData.Foundation.KeyIndex
import NftData.Dedup.Entity.Anchors

namespace NftData.Dedup.EntityStore

open Function

/-! # Representation invariant

The tables of a store describe one another: identifiers are positions, every
map is the inverse of the vector it indexes, counters count, and anchor lists
are sorted. Each primitive operation keeps all of this, so every store the
loader can build has it. -/

open List

def contractsOn (store : EntityStore) (chainId : Nat) : Nat :=
  (store.contracts.map Contract.chainId).count chainId

def nftsOn (store : EntityStore) (chainId : Nat) : Nat :=
  store.nfts.countP fun nft =>
    (store.contracts.map Contract.chainId)[nft.contractId]? == some chainId

def isEvm (store : EntityStore) (chainId : Nat) : Bool :=
  store.chains[chainId]?.any fun chain => decide (chain ∈ store.evmChains)

structure Valid (store : EntityStore) : Prop where
  contractIds : ∀ (position : Nat) contract,
    store.contracts[position]? = some contract → contract.id = position
  nftIds : ∀ (position : Nat) nft, store.nfts[position]? = some nft → nft.id = position
  chainKeys : IsInverse store.chains store.chainIds
  stringKeys : IsInverse store.strings store.stringIds
  contractKeys : IsInverse (store.contracts.map Contract.key) store.contractIndex
  nftKeys : IsInverse (store.nfts.map Nft.key) store.nftIndex
  contractChains : ∀ contract ∈ store.contracts, contract.chainId < store.chains.length
  nftContracts : ∀ nft ∈ store.nfts, nft.contractId < store.contracts.length
  nftNames : ∀ nft ∈ store.nfts, ∀ id ∈ nft.nameId, id < store.strings.length
  nftTokenUris : ∀ nft ∈ store.nfts, ∀ id ∈ nft.tokenUriId, id < store.strings.length
  nftImageUris : ∀ nft ∈ store.nfts, ∀ id ∈ nft.imageUriId, id < store.strings.length
  nftCounts : ∀ contract ∈ store.contracts,
    contract.nftCount = store.nfts.countP fun nft => nft.contractId == contract.id
  totals : ∀ chainId, store.totals chainId =
    if chainId < store.chains.length then
      some ⟨store.contractsOn chainId, store.nftsOn chainId⟩
    else
      none
  rowsLoaded : store.rowsLoaded = store.nfts.length
  chainCapacity : store.chains.length ≤ chainIdCapacity
  stringCapacity : store.strings.length ≤ stringIdCapacity
  contractCapacity : store.contracts.length ≤ contractIdCapacity
  nftCapacity : store.nfts.length ≤ nftIdCapacity
  deferredUnbounded : store.deferMetadataSort = true → store.metadataAnchorLimit = none
  anchorsBounded : ∀ contract ∈ store.contracts, ∀ limit ∈ store.metadataAnchorLimit,
    contract.metadataByToken.length ≤ limit
  anchorsSorted : store.deferMetadataSort = false → ∀ contract ∈ store.contracts,
    AnchorsSorted (store.isEvm contract.chainId) contract.metadataByToken

/-- What every operation leaves in place: options, and all identifiers issued. -/
structure Extends (store next : EntityStore) : Prop where
  chains : store.chains <+: next.chains
  strings : store.strings <+: next.strings
  contracts : store.contracts.map Contract.key <+: next.contracts.map Contract.key
  limit : next.metadataAnchorLimit = store.metadataAnchorLimit
  deferred : next.deferMetadataSort = store.deferMetadataSort
  evm : next.evmChains = store.evmChains

variable {position id : Nat} {value : Text}

namespace Extends

variable {store middle next : EntityStore}

theorem refl (store : EntityStore) : Extends store store :=
  ⟨prefix_rfl, prefix_rfl, prefix_rfl, rfl, rfl, rfl⟩

theorem trans (first : Extends store middle) (second : Extends middle next) :
    Extends store next where
  chains := first.chains.trans second.chains
  strings := first.strings.trans second.strings
  contracts := first.contracts.trans second.contracts
  limit := second.limit.trans first.limit
  deferred := second.deferred.trans first.deferred
  evm := second.evm.trans first.evm

private theorem getElem?_of_prefix {α : Type*} {short long : List α} {value : α}
    (isPrefix : short <+: long) (found : short[position]? = some value) :
    long[position]? = some value := by
  rcases isPrefix with ⟨rest, equal⟩
  rw [← equal, List.getElem?_append_left (List.getElem?_eq_some_iff.mp found).1]
  exact found

theorem chain (extension : Extends store next) {chain : Text}
    (found : store.chains[id]? = some chain) : next.chains[id]? = some chain :=
  getElem?_of_prefix extension.chains found

theorem string (extension : Extends store next) (found : store.strings[id]? = some value) :
    next.strings[id]? = some value :=
  getElem?_of_prefix extension.strings found

theorem contract (extension : Extends store next) {key : Nat × Text}
    (found : (store.contracts.map Contract.key)[id]? = some key) :
    (next.contracts.map Contract.key)[id]? = some key :=
  getElem?_of_prefix extension.contracts found

end Extends

theorem Valid.withOptions (limit : Option Nat) (evmChains : Finset Text) :
    Valid (EntityStore.withOptions limit evmChains) := by
  constructor <;> simp [EntityStore.withOptions, IsInverse]

theorem Valid.deferUnboundedMetadataSort (limit : Option Nat)
    (evmChains : Finset Text) :
    Valid (EntityStore.withOptions limit evmChains).deferUnboundedMetadataSort := by
  constructor <;>
    simp [EntityStore.withOptions, EntityStore.deferUnboundedMetadataSort, IsInverse]

/-! ## Numbering -/

variable {store : EntityStore} {chainId : Nat}

private theorem isEvm_append (chain : Text) (inside : chainId < store.chains.length)
    (chainIds : Text → Option Nat) (totals : Nat → Option ChainTotals) :
    isEvm { store with
      chains := store.chains ++ [chain], chainIds := chainIds, totals := totals }
        chainId = store.isEvm chainId := by
  simp [isEvm, List.getElem?_append_left inside]

variable {next : EntityStore}

/-- A key that is known has its identifier, another gets the next one. -/
theorem issue_cases {lookup : Option Nat} {grown : Nat → EntityStore} {capacity length : Nat}
    {message : String} (ok : (match lookup with
      | some id => .ok (id, store)
      | none => (tryFrom capacity length message).bind fun id => .ok (id, grown id)) =
        Except.ok (id, next)) :
    lookup = some id ∧ next = store ∨
      lookup = none ∧ id = length ∧ length < capacity ∧ next = grown length := by
  cases lookup with
  | some existing =>
      cases ok
      exact .inl ⟨rfl, rfl⟩
  | none =>
      rcases bind_eq_ok ok with ⟨issued, issuedOk, last⟩
      rcases tryFrom_inversion issuedOk with ⟨rfl, fits⟩
      cases last
      exact .inr ⟨rfl, rfl, fits, rfl⟩

/-- Numbering a chain: the store stays valid, only the chain tables and the new
chain's totals change, and the identifier names the chain. -/
theorem ensureChain_spec {chain : Text} (valid : Valid store)
    (ok : store.ensureChain chain = .ok (id, next)) :
    Valid next ∧ Extends store next ∧ next.chains[id]? = some chain ∧
      next = { store with
        chains := next.chains, chainIds := next.chainIds, totals := next.totals } := by
  rcases issue_cases ok with ⟨found, rfl⟩ | ⟨found, rfl, fits, rfl⟩
  · exact ⟨valid, .refl _, valid.chainKeys.get_of_lookup found, rfl⟩
  · have notOn : ∀ contract ∈ store.contracts,
        contract.chainId ≠ store.chains.length := fun contract member =>
      Nat.ne_of_lt (valid.contractChains contract member)
    refine ⟨{ valid with
      chainKeys := valid.chainKeys.push found
      contractChains := ?_
      totals := ?_
      chainCapacity := by simpa using fits
      anchorsSorted := ?_ }, ?_, by simp, rfl⟩
    · intro contract member
      have := valid.contractChains contract member
      simp only [length_append, length_singleton]
      omega
    · intro other
      by_cases isNew : other = store.chains.length
      · subst isNew
        have noContracts : store.contractsOn store.chains.length = 0 := by
          rw [contractsOn, count_eq_zero]
          intro member
          rcases mem_map.mp member with ⟨contract, inside, equal⟩
          exact notOn contract inside equal
        have noNfts : store.nftsOn store.chains.length = 0 := by
          rw [nftsOn, countP_eq_zero]
          intro nft member onChain
          have onChain := mem_of_getElem? (beq_iff_eq.mp onChain)
          rcases mem_map.mp onChain with ⟨contract, inside, equal⟩
          exact notOn contract inside equal
        simp only [update_self, length_append, length_singleton,
          Nat.lt_succ_self, if_true]
        exact congrArg some (congrArg₂ ChainTotals.mk noContracts noNfts).symm
      · have := valid.totals other
        simp only [update_of_ne isNew, this, length_append,
          length_singleton]
        have sameRange : other < store.chains.length + 1 ↔
            other < store.chains.length := by omega
        simp only [sameRange]
        rfl
    · intro notDeferred contract member
      rw [isEvm_append chain (valid.contractChains contract member)]
      exact valid.anchorsSorted notDeferred contract member
    · exact ⟨⟨[chain], rfl⟩, prefix_rfl, prefix_rfl, rfl, rfl, rfl⟩

/-- Interning a string touches the string tables only. -/
theorem internString_spec (valid : Valid store) (ok : store.internString value = .ok (id, next)) :
    Valid next ∧ Extends store next ∧ next.strings[id]? = some value ∧
      next = { store with strings := next.strings, stringIds := next.stringIds } := by
  rcases issue_cases ok with ⟨found, rfl⟩ | ⟨found, rfl, fits, rfl⟩
  · exact ⟨valid, .refl _, valid.stringKeys.get_of_lookup found, rfl⟩
  · have grown : ∀ {position : Nat}, position < store.strings.length →
        position < (store.strings ++ [value]).length := by
      intro position inside
      simp only [length_append, length_singleton]
      omega
    refine ⟨{ valid with
      stringKeys := valid.stringKeys.push found
      nftNames := fun nft member id isName =>
        grown (valid.nftNames nft member id isName)
      nftTokenUris := fun nft member id isUri =>
        grown (valid.nftTokenUris nft member id isUri)
      nftImageUris := fun nft member id isUri =>
        grown (valid.nftImageUris nft member id isUri)
      stringCapacity := by simpa using fits }, ?_, by simp, rfl⟩
    exact ⟨prefix_rfl, ⟨[value], rfl⟩, prefix_rfl, rfl, rfl, rfl⟩

/-- Appending one record to a vector whose records carry their position. -/
private theorem ids_push {α : Type*} {values : List α} {idOf : α → Nat} {value : α}
    (ids : ∀ (position : Nat) existing, values[position]? = some existing →
      idOf existing = position)
    (isNext : idOf value = values.length) (position : Nat) (found : α)
    (atPosition : (values ++ [value])[position]? = some found) :
    idOf found = position := by
  rw [List.getElem?_append] at atPosition
  split at atPosition
  · exact ids position found atPosition
  · next outside =>
      cases offset : position - values.length with
      | zero =>
          rw [offset] at atPosition
          have : value = found := by simpa using atPosition
          subst this
          omega
      | succ rest => simp [offset] at atPosition

variable {address : Text}

/-- Finding or creating a contract on a known chain. -/
theorem ensureContract_spec (valid : Valid store) (inside : chainId < store.chains.length)
    (ok : store.ensureContract chainId address = .ok (id, next)) :
    Valid next ∧ Extends store next ∧
      (next.contracts.map Contract.key)[id]? = some (chainId, address) ∧
      next = { store with
        contracts := next.contracts, contractIndex := next.contractIndex
        totals := next.totals } := by
  rcases issue_cases ok with ⟨found, rfl⟩ | ⟨found, rfl, fits, rfl⟩
  · exact ⟨valid, .refl _, valid.contractKeys.get_of_lookup found, rfl⟩
  · have noNfts : (store.nfts.countP fun nft =>
        nft.contractId == store.contracts.length) = 0 := by
      rw [countP_eq_zero]
      intro nft member equal
      exact Nat.ne_of_lt (valid.nftContracts nft member) (beq_iff_eq.mp equal)
    have sameNfts : ∀ chain, (store.nfts.countP fun nft =>
        (store.contracts.map Contract.chainId ++ [chainId])[nft.contractId]? ==
          some chain) = store.nftsOn chain := by
      intro chain
      apply countP_congr
      intro nft member
      rw [List.getElem?_append_left (by simpa using valid.nftContracts nft member)]
    refine ⟨{ valid with
      contractIds := ids_push valid.contractIds rfl
      contractKeys := ?_
      contractChains := ?_
      nftContracts := ?_
      nftCounts := ?_
      totals := ?_
      contractCapacity := by simpa [updateTotals] using fits
      anchorsBounded := ?_
      anchorsSorted := ?_ }, ?_, by simp [updateTotals, Contract.key], rfl⟩
    · simpa [updateTotals, Contract.key] using valid.contractKeys.push found
    · intro contract member
      rcases mem_append.mp member with old | new
      · exact valid.contractChains contract old
      · rw [mem_singleton.mp new]
        exact inside
    · intro nft member
      have := valid.nftContracts nft member
      simp only [updateTotals, length_append, length_singleton]
      omega
    · intro contract member
      rcases mem_append.mp member with old | new
      · exact valid.nftCounts contract old
      · rw [mem_singleton.mp new]
        exact noNfts.symm
    · intro other
      have old := valid.totals other
      by_cases same : other = chainId
      · subst same
        rw [if_pos inside] at old
        simp only [updateTotals, update_self, old, Option.getD_some,
          contractsOn, nftsOn, if_pos inside, map_append, map_cons,
          map_nil, count_append, count_singleton_self, sameNfts]
      · simp only [updateTotals, update_of_ne same, old, contractsOn, nftsOn,
          map_append, map_cons, map_nil, count_append, sameNfts,
          count_singleton, beq_eq_false_iff_ne.mpr (Ne.symm same),
          Bool.false_eq_true, if_false, Nat.add_zero]
    · intro contract member
      rcases mem_append.mp member with old | new
      · exact valid.anchorsBounded contract old
      · rw [mem_singleton.mp new]
        intro limit _
        exact Nat.zero_le limit
    · intro notDeferred contract member
      rcases mem_append.mp member with old | new
      · exact valid.anchorsSorted notDeferred contract old
      · rw [mem_singleton.mp new]
        exact .nil
    · exact ⟨prefix_rfl, prefix_rfl, by simp [updateTotals], rfl, rfl, rfl⟩

/-! ## Changing a record in place -/

variable {contractId : Nat}

theorem updateContract_inversion {change : Contract → Contract}
    (ok : store.updateContract contractId change = .ok next) :
    ∃ contract, store.contracts[contractId]? = some contract ∧
      next = { store with
        contracts := store.contracts.set contractId (change contract) } := by
  rcases bind_eq_ok ok with ⟨contract, contractOk, rest⟩
  unfold indexed at contractOk
  split at contractOk
  · next existing found =>
      cases contractOk
      exact ⟨contract, found, (Except.ok.inj rest).symm⟩
  · cases contractOk

theorem indexed_inversion {α : Type} {values : List α} {value : α}
    (ok : indexed values position = .ok value) : values[position]? = some value := by
  unfold indexed at ok
  split at ok
  · next existing found =>
      cases ok
      exact found
  · cases ok

/-- Replacing an element by one with the same image changes no image. -/
theorem map_set_of_eq {α β : Type*} {values : List α} {old new : α} (transform : α → β)
    (found : values[position]? = some old) (equal : transform new = transform old) :
    (values.set position new).map transform = values.map transform := by
  apply ext_getElem?
  intro index
  rw [map_set, List.getElem?_set]
  split
  · next same =>
      subst same
      split
      · simp [found, equal]
      · next outside =>
          have := (List.getElem?_eq_some_iff.mp found).1
          simp only [length_map] at outside
          omega
  · rfl

private theorem ids_set {α : Type*} {values : List α} {idOf : α → Nat} {old new : α}
    {place : Nat} (ids : ∀ (position : Nat) existing,
      values[position]? = some existing → idOf existing = position)
    (found : values[place]? = some old) (same : idOf new = idOf old)
    (position : Nat) (existing : α)
    (atPosition : (values.set place new)[position]? = some existing) :
    idOf existing = position := by
  rw [List.getElem?_set] at atPosition
  split at atPosition
  · next equal =>
      subst equal
      split at atPosition
      · cases atPosition
        rw [same]
        exact ids place old found
      · cases atPosition
  · exact ids position existing atPosition

private theorem forall_mem_set {α : Type*} {values : List α} {new : α} {property : α → Prop}
    (old : ∀ value ∈ values, property value) (isNew : property new) :
    ∀ value ∈ values.set position new, property value := by
  intro value member
  rcases mem_or_eq_of_mem_set member with inside | equal
  · exact old value inside
  · rw [equal]
    exact isNew

private theorem countP_set_of_eq {α β : Type*} {values : List α} {old new : α} (transform : α → β)
    (property : β → Bool) (found : values[position]? = some old)
    (equal : transform new = transform old) :
    (values.set position new).countP (fun value => property (transform value)) =
      values.countP fun value => property (transform value) := by
  have same := congrArg (List.countP property) (map_set_of_eq transform found equal)
  rwa [countP_map, countP_map] at same

variable {old new : Contract}

/-- Replacing the anchors of a contract by a bounded and sorted list. -/
theorem Valid.setContract (valid : Valid store) (found : store.contracts[contractId]? = some old)
    (sameId : new.id = old.id) (sameKey : new.key = old.key)
    (sameCount : new.nftCount = old.nftCount) (bounded : ∀ limit ∈ store.metadataAnchorLimit,
      new.metadataByToken.length ≤ limit) (sorted : store.deferMetadataSort = false →
      AnchorsSorted (store.isEvm new.chainId) new.metadataByToken) :
    Valid { store with contracts := store.contracts.set contractId new } := by
  have member := mem_of_getElem? found
  have sameChain : new.chainId = old.chainId := congrArg Prod.fst sameKey
  have sameChains := map_set_of_eq Contract.chainId found sameChain
  exact { valid with
    contractIds := ids_set valid.contractIds found sameId
    contractKeys := by
      rw [map_set_of_eq Contract.key found sameKey]
      exact valid.contractKeys
    contractChains := forall_mem_set valid.contractChains
      (sameChain ▸ valid.contractChains old member)
    nftContracts := by simpa using valid.nftContracts
    nftCounts := forall_mem_set valid.nftCounts (by
      rw [sameCount, sameId]
      exact valid.nftCounts old member)
    totals := by
      intro chainId
      simp only [contractsOn, nftsOn, sameChains]
      exact valid.totals chainId
    contractCapacity := by simpa using valid.contractCapacity
    anchorsBounded := forall_mem_set valid.anchorsBounded bounded
    anchorsSorted := fun notDeferred =>
      forall_mem_set (valid.anchorsSorted notDeferred) (sorted notDeferred) }

theorem setContract_extends (found : store.contracts[contractId]? = some old)
    (sameKey : new.key = old.key) :
    Extends store { store with contracts := store.contracts.set contractId new } where
  chains := prefix_rfl
  strings := prefix_rfl
  contracts := by rw [map_set_of_eq Contract.key found sameKey]
  limit := rfl
  deferred := rfl
  evm := rfl

/-- Inserting a metadata record changes the anchors of one contract. -/
theorem insertMetadataAnchor_spec {chain : Text} {record : MetadataRecord} (valid : Valid store)
    (chainAt : store.chains[chainId]? = some chain)
    (contractAt : (store.contracts.map Contract.key)[contractId]? =
      some (chainId, address)) (ok : store.insertMetadataAnchor contractId chain record = .ok next)
    :
    Valid next ∧ Extends store next ∧
      next = { store with contracts := next.contracts } := by
  have isEvmEqual : store.isEvm chainId = decide (chain ∈ store.evmChains) := by
    simp [isEvm, chainAt]
  have chainOf : ∀ contract, store.contracts[contractId]? = some contract →
      contract.chainId = chainId := by
    intro contract found
    rw [List.getElem?_map, found] at contractAt
    exact congrArg Prod.fst (Option.some.inj contractAt)
  unfold insertMetadataAnchor at ok
  split at ok
  · cases ok
    exact ⟨valid, .refl store, rfl⟩
  split at ok
  · next deferred =>
      rcases updateContract_inversion ok with ⟨contract, found, equal⟩
      subst equal
      refine ⟨valid.setContract found rfl rfl rfl ?_ ?_,
        setContract_extends found rfl, rfl⟩
      · rw [valid.deferredUnbounded deferred]
        simp
      · simp [deferred]
  · next notDeferred =>
      have notDeferred := Bool.eq_false_iff.mpr notDeferred
      rcases updateContract_inversion ok with ⟨contract, found, equal⟩
      subst equal
      have member := mem_of_getElem? found
      have bounded := valid.anchorsBounded contract member
      have sorted := valid.anchorsSorted notDeferred contract member
      rw [chainOf contract found, isEvmEqual] at sorted
      refine ⟨valid.setContract found rfl rfl rfl ?_ ?_,
        setContract_extends found rfl, rfl⟩
      · exact insertAnchor_bounded record sorted bounded
      · intro _
        simp only [chainOf contract found, isEvmEqual]
        exact insertAnchor_sorted record sorted bounded

/-- Replacing the name and URIs of an NFT by identifiers of known strings. -/
theorem Valid.setNft (valid : Valid store) {nftId : Nat} {old new : Nft}
    (found : store.nfts[nftId]? = some old) (sameId : new.id = old.id) (sameKey : new.key = old.key)
    (name : ∀ id ∈ new.nameId, id < store.strings.length)
    (tokenUri : ∀ id ∈ new.tokenUriId, id < store.strings.length)
    (imageUri : ∀ id ∈ new.imageUriId, id < store.strings.length) :
    Valid { store with nfts := store.nfts.set nftId new } := by
  have member := mem_of_getElem? found
  have sameContract : new.contractId = old.contractId := congrArg Prod.fst sameKey
  have sameCount : ∀ property : Nat → Bool,
      ((store.nfts.set nftId new).countP fun nft => property nft.contractId) =
        store.nfts.countP fun nft => property nft.contractId :=
    fun property => countP_set_of_eq Nft.contractId property found sameContract
  exact { valid with
    nftIds := ids_set valid.nftIds found sameId
    nftKeys := by
      rw [map_set_of_eq Nft.key found sameKey]
      exact valid.nftKeys
    nftContracts := forall_mem_set valid.nftContracts
      (sameContract ▸ valid.nftContracts old member)
    nftNames := forall_mem_set valid.nftNames name
    nftTokenUris := forall_mem_set valid.nftTokenUris tokenUri
    nftImageUris := forall_mem_set valid.nftImageUris imageUri
    nftCounts := by
      intro contract contractMember
      rw [sameCount fun id => id == contract.id]
      exact valid.nftCounts contract contractMember
    totals := by
      intro chainId
      rw [valid.totals chainId]
      simp only [contractsOn, nftsOn]
      rw [sameCount fun id =>
        (store.contracts.map Contract.chainId)[id]? == some chainId]
    rowsLoaded := by simpa using valid.rowsLoaded
    nftCapacity := by simpa using valid.nftCapacity }

/-- Appending an NFT with a fresh key counts it on its contract and chain. -/
theorem insertNft_spec (nft : Nft) (valid : Valid store) (fresh : store.nftIndex nft.key = none)
    (onChain : (store.contracts.map Contract.chainId)[nft.contractId]? = some chainId)
    (name : ∀ id ∈ nft.nameId, id < store.strings.length)
    (tokenUri : ∀ id ∈ nft.tokenUriId, id < store.strings.length)
    (imageUri : ∀ id ∈ nft.imageUriId, id < store.strings.length)
    (ok : store.insertNft chainId nft = .ok next) :
    Valid next ∧ Extends store next ∧
      next = { store with
        nfts := store.nfts ++ [{ nft with id := store.nfts.length }]
        nftIndex := next.nftIndex, contracts := next.contracts
        totals := next.totals, rowsLoaded := next.rowsLoaded } := by
  rcases bind_eq_ok ok with ⟨issued, issuedOk, rest⟩
  rcases tryFrom_inversion issuedOk with ⟨issuedEqual, fits⟩
  subst issuedEqual
  rcases bind_eq_ok rest with ⟨counted, countedOk, last⟩
  rcases updateContract_inversion countedOk with ⟨contract, found, countedEqual⟩
  have found : store.contracts[nft.contractId]? = some contract := found
  cases last
  subst countedEqual
  have contractId : contract.id = nft.contractId := valid.contractIds _ _ found
  have contractMember := mem_of_getElem? found
  have isOnChain : contract.chainId = chainId := by
    simpa [found] using onChain
  have chainInside : chainId < store.chains.length :=
    isOnChain ▸ valid.contractChains contract contractMember
  have sameChains : (store.contracts.set nft.contractId
      { contract with nftCount := contract.nftCount + 1 }).map Contract.chainId =
      store.contracts.map Contract.chainId := map_set_of_eq Contract.chainId found rfl
  have sameKeys : (store.contracts.set nft.contractId
      { contract with nftCount := contract.nftCount + 1 }).map Contract.key =
      store.contracts.map Contract.key := map_set_of_eq Contract.key found rfl
  have eachNft : ∀ property : Nft → Prop, (∀ other ∈ store.nfts, property other) →
      property { nft with id := store.nfts.length } →
      ∀ other ∈ store.nfts ++ [{ nft with id := store.nfts.length }],
        property other := by
    intro property old new other member
    rcases mem_append.mp member with inside | isNew
    · exact old other inside
    · rw [mem_singleton.mp isNew]
      exact new
  refine ⟨{ valid with
    contractIds := ids_set valid.contractIds found rfl
    nftIds := ids_push valid.nftIds rfl
    contractKeys := ?_
    nftKeys := ?_
    contractChains :=
      forall_mem_set valid.contractChains (valid.contractChains contract contractMember)
    nftContracts := ?_
    nftNames := eachNft _ valid.nftNames name
    nftTokenUris := eachNft _ valid.nftTokenUris tokenUri
    nftImageUris := eachNft _ valid.nftImageUris imageUri
    nftCounts := ?_
    totals := ?_
    rowsLoaded := by simpa [updateTotals] using valid.rowsLoaded
    contractCapacity := by simpa [updateTotals] using valid.contractCapacity
    nftCapacity := by simpa [updateTotals] using fits
    anchorsBounded :=
      forall_mem_set valid.anchorsBounded (valid.anchorsBounded contract contractMember)
    anchorsSorted := fun notDeferred => forall_mem_set (valid.anchorsSorted notDeferred)
      (valid.anchorsSorted notDeferred contract contractMember) },
    ⟨prefix_rfl, prefix_rfl, ?_, rfl, rfl, rfl⟩, rfl⟩
  · simpa only [updateTotals, sameKeys] using valid.contractKeys
  · simpa [updateTotals, Nft.key] using valid.nftKeys.push fresh
  · simp only [updateTotals, length_set]
    exact eachNft _ valid.nftContracts (List.getElem?_eq_some_iff.mp found).1
  · intro other member
    rcases mem_iff_getElem?.mp member with ⟨position, atPosition⟩
    simp only [updateTotals, countP_append, countP_singleton] at atPosition ⊢
    rw [List.getElem?_set] at atPosition
    split at atPosition
    · next same =>
        split at atPosition
        · cases atPosition
          simp [valid.nftCounts contract contractMember, contractId]
        · cases atPosition
    · next different =>
        have otherId := valid.contractIds position other atPosition
        have notCounted : (nft.contractId == other.id) = false := by
          rw [otherId]
          exact beq_eq_false_iff_ne.mpr different
        rw [valid.nftCounts other (mem_of_getElem? atPosition), notCounted]
        simp
  · intro other
    simp only [updateTotals, contractsOn, nftsOn, sameChains, countP_append,
      countP_singleton, onChain]
    have old := valid.totals other
    simp only [contractsOn, nftsOn] at old
    by_cases same : other = chainId
    · subst same
      rw [if_pos chainInside] at old
      simp [old, chainInside]
    · have notCounted : (some chainId == some other) = false := by
        simpa using Ne.symm same
      simp only [update_of_ne same, old, notCounted, Bool.false_eq_true,
        if_false, Nat.add_zero]
  · simp only [updateTotals, sameKeys, prefix_rfl]

end NftData.Dedup.EntityStore
