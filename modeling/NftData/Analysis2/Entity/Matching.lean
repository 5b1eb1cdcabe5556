import NftData.Analysis2.Entity.Store
import NftData.Dedup.Entity.Merging

namespace NftData.Analysis2

open Function
open List
open Dedup (EntityStore)

/-! # Stores that match

The resident store keeps addresses and token ids as interned strings. Apart from that it is
numbered like the snapshot of the dedup crate, whose operations run in lock step with its
own. -/

namespace ResidentStore

/-- A contract without what the dedup crate does not record. -/
def viewContract (contract : Contract) : Dedup.Contract :=
  ⟨contract.id, contract.chainId, contract.address, contract.nftCount, []⟩

def viewTotals (totals : ChainTotals) : Dedup.ChainTotals :=
  ⟨totals.contracts, totals.nfts⟩

structure MatchesNft (strings : List Text) (nft : Nft) (image : Dedup.Nft) : Prop where
  contractId : image.contractId = nft.contractId
  token : strings[nft.tokenIdId]? = some image.tokenId
  nameId : image.nameId = nft.nameId
  tokenUriId : image.tokenUriId = nft.tokenUriId
  imageUriId : image.imageUriId = nft.imageUriId
  sourceOrder : image.sourceOrder = ⟨0, 0⟩

/-- An index by string identifier finds what the index by text finds. -/
def MatchesIndex (strings : List Text) (index : Nat × Nat → Option Nat)
    (image : Nat × Text → Option Nat) : Prop :=
  ∀ owner id, index (owner, id) = strings[id]?.bind fun value => image (owner, value)

def MatchesTotals (totals : Nat → Option ChainTotals)
    (image : Nat → Option Dedup.ChainTotals) : Prop :=
  ∀ chainId, image chainId = (totals chainId).map viewTotals

structure Matches (store : ResidentStore) (image : EntityStore) : Prop where
  valid : image.Valid
  chains : image.chains = store.chains
  chainIds : image.chainIds = store.chainIds
  strings : image.strings = store.strings.strings
  stringIds : image.stringIds = store.strings.lookup
  contracts : image.contracts = store.contracts.map viewContract
  contractIndex : MatchesIndex store.strings.strings store.contractIndex image.contractIndex
  addresses : ∀ contract ∈ store.contracts, contract.address ∈ store.strings.strings
  noNames : ∀ contract ∈ store.contracts, contract.nameId = none
  noMetadata : ∀ contract ∈ store.contracts, contract.metadataByToken = []
  nfts : List.Forall₂ (MatchesNft store.strings.strings) store.nfts image.nfts
  nftIndex : MatchesIndex store.strings.strings store.nftIndex image.nftIndex
  totals : MatchesTotals store.totals image.totals
  rowsLoaded : image.rowsLoaded = store.rowsLoaded

/-- Operations that return an identifier return the same one. -/
def MatchesWith {Id : Type} (result : Id × ResidentStore) (image : Id × EntityStore) : Prop :=
  image.1 = result.1 ∧ Matches result.2 image.2

theorem matches_withOptions (metadataAnchorLimit : Option Nat) (evmChains : Finset Text) :
    Matches (withOptions metadataAnchorLimit evmChains) (.withOptions none evmChains) := by
  constructor
  case valid => exact .withOptions none evmChains
  all_goals simp [withOptions, EntityStore.withOptions, StringPool.new, MatchesIndex,
    MatchesTotals]

variable {value : Text}

namespace MatchesIndex

variable {strings : List Text} {index : Nat × Nat → Option Nat}
  {image : Nat × Text → Option Nat}

/-- A string that occurs in no key can be interned. -/
theorem push (same : MatchesIndex strings index image)
    (unused : ∀ owner, image (owner, value) = none) :
    MatchesIndex (strings ++ [value]) index image := by
  intro owner id
  rw [same, List.getElem?_append]
  split
  · rfl
  · next outside =>
      rw [List.getElem?_eq_none (Nat.le_of_not_lt outside)]
      cases id - strings.length with
      | zero => exact (unused owner).symm
      | succ rest => rfl

theorem update (same : MatchesIndex strings index image) (distinct : strings.Nodup) {id : Nat}
    (found : strings[id]? = some value) (owner issued : Nat) :
    MatchesIndex strings (Function.update index (owner, id) (some issued))
      (Function.update image (owner, value) (some issued)) := by
  intro other otherId
  cases at_ : strings[otherId]? with
  | none =>
      have different : (other, otherId) ≠ (owner, id) := by
        intro equal
        rw [(Prod.mk.inj equal).2, found] at at_
        cases at_
      rw [update_of_ne different, same, at_]
      rfl
  | some text =>
      have sameKey : (other, otherId) = (owner, id) ↔ (other, text) = (owner, value) := by
        rw [Prod.mk.injEq, Prod.mk.injEq]
        apply and_congr_right
        intro _
        constructor
        · intro equal
          rw [equal, found] at at_
          exact (Option.some.inj at_).symm
        · intro equal
          rw [equal, ← found] at at_
          exact ((List.getElem?_inj (List.getElem?_eq_some_iff.mp found).1 distinct).mp
            at_.symm).symm
      by_cases equal : (other, otherId) = (owner, id)
      · rw [equal, update_self, Option.bind_some, sameKey.mp equal,
          update_self]
      · rw [update_of_ne equal, same, at_, Option.bind_some, Option.bind_some,
          update_of_ne fun keys => equal (sameKey.mpr keys)]

end MatchesIndex

variable {image : Nat → Option Dedup.ChainTotals} {totals : Nat → Option ChainTotals}

theorem MatchesTotals.update (same : MatchesTotals totals image) (chainId : Nat)
    (changed : ChainTotals) :
    MatchesTotals (Function.update totals chainId (some changed))
      (Function.update image chainId (some (viewTotals changed))) := by
  intro other
  by_cases equal : other = chainId
  · rw [equal, update_self, update_self]
    rfl
  · rw [update_of_ne equal, update_of_ne equal]
    exact same other

/-- The totals of a chain change in the same way. -/
theorem MatchesTotals.change (same : MatchesTotals totals image) (chainId contracts nfts : Nat) :
    MatchesTotals
      (Function.update totals chainId
        (some ⟨((totals chainId).getD .default).contracts + contracts,
          ((totals chainId).getD .default).nfts + nfts⟩))
      (Function.update image chainId
        (some ⟨((image chainId).getD .default).contracts + contracts,
          ((image chainId).getD .default).nfts + nfts⟩)) := by
  have current : (image chainId).getD .default =
      viewTotals ((totals chainId).getD .default) := by
    rw [same chainId]
    cases totals chainId <;> rfl
  rw [current]
  exact same.update chainId ⟨_, _⟩

/-! ## Lock step -/

theorem tryFrom_lockStep (capacity length : Nat) (message other : String) :
    LockStep (fun id image => image = id ∧ id = length) (tryFrom capacity length message)
      (Dedup.tryFrom capacity length other) := by
  rw [tryFrom, Dedup.tryFrom]
  split
  · exact ⟨rfl, rfl⟩
  · exact trivial

theorem indexed_lockStep {α β : Type} {Related : α → β → Prop} {values : List α}
    {images : List β} (related : List.Forall₂ Related values images) (position : Nat) :
    LockStep (fun value image => Related value image ∧ values[position]? = some value ∧
      images[position]? = some image) (indexed values position)
      (Dedup.indexed images position) := by
  rw [indexed, Dedup.indexed]
  induction related generalizing position with
  | nil => exact trivial
  | cons head _ induction =>
      cases position with
      | zero => exact ⟨head, rfl, rfl⟩
      | succ position => exact induction position

theorem indexed_map_lockStep {α β : Type} (values : List α) (view : α → β) (position : Nat) :
    LockStep (fun value image => image = view value ∧ values[position]? = some value)
      (indexed values position) (Dedup.indexed (values.map view) position) := by
  rw [indexed, Dedup.indexed, List.getElem?_map]
  cases values[position]? with
  | none => exact trivial
  | some value => exact ⟨rfl, rfl⟩

theorem indexed_same_lockStep {α : Type} (values : List α) (position : Nat) :
    LockStep (fun value image => image = value ∧ values[position]? = some value)
      (indexed values position) (Dedup.indexed values position) := by
  have same := indexed_map_lockStep values id position
  rwa [map_id] at same

theorem assign_lockStep (values : List Nat) (position value : Nat) :
    LockStep (fun assigned image => image = assigned) (assign values position value)
      (EntityStore.assign values position value) := by
  rw [assign, EntityStore.assign]
  split
  · rfl
  · exact trivial

section Matches

variable {store : ResidentStore} {image : EntityStore}

/-- An image that an operation of the dedup crate leaves valid needs no second look. -/
def MatchesIfValid (store : ResidentStore) (image : EntityStore) : Prop :=
  image.Valid → Matches store image

theorem lockStep_matches {step : Except Analysis2Error ResidentStore}
    {imageStep : Except Dedup.DedupError EntityStore}
    (valid : ∀ next, imageStep = .ok next → next.Valid)
    (lockStep : LockStep MatchesIfValid step imageStep) : LockStep Matches step imageStep := by
  apply lockStep.weaken
  intro next other _ otherOk related
  exact related (valid other otherOk)

theorem lockStep_matchesWith {Id : Type} {step : Except Analysis2Error (Id × ResidentStore)}
    {imageStep : Except Dedup.DedupError (Id × EntityStore)}
    (valid : ∀ id next, imageStep = .ok (id, next) → next.Valid)
    (lockStep : LockStep (fun result image => image.1 = result.1 ∧
      MatchesIfValid result.2 image.2) step imageStep) :
    LockStep MatchesWith step imageStep := by
  apply lockStep.weaken
  intro result next _ nextOk both
  exact ⟨both.1, both.2 (valid next.1 next.2 nextOk)⟩

variable {chainId : Nat}

section

variable (same : Matches store image)
include same

theorem Matches.ensureChain (chain : Text) :
    LockStep MatchesWith (store.ensureChain chain) (image.ensureChain chain) := by
  apply lockStep_matchesWith fun id next ok => (EntityStore.ensureChain_spec same.valid ok).1
  rw [ResidentStore.ensureChain, EntityStore.ensureChain, same.chainIds, same.chains]
  cases found : store.chainIds chain with
  | some id => exact ⟨rfl, fun _ => same⟩
  | none =>
      apply (tryFrom_lockStep _ _ _ _).bind
      intro id imageId _ _ equal
      rcases equal with ⟨rfl, rfl⟩
      exact ⟨rfl, fun valid => { same with
        valid := valid
        chains := rfl
        chainIds := rfl
        totals := same.totals.update _ _ }⟩

/-- No key of the store has a string that is not interned. -/
theorem Matches.contractIndex_unused (fresh : value ∉ store.strings.strings) (chainId : Nat) :
    image.contractIndex (chainId, value) = none := by
  rw [same.valid.contractKeys.lookup_eq_none_iff, same.contracts, map_map]
  intro member
  rcases mem_map.mp member with ⟨contract, inside, equal⟩
  have address : contract.address = value := congrArg Prod.snd equal
  exact fresh (address ▸ same.addresses contract inside)

theorem Matches.nftIndex_unused (fresh : value ∉ store.strings.strings) (contractId : Nat) :
    image.nftIndex (contractId, value) = none := by
  rw [same.valid.nftKeys.lookup_eq_none_iff]
  intro member
  rcases mem_map.mp member with ⟨other, inside, equal⟩
  rcases mem_iff_getElem?.mp inside with ⟨position, otherAt⟩
  rcases List.getElem?_eq_some_iff.mp otherAt with ⟨within, otherEqual⟩
  have related := (forall₂_iff_get.mp same.nfts).2 position
    (same.nfts.length_eq ▸ within) within
  have token : other.tokenId = value := congrArg Prod.snd equal
  have found := related.token
  simp only [get_eq_getElem, otherEqual, token] at found
  exact fresh (mem_of_getElem? found)

theorem Matches.intern (value : Text) :
    LockStep MatchesWith (store.intern value) (image.internString value) := by
  apply lockStep_matchesWith fun id next ok => (EntityStore.internString_spec same.valid ok).1
  rw [ResidentStore.intern, withStrings, StringPool.intern, EntityStore.internString,
    same.stringIds, same.strings, Dedup.tryFrom]
  cases found : store.strings.lookup value with
  | some id => exact ⟨rfl, fun _ => same⟩
  | none =>
      change LockStep _ ((if store.strings.strings.length < 2 ^ 32 then _ else _) >>= _)
        ((if store.strings.strings.length < 2 ^ 32 then _ else _) >>= _)
      split
      · have fresh : value ∉ store.strings.strings := by
          have notFound := (same.valid.stringKeys.lookup_eq_none_iff value).mp
          rw [same.stringIds, same.strings] at notFound
          exact notFound found
        refine ⟨rfl, fun valid => { same with
          valid := valid
          strings := rfl
          stringIds := rfl
          contractIndex := same.contractIndex.push (same.contractIndex_unused fresh)
          addresses := ?_
          nfts := ?_
          nftIndex := same.nftIndex.push (same.nftIndex_unused fresh) }⟩
        · intro contract member
          exact mem_append_left _ (same.addresses contract member)
        · apply same.nfts.imp
          intro nft other related
          refine { related with token := ?_ }
          rw [List.getElem?_append_left (List.getElem?_eq_some_iff.mp related.token).1]
          exact related.token
      · exact trivial

theorem Matches.strings_nodup : store.strings.strings.Nodup :=
  same.strings ▸ same.valid.stringKeys.nodup

theorem Matches.ensureContract {addressId : Nat} {address : Text}
    (inside : chainId < store.chains.length)
    (addressAt : store.strings.strings[addressId]? = some address) :
    LockStep MatchesWith (store.ensureContract chainId addressId address)
      (image.ensureContract chainId address) := by
  apply lockStep_matchesWith fun id next ok =>
    (EntityStore.ensureContract_spec same.valid (same.chains ▸ inside) ok).1
  rw [ResidentStore.ensureContract, EntityStore.ensureContract, same.contractIndex, addressAt,
    Option.bind_some]
  cases found : image.contractIndex (chainId, address) with
  | some id => exact ⟨rfl, fun _ => same⟩
  | none =>
      rw [same.contracts, length_map]
      apply (tryFrom_lockStep _ _ _ _).bind
      intro id imageId _ _ equal
      rcases equal with ⟨rfl, rfl⟩
      refine ⟨rfl, fun valid => { same with
        valid := valid
        contracts := ?_
        contractIndex := same.contractIndex.update same.strings_nodup addressAt _ _
        addresses := ?_
        noNames := ?_
        noMetadata := ?_
        totals := same.totals.change chainId 1 0 }⟩
      · simp only [EntityStore.updateTotals, ResidentStore.updateTotals, map_append]
        rfl
      · intro contract member
        rcases mem_append.mp member with old | new
        · exact same.addresses contract old
        · rw [mem_singleton.mp new]
          exact mem_of_getElem? addressAt
      · intro contract member
        rcases mem_append.mp member with old | new
        · exact same.noNames contract old
        · rw [mem_singleton.mp new]
      · intro contract member
        rcases mem_append.mp member with old | new
        · exact same.noMetadata contract old
        · rw [mem_singleton.mp new]

end

variable {imageNft : Dedup.Nft} {nft : Nft}

theorem Matches.insertNft (same : Matches store image)
    (sameNft : MatchesNft store.strings.strings nft imageNft) :
    LockStep MatchesIfValid (store.insertNft chainId nft) (image.insertNft chainId imageNft) := by
  rw [ResidentStore.insertNft, EntityStore.insertNft, ← same.nfts.length_eq]
  apply (tryFrom_lockStep _ _ _ _).bind
  intro id imageId _ _ equal
  rcases equal with ⟨rfl, rfl⟩
  simp only [updateContract, EntityStore.updateContract, bind_assoc, same.contracts,
    sameNft.contractId]
  apply (indexed_map_lockStep _ _ _).bind
  intro contract imageContract _ _ both
  rcases both with ⟨rfl, contractAt⟩
  intro valid
  have member := mem_of_getElem? contractAt
  exact { same with
    valid := valid
    contracts := by
      change (store.contracts.map viewContract).set _ _ =
        List.map viewContract (store.contracts.set _ _)
      rw [map_set]
      rfl
    addresses := by
      intro other inside
      rcases mem_or_eq_of_mem_set inside with old | new
      · exact same.addresses other old
      · rw [new]
        exact same.addresses contract member
    noNames := by
      intro other inside
      rcases mem_or_eq_of_mem_set inside with old | new
      · exact same.noNames other old
      · rw [new]
        exact same.noNames contract member
    noMetadata := by
      intro other inside
      rcases mem_or_eq_of_mem_set inside with old | new
      · exact same.noMetadata other old
      · rw [new]
        exact same.noMetadata contract member
    nfts := by
      apply rel_append same.nfts
      exact .cons ⟨rfl, sameNft.token, sameNft.nameId, sameNft.tokenUriId,
        sameNft.imageUriId, sameNft.sourceOrder⟩ .nil
    nftIndex := by
      have key : imageNft.key = (nft.contractId, imageNft.tokenId) :=
        Prod.ext sameNft.contractId rfl
      rw [key]
      exact same.nftIndex.update same.strings_nodup sameNft.token _ _
    totals := same.totals.change chainId 0 1
    rowsLoaded := congrArg (· + 1) same.rowsLoaded }

theorem Matches.setNft (same : Matches store image) {nftId : Nat}
    (sameNft : MatchesNft store.strings.strings nft imageNft) :
    MatchesIfValid
      { store with
        nfts := store.nfts.set nftId nft }
      { image with
        nfts := image.nfts.set nftId imageNft } := by
  intro valid
  refine { same with
    valid := valid
    nfts := ?_ }
  rw [forall₂_iff_get]
  refine ⟨by simpa using same.nfts.length_eq, ?_⟩
  intro position inside imageInside
  simp only [get_eq_getElem, getElem_set]
  split
  · exact sameNft
  · exact (forall₂_iff_get.mp same.nfts).2 position (by simpa using inside)
      (by simpa using imageInside)

/-- The row of the dedup crate with the columns this loader keeps. -/
def viewRow (row : IdentityRow) : Dedup.InputRow where
  chain := row.chain
  contractAddress := row.contractAddress
  tokenId := row.tokenId
  nameNorm := row.nameNorm.trim
  tokenUriNorm := if row.tokenUriNorm.trim.isEmpty then [] else row.tokenUriNorm
  imageUriNorm := if row.imageUriNorm.trim.isEmpty then [] else row.imageUriNorm
  metadataJson := []
  sourceOrder := ⟨0, 0⟩

theorem withStrings_some (result : Except Analysis2Error (Nat × StringPool)) :
    store.withStrings (do
      let (id, pool) ← result
      .ok (some id, pool)) = (do
      let (id, store) ← store.withStrings result
      .ok (some id, store)) := by
  cases result <;> rfl

section

variable (same : Matches store image)
include same

theorem Matches.internSome (value : Text) :
    LockStep MatchesWith
      (store.withStrings do
        let (id, pool) ← store.strings.intern value
        .ok (some id, pool))
      (do
        let (id, image) ← image.internString value
        .ok (some id, image)) := by
  rw [withStrings_some]
  apply (same.intern value).bind
  intro result next _ _ related
  exact ⟨congrArg some related.1, related.2⟩

theorem Matches.internNonblank (value : Text) :
    LockStep MatchesWith (store.internNonblank value)
      (image.internUnless value.trim.isEmpty value.trim) := by
  rw [ResidentStore.internNonblank, StringPool.internNonblank, EntityStore.internUnless]
  split
  · exact ⟨rfl, same⟩
  · exact same.internSome value.trim

theorem Matches.internNonempty (value : Text) :
    LockStep MatchesWith (store.internNonempty value)
      (image.internUnless value.trim.isEmpty value) := by
  rw [ResidentStore.internNonempty, StringPool.internNonempty, EntityStore.internUnless]
  split
  · exact ⟨rfl, same⟩
  · exact same.internSome value

theorem Matches.mergeNameValue (existing : Option Nat) (incoming : Text) :
    LockStep MatchesWith (store.mergeNameValue existing incoming)
      (image.mergeNameValue existing incoming.trim) := by
  rw [ResidentStore.mergeNameValue, EntityStore.mergeNameValue, Text.trim_trim]
  cases existing with
  | some id => exact ⟨rfl, same⟩
  | none =>
      have interned := same.internNonblank incoming
      rw [EntityStore.internUnless] at interned
      cases blank : incoming.trim.isEmpty with
      | true | false => simpa [blank] using interned

theorem Matches.mergeUriValue (existing : Option Nat)
    (incoming field chain tokenId imageField : Text) (row : Dedup.InputRow) :
    LockStep MatchesWith (store.mergeUriValue existing incoming field chain tokenId)
      (image.mergeUriValue existing (if incoming.trim.isEmpty then [] else incoming)
        imageField row) := by
  unfold ResidentStore.mergeUriValue EntityStore.mergeUriValue
  cases blank : incoming.trim.isEmpty with
  | true => exact ⟨rfl, same⟩
  | false =>
      have present : incoming.isEmpty = false := by
        cases incoming with
        | nil => exact absurd blank (by decide)
        | cons head tail => rfl
      simp only [Bool.false_eq_true, if_false, present]
      cases existing with
      | none =>
          have interned := same.internNonempty incoming
          simpa [blank, EntityStore.internUnless] using interned
      | some id =>
          simp only [ResidentStore.string, StringPool.get, EntityStore.string, same.strings]
          rw [indexed, Dedup.indexed]
          cases store.strings.strings[id]? with
          | none => exact trivial
          | some text =>
              change LockStep MatchesWith (if text ≠ incoming then _ else _)
                (if text ≠ incoming then _ else _)
              split
              · exact trivial
              · exact ⟨rfl, same⟩

theorem Matches.mergeDuplicateNft (nftId : Nat) (row : IdentityRow) :
    LockStep Matches (store.mergeDuplicateNft nftId row)
      (image.mergeDuplicateNft nftId (viewRow row)) := by
  apply lockStep_matches fun next ok => (EntityStore.mergeDuplicateNft_spec same.valid ok).1
  rw [ResidentStore.mergeDuplicateNft, EntityStore.mergeDuplicateNft]
  apply (indexed_lockStep same.nfts nftId).bind
  intro existing imageExisting _ _ both
  rcases both with ⟨sameNft, _, _⟩
  have token : store.string existing.tokenIdId = .ok imageExisting.tokenId := by
    rw [ResidentStore.string, StringPool.get, indexed_eq_ok_iff]
    exact sameNft.token
  rw [token, sameNft.nameId, sameNft.tokenUriId, sameNft.imageUriId]
  apply (same.mergeNameValue existing.nameId row.nameNorm).bind
  intro named imageNamed _ _ name
  apply (name.2.mergeUriValue existing.tokenUriId row.tokenUriNorm _ _ _ _ _).bind
  intro tokenStore imageTokenStore _ _ tokenUri
  apply (tokenUri.2.mergeUriValue existing.imageUriId row.imageUriNorm _ _ _ _ _).bind
  intro imageStore lastImage _ _ imageUri
  apply (indexed_lockStep imageUri.2.nfts nftId).bind
  intro nft imageNft _ _ last
  apply imageUri.2.setNft
  exact ⟨last.1.contractId, last.1.token, name.1, tokenUri.1, imageUri.1,
    last.1.sourceOrder⟩

end

/-! ## Shards -/

theorem mapKeys_lockStep
    {ensure : ResidentStore → Text → Except Analysis2Error (Nat × ResidentStore)}
    {imageEnsure : EntityStore → Text → Except Dedup.DedupError (Nat × EntityStore)}
    (step : ∀ store image key, Matches store image →
      LockStep MatchesWith (ensure store key) (imageEnsure image key)) (keys : List Text) :
    ∀ {store : ResidentStore} {image : EntityStore}, Matches store image →
      LockStep (fun result image => image.1 = result.1 ∧ Matches result.2 image.2)
        (mapKeys ensure store keys) (EntityStore.mapKeys imageEnsure image keys) := by
  induction keys with
  | nil => exact fun same => ⟨rfl, same⟩
  | cons key keys induction =>
      intro store image same
      apply (step store image key same).bind
      intro result next _ _ first
      apply (induction first.2).bind
      intro rest last _ _ others
      exact ⟨congrArg₂ _ first.1 others.1, others.2⟩

/-- Interning a string that is known changes nothing. -/
theorem Matches.intern_known (same : Matches store image) (known : value ∈ store.strings.strings) :
    ∃ id, store.intern value = .ok (id, store) ∧
      store.strings.strings[id]? = some value := by
  have inverse := same.valid.stringKeys
  rw [same.strings, same.stringIds] at inverse
  rcases (inverse.lookup_isSome_iff value).mpr known with ⟨id, found⟩
  refine ⟨id, ?_, inverse.get_of_lookup found⟩
  rw [ResidentStore.intern, StringPool.intern, found]
  rfl

theorem Matches.mergeContract (same : Matches store image) (parseBytes : NumberParser)
    (chainMap contractMap : List Nat) {contract : Contract}
    (chains : ∀ id ∈ chainMap, id < store.chains.length)
    (addressKnown : contract.address ∈ store.strings.strings)
    (noMetadata : contract.metadataByToken = []) :
    LockStep (fun result image => image.1 = result.1 ∧ Matches result.2 image.2)
      (ResidentStore.mergeContract parseBytes chainMap (contractMap, store) contract)
      (EntityStore.mergeContract chainMap (contractMap, image) (viewContract contract)) := by
  rw [ResidentStore.mergeContract, EntityStore.mergeContract]
  apply (indexed_same_lockStep _ _).bind
  intro chainId imageChainId _ _ chain
  rcases chain with ⟨rfl, chainAt⟩
  rcases same.intern_known addressKnown with ⟨addressId, interned, addressAt⟩
  rw [interned, noMetadata]
  apply (same.ensureContract (chains _ (mem_of_getElem? chainAt)) addressAt).bind
  intro found imageFound _ _ contracted
  rcases found with ⟨contractId, next⟩
  rcases imageFound with ⟨imageId, imageNext⟩
  rcases contracted with ⟨rfl, nextSame⟩
  apply (assign_lockStep _ _ _).bind
  intro assigned imageAssigned _ _ equal
  rcases equal
  rw [nextSame.chains]
  apply (indexed_same_lockStep _ _).bind
  intro name imageName _ _ _
  exact ⟨rfl, nextSame⟩

theorem mergeMappedUri_lockStep (existing incoming : Option Nat) (field : Text)
    (contractId : Nat) (tokenId imageField imageToken : Text) (imageContract : Nat) :
    LockStep (fun id image => image = id)
      (mergeMappedUri existing incoming field contractId tokenId)
      (EntityStore.mergeMappedUri existing incoming imageField imageContract imageToken) := by
  unfold mergeMappedUri EntityStore.mergeMappedUri
  cases existing with
  | none => rfl
  | some existing =>
      cases incoming with
      | none => rfl
      | some incoming =>
          change LockStep _ (if existing = incoming then _ else _)
            (if existing = incoming then _ else _)
          split
          · rfl
          · exact trivial

theorem remapString_lockStep (stringMap : List Nat) (id : Option Nat) :
    LockStep (fun mapped image => image = mapped) (remapString stringMap id)
      (EntityStore.remapString stringMap id) := by
  cases id with
  | none => rfl
  | some id =>
      apply (indexed_same_lockStep stringMap id).bind
      intro mapped imageMapped _ _ equal
      exact congrArg some equal.1

variable {shardStrings : List Text} {stringMap : List Nat}

theorem remapNft_lockStep {strings : List Text}
    (mapped : List.Forall₂ (fun value id => strings[id]? = some value) shardStrings stringMap)
    (contractMap : List Nat) (sameNft : MatchesNft shardStrings nft imageNft) :
    LockStep (MatchesNft strings) (remapNft contractMap stringMap nft)
      (EntityStore.remapNft contractMap stringMap imageNft) := by
  rcases List.getElem?_eq_some_iff.mp sameNft.token with ⟨inside, tokenEqual⟩
  have mapInside : nft.tokenIdId < stringMap.length := mapped.length_eq ▸ inside
  have token : indexed stringMap nft.tokenIdId = .ok stringMap[nft.tokenIdId] :=
    indexed_eq_ok_iff.mpr (List.getElem?_eq_getElem mapInside)
  have tokenAt : strings[stringMap[nft.tokenIdId]]? = some imageNft.tokenId := by
    rw [← tokenEqual]
    exact (forall₂_iff_get.mp mapped).2 nft.tokenIdId inside mapInside
  rw [remapNft, EntityStore.remapNft, sameNft.contractId, sameNft.nameId,
    sameNft.tokenUriId, sameNft.imageUriId]
  apply (indexed_same_lockStep _ _).bind
  intro contractId imageContractId _ _ contract
  apply (remapString_lockStep _ _).bind
  intro nameId imageNameId _ _ name
  apply (remapString_lockStep _ _).bind
  intro tokenUriId imageTokenUriId _ _ tokenUri
  apply (remapString_lockStep _ _).bind
  intro imageUriId imageImageUriId _ _ imageUri
  rw [token]
  exact ⟨contract.1, tokenAt, name, tokenUri, imageUri, sameNft.sourceOrder⟩

theorem Matches.mergeRemappedNft (same : Matches store image)
    (sameNft : MatchesNft store.strings.strings nft imageNft) :
    LockStep MatchesIfValid (store.mergeRemappedNft nft)
      (image.mergeRemappedNft imageNft) := by
  have token : store.string nft.tokenIdId = .ok imageNft.tokenId := by
    rw [ResidentStore.string, StringPool.get, indexed_eq_ok_iff]
    exact sameNft.token
  have key : imageNft.key = (nft.contractId, imageNft.tokenId) :=
    Prod.ext sameNft.contractId rfl
  rw [ResidentStore.mergeRemappedNft, token]
  simp only [ok_bind]
  rw [EntityStore.mergeRemappedNft, same.nftIndex, sameNft.token, Option.bind_some, key]
  cases image.nftIndex (nft.contractId, imageNft.tokenId) with
  | some existingId =>
      change LockStep _ (store.mergeExistingNft existingId nft imageNft.tokenId)
        (image.mergeExistingNft existingId imageNft)
      rw [ResidentStore.mergeExistingNft, EntityStore.mergeExistingNft]
      apply (indexed_lockStep same.nfts existingId).bind
      intro existing imageExisting _ _ both
      rcases both with ⟨sameExisting, _, _⟩
      rw [sameExisting.tokenUriId, sameExisting.imageUriId, sameNft.tokenUriId,
        sameNft.imageUriId]
      apply (mergeMappedUri_lockStep _ _ _ _ _ _ _ _).bind
      intro tokenUriId imageTokenUriId _ _ tokenUri
      apply (mergeMappedUri_lockStep _ _ _ _ _ _ _ _).bind
      intro imageUriId imageImageUriId _ _ imageUri
      apply same.setNft
      refine ⟨sameExisting.contractId, sameExisting.token, ?_, tokenUri, imageUri,
        sameExisting.sourceOrder⟩
      simp only [sameExisting.nameId, sameNft.nameId]
  | none =>
      change LockStep _ (indexed store.contracts nft.contractId >>= _)
        (Dedup.indexed image.contracts imageNft.contractId >>= _)
      rw [same.contracts, sameNft.contractId]
      apply (indexed_map_lockStep _ _ _).bind
      intro contract imageContract _ _ both
      rw [both.1]
      exact same.insertNft sameNft

theorem Matches.mergeNft (same : Matches store image)
    (mapped : List.Forall₂ (fun value id => image.strings[id]? = some value)
      shardStrings stringMap) (contractMap : List Nat)
    (sameNft : MatchesNft shardStrings nft imageNft) :
    LockStep Matches (ResidentStore.mergeNft contractMap stringMap store nft)
      (EntityStore.mergeNft contractMap stringMap image imageNft) := by
  have inStrings := EntityStore.inside_of_forall₂ mapped
  apply lockStep_matches fun next ok => (EntityStore.mergeNft_spec same.valid inStrings ok).1
  rw [same.strings] at mapped
  apply (remapNft_lockStep mapped contractMap sameNft).bind
  intro remapped imageRemapped _ _ sameRemapped
  exact same.mergeRemappedNft sameRemapped

/-- What a merge has numbered stays numbered while the rest of the shard is merged. -/
def MatchesBeyond (base : EntityStore) (store : ResidentStore) (image : EntityStore) : Prop :=
  Matches store image ∧ base.Extends image

variable {contractMap : List Nat} {base : EntityStore}

theorem mergeContracts_lockStep (parseBytes : NumberParser) {chainMap : List Nat}
    {contracts : List Contract} (chains : ∀ id ∈ chainMap, id < base.chains.length)
    (addressesKnown : ∀ contract ∈ contracts, contract.address ∈ base.strings)
    (noMetadata : ∀ contract ∈ contracts, contract.metadataByToken = [])
    (start : MatchesBeyond base store image) :
    LockStep (fun result image => image.1 = result.1 ∧ MatchesBeyond base result.2 image.2)
      (contracts.foldlM (mergeContract parseBytes chainMap) (contractMap, store))
      ((contracts.map viewContract).foldlM (EntityStore.mergeContract chainMap)
        (contractMap, image)) := by
  have inputs : List.Forall₂ (fun contract image => image = viewContract contract ∧
      contract ∈ contracts) contracts (contracts.map viewContract) := by
    rw [forall₂_map_right_iff, forall₂_same]
    exact fun contract member => ⟨rfl, member⟩
  apply LockStep.foldlM _ ⟨rfl, start⟩ inputs
  intro state other contract imageContract related both
  rcases state with ⟨contractMap, store⟩
  rcases other with ⟨imageMap, image⟩
  rcases related with ⟨rfl, same, extension⟩
  rcases both with ⟨rfl, member⟩
  have chainsInside : ∀ id ∈ chainMap, id < image.chains.length := fun id inMap =>
    (chains id inMap).trans_le extension.chains.length_le
  have addressKnown : contract.address ∈ store.strings.strings :=
    same.strings ▸ extension.strings.subset (addressesKnown contract member)
  apply (same.mergeContract parseBytes chainMap imageMap
    (fun id inMap => same.chains ▸ chainsInside id inMap) addressKnown
    (noMetadata contract member)).weaken
  intro next imageNext _ imageOk nextSame
  have grown := (EntityStore.mergeContract_spec same.valid chainsInside imageOk).2
  exact ⟨nextSame.1, nextSame.2, extension.trans grown⟩

theorem mergeNfts_lockStep {nfts : List Nft} {imageNfts : List Dedup.Nft}
    (mapped : List.Forall₂ (fun value id => base.strings[id]? = some value)
      shardStrings stringMap) (sameNfts : List.Forall₂ (MatchesNft shardStrings) nfts imageNfts)
    (start : MatchesBeyond base store image) :
    LockStep (MatchesBeyond base)
      (nfts.foldlM (mergeNft contractMap stringMap) store)
      (imageNfts.foldlM (EntityStore.mergeNft contractMap stringMap) image) := by
  apply LockStep.foldlM _ start sameNfts
  intro store image nft imageNft related sameNft
  have now := mapped.imp fun _ _ found => related.2.string found
  apply (related.1.mergeNft now contractMap sameNft).weaken
  intro next imageNext _ imageOk nextSame
  have grown := (EntityStore.mergeNft_spec related.1.valid
    (EntityStore.inside_of_forall₂ now) imageOk).2.1
  exact ⟨nextSame, related.2.trans grown⟩

theorem Matches.mergeShard (same : Matches store image) {shard : ResidentStore}
    {imageShard : EntityStore} (sameShard : Matches shard imageShard)
    (parseBytes : NumberParser) :
    LockStep Matches (store.mergeShard parseBytes shard) (image.mergeShard imageShard) := by
  rw [ResidentStore.mergeShard, EntityStore.mergeShard, sameShard.chains, sameShard.strings,
    sameShard.contracts, length_map]
  apply (mapKeys_lockStep (fun _ _ key same => same.ensureChain key) _ same).bind
  intro chained imageChained _ chainsOk chainsSame
  rcases chained with ⟨chainMap, chained⟩
  rcases imageChained with ⟨imageMap, imageChained⟩
  rcases chainsSame with ⟨rfl, chainsSame⟩
  have chainsSpec := EntityStore.mapChains_spec same.valid chainsOk
  apply (mapKeys_lockStep (fun _ _ key same => same.intern key) _ chainsSame).bind
  intro interned imageInterned _ stringsOk stringsSame
  rcases interned with ⟨stringMap, interned⟩
  rcases imageInterned with ⟨imageStrings, imageInterned⟩
  rcases stringsSame with ⟨rfl, stringsSame⟩
  have stringsSpec := EntityStore.mapStrings_spec chainsSame.valid stringsOk
  have chainsInside : ∀ id ∈ imageMap, id < imageInterned.chains.length := fun id member =>
    (EntityStore.inside_of_forall₂ chainsSpec.2.2 id member).trans_le
      stringsSpec.2.1.chains.length_le
  have stringsInside : ∀ value ∈ shard.strings.strings, value ∈ imageInterned.strings := by
    intro value member
    rcases mem_iff_getElem.mp member with ⟨position, inside, equal⟩
    have found := (forall₂_iff_get.mp stringsSpec.2.2).2 position inside
      (stringsSpec.2.2.length_eq ▸ inside)
    simp only [get_eq_getElem, equal] at found
    exact mem_of_getElem? found
  apply (mergeContracts_lockStep parseBytes chainsInside
    (fun contract member => stringsInside _ (sameShard.addresses contract member))
    sameShard.noMetadata ⟨stringsSame, .refl _⟩).bind
  intro contracted imageContracted _ _ contractsSame
  rcases contracted with ⟨contractMap, contracted⟩
  rcases imageContracted with ⟨imageContracts, imageContracted⟩
  rcases contractsSame with ⟨rfl, contractsSame⟩
  apply (mergeNfts_lockStep stringsSpec.2.2 sameShard.nfts contractsSame).weaken
  intro next imageNext _ _ nextSame
  exact nextSame.1

end Matches

end ResidentStore

end NftData.Analysis2
