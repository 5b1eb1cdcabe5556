import NftData.Dedup.Entity.Reachable
import NftData.Dedup.Direct.Profiles

namespace NftData.Dedup.Direct

/-! # Prepared contracts

What preparation guarantees of a profile, and when preparation succeeds. -/

open List

/-- The lookups that a member causes stay inside the store. -/
structure MemberFits (store : EntityStore) (isEvm : Bool) (anchorCount : Nat)
    (member : MetadataMember) : Prop where
  contract : member.contractId < store.contracts.length
  nft : ∀ id ∈ member.nftId, id < store.nfts.length
  records : member.nftId = none → isEvm = true →
    ∀ contract, store.contracts[member.contractId]? = some contract →
      anchorCount ≤ contract.metadataByToken.length

/-- The lookups that a profile causes stay inside the tables and the store. -/
structure ProfileFits (store : EntityStore) (tokenCount documentCount : Nat) (isEvm : Bool)
    (anchors : List (Nat × Nat)) (members : List MetadataMember) : Prop where
  nonempty : anchors ≠ []
  documents : ∀ anchor ∈ anchors, anchor.2 < documentCount
  tokens : isEvm = true → ∀ anchor ∈ anchors, anchor.1 < tokenCount
  members : ∀ member ∈ members, MemberFits store isEvm anchors.length member

/-- A prepared profile fits; outside the EVM chains its token keys are 0. -/
structure RawFits (store : EntityStore) (tokenCount documentCount : Nat) (raw : RawProfile) :
    Prop where
  fits : ProfileFits store tokenCount documentCount raw.key.isEvm raw.key.anchors [raw.member]
  placeholder : raw.key.isEvm = false → ∀ anchor ∈ raw.key.anchors, anchor.1 = 0

structure RawSolanaFits (store : EntityStore) (documentCount : Nat)
    (raw : RawSolanaProfile) : Prop where
  document : raw.document < documentCount
  member : MemberFits store false 1 raw.member

section Prepare

variable {store : EntityStore} {evmChains : Finset Text} {anchorsK : Option Nat}

theorem anchorsTaken_le (anchorsK : Option Nat) (contract : Contract) :
    anchorsTaken anchorsK contract ≤ contract.metadataByToken.length := by
  unfold anchorsTaken
  split
  · exact le_rfl
  · exact Nat.min_le_left _ _

theorem anchorRecords_length (isEvm : Bool) (anchorsK : Option Nat) (contract : Contract) :
    (anchorRecords isEvm anchorsK contract).length =
      if isEvm then anchorsTaken anchorsK contract
      else min 1 (anchorsTaken anchorsK contract) := by
  have atMost := anchorsTaken_le anchorsK contract
  rw [anchorRecords, length_drop, length_take, Nat.min_eq_left atMost]
  cases isEvm with
  | false => simp only [Bool.false_eq_true, if_false]; omega
  | true => simp

variable {contract : Contract}

theorem chainOf_eq (valid : store.Valid) (member : contract ∈ store.contracts) :
    indexed store.chains contract.chainId = .ok (chainOf store contract) := by
  have inside := valid.contractChains contract member
  rw [indexed_eq_ok (List.getElem?_eq_getElem inside), chainOf,
    List.getElem?_eq_getElem inside, Option.getD_some]

theorem contract_at (valid : store.Valid) (member : contract ∈ store.contracts) :
    store.contracts[contract.id]? = some contract := by
  rcases List.getElem?_of_mem member with ⟨position, found⟩
  rw [valid.contractIds position contract found]
  exact found

variable {tokens : Interner (tokenCalls store evmChains anchorsK)} {documents : Interner
  (documentCalls store evmChains anchorsK)} {record : MetadataRecord}

theorem document_called (member : contract ∈ store.contracts) (selected : record ∈ anchorRecords
      (chainOf store contract = solana ∨ chainOf store contract ∈ evmChains) anchorsK
      contract) :
    record.canonicalJson ∈ documentCalls store evmChains anchorsK :=
  mem_flatMap.mpr ⟨contract, member, mem_map.mpr ⟨record, selected, rfl⟩⟩

theorem token_called (member : contract ∈ store.contracts)
    (isEvm : chainOf store contract ∈ evmChains) (notSolana : chainOf store contract ≠ solana)
    (selected : record ∈ anchorRecords true anchorsK contract) :
    normalizedEvmToken record.tokenId ∈ tokenCalls store evmChains anchorsK := by
  apply mem_flatMap.mpr
  refine ⟨contract, member, ?_⟩
  rw [if_pos ⟨isEvm, notSolana⟩]
  exact mem_map.mpr ⟨record, selected, rfl⟩

theorem prepareSolanaRecord_guarded (valid : store.Valid) (member : contract ∈ store.contracts)
    (isSolana : chainOf store contract = solana)
    (selected : record ∈ contract.metadataByToken.take (anchorsTaken anchorsK contract)) :
    Guarded .panicked (RawSolanaFits store documents.values.length)
      (prepareSolanaRecord store evmChains anchorsK documents contract record) := by
  have called : record.canonicalJson ∈ documentCalls store evmChains anchorsK := by
    apply document_called member
    simpa [anchorRecords, isSolana] using selected
  apply (documents.intern_guarded _ _ called).bind
  intro document _ inside
  split
  · exact metadataError_guarded _
  · next nftId found =>
      have at_ := (valid.nftKeys _ _).mp found
      rw [List.getElem?_map] at at_
      rcases Option.map_eq_some_iff.mp at_ with ⟨nft, nftAt, _⟩
      refine ⟨inside.1, (List.getElem?_eq_some_iff.mp (contract_at valid member)).1, ?_, ?_⟩
      · intro id isId
        rw [← Option.some.inj isId]
        exact (List.getElem?_eq_some_iff.mp nftAt).1
      · intro isNone
        cases isNone

theorem prepareAnchor_guarded (member : contract ∈ store.contracts)
    (notSolana : chainOf store contract ≠ solana)
    (selected : record ∈ anchorRecords (chainOf store contract ∈ evmChains) anchorsK
      contract) :
    Guarded .panicked
      (fun anchor => anchor.2 < documents.values.length ∧
        (chainOf store contract ∈ evmChains → anchor.1 < tokens.values.length) ∧
        (chainOf store contract ∉ evmChains → anchor.1 = 0))
      (prepareAnchor store evmChains anchorsK tokens documents
        (chainOf store contract ∈ evmChains) record) := by
  have called : record.canonicalJson ∈ documentCalls store evmChains anchorsK := by
    apply document_called member
    simpa [notSolana] using selected
  apply (documents.intern_guarded _ _ called).bind
  intro document _ inside
  by_cases isEvm : chainOf store contract ∈ evmChains
  · rw [if_pos (by simpa using isEvm)]
    have recordSelected : record ∈ anchorRecords true anchorsK contract := by
      simpa [isEvm] using selected
    apply (tokens.intern_guarded _ _
      (token_called member isEvm notSolana recordSelected)).bind
    intro token _ tokenInside
    exact ⟨inside.1, fun _ => tokenInside.1, fun notEvm => absurd isEvm notEvm⟩
  · rw [if_neg (by simpa using isEvm)]
    exact ⟨inside.1, fun evm => absurd evm isEvm, fun _ => rfl⟩

/-- What a contract is prepared to. -/
theorem prepareContract_guarded (valid : store.Valid) (member : contract ∈ store.contracts) :
    Guarded .panicked
      (fun raws =>
        (∀ raw ∈ raws.1, RawFits store tokens.values.length documents.values.length raw ∧
          raw.key.isEvm = decide (chainOf store contract ∈ evmChains)) ∧
        (raws.1 = [] ↔ anchorsTaken anchorsK contract = 0 ∨ chainOf store contract = solana) ∧
        ∀ raw ∈ raws.2, RawSolanaFits store documents.values.length raw)
      (prepareContract store evmChains anchorsK tokens documents contract) := by
  rw [prepareContract, chainOf_eq valid member, ok_bind]
  by_cases none : anchorsTaken anchorsK contract = 0
  · rw [if_pos none]
    exact ⟨by simp, by simp [none], by simp⟩
  · rw [if_neg none]
    by_cases isSolana : chainOf store contract = solana
    · rw [if_pos (by simpa using isSolana)]
      apply (Guarded.mapM fun record selected =>
        prepareSolanaRecord_guarded valid member isSolana selected).bind
      intro raws _ fits
      refine ⟨by simp, by simp [isSolana], ?_⟩
      intro raw inRaws
      rcases exists_of_mem_forall₂ fits inRaws with ⟨_, _, holds⟩
      exact holds
    · rw [if_neg (by simpa using isSolana)]
      apply (Guarded.mapM fun record selected =>
        prepareAnchor_guarded member isSolana selected).bind
      intro anchors _ fits
      have lengths := fits.length_eq
      have each : ∀ anchor ∈ anchors, anchor.2 < documents.values.length ∧
          (chainOf store contract ∈ evmChains → anchor.1 < tokens.values.length) ∧
          (chainOf store contract ∉ evmChains → anchor.1 = 0) := by
        intro anchor inAnchors
        rcases exists_of_mem_forall₂ fits inAnchors with ⟨_, _, holds⟩
        exact holds
      rw [anchorRecords_length] at lengths
      have atMost := anchorsTaken_le anchorsK contract
      refine ⟨?_, by simp [none, isSolana], by simp⟩
      intro raw isRaw
      rw [mem_singleton] at isRaw
      subst isRaw
      refine ⟨⟨⟨?_, fun anchor inAnchors => (each anchor inAnchors).1, ?_, ?_⟩, ?_⟩, rfl⟩
      · intro empty
        change anchors = [] at empty
        rw [empty] at lengths
        split at lengths
        · exact none lengths
        · rw [length_nil] at lengths
          omega
      · intro isEvm anchor inAnchors
        exact (each anchor inAnchors).2.1 (of_decide_eq_true isEvm)
      · intro only isMember
        rw [mem_singleton] at isMember
        subst isMember
        refine ⟨(List.getElem?_eq_some_iff.mp (contract_at valid member)).1, by simp, ?_⟩
        intro _ isEvm other otherAt
        rw [contract_at valid member] at otherAt
        cases otherAt
        change anchors.length ≤ _
        rw [if_pos isEvm] at lengths
        omega
      · intro notEvm anchor inAnchors
        exact (each anchor inAnchors).2.2 (of_decide_eq_false notEvm)

/-! ## When preparation succeeds -/

variable {calls : List Text}

theorem intern_succeeds_iff (interner : Interner calls) (capacity : Nat) (message : String)
    (value : Text) :
    (∃ id, interner.intern capacity message value = .ok id) ↔
      interner.values.idxOf value < capacity := by
  rw [Interner.intern, checked]
  split
  · next fits => exact ⟨fun _ => fits, fun _ => ⟨_, rfl⟩⟩
  · next full =>
      constructor
      · rintro ⟨id, ok⟩
        cases ok
      · intro fits
        exact absurd fits full

/-- All texts get numbers when there are at most as many as numbers. -/
theorem intern_all_iff (interner : Interner calls) (capacity : Nat) :
    (∀ value ∈ calls, interner.values.idxOf value < capacity) ↔
      interner.values.length ≤ capacity := by
  constructor
  · intro all
    by_contra tooMany
    have inside : capacity < interner.values.length := not_le.mp tooMany
    have called := (interner.mem_iff _).mp (getElem_mem inside)
    have below := all _ called
    rw [interner.nodup.idxOf_getElem] at below
    exact absurd below (lt_irrefl _)
  · intro fits value called
    exact (idxOf_lt_length_of_mem ((interner.mem_iff value).mpr called)).trans_le fits

/-- The texts of one contract that are interned get numbers, and its Solana anchors
have NFTs. -/
structure ContractInterned (tokens : Interner (tokenCalls store evmChains anchorsK))
    (documents : Interner (documentCalls store evmChains anchorsK)) (contract : Contract) :
    Prop where
  documents : ∀ record ∈ anchorRecords
      (chainOf store contract = solana ∨ chainOf store contract ∈ evmChains) anchorsK contract,
    documents.values.idxOf record.canonicalJson < documentIdCapacity
  tokens : chainOf store contract ∈ evmChains → chainOf store contract ≠ solana →
    ∀ record ∈ anchorRecords true anchorsK contract,
      tokens.values.idxOf (normalizedEvmToken record.tokenId) < tokenKeyIdCapacity
  nfts : chainOf store contract = solana →
    ∀ record ∈ contract.metadataByToken.take (anchorsTaken anchorsK contract),
      (store.nftIndex (contract.id, record.tokenId)).isSome = true

theorem prepareSolanaRecord_succeeds_iff (contract : Contract) (record : MetadataRecord) :
    (∃ raw, prepareSolanaRecord store evmChains anchorsK documents contract record = .ok raw) ↔
      documents.values.idxOf record.canonicalJson < documentIdCapacity ∧
        (store.nftIndex (contract.id, record.tokenId)).isSome = true := by
  rw [prepareSolanaRecord, bind_succeeds_iff,
    ← intern_succeeds_iff documents documentIdCapacity "too many unique metadata documents"]
  cases found : store.nftIndex (contract.id, record.tokenId) with
  | none =>
      constructor
      · rintro ⟨_, _, raw, ok⟩
        cases ok
      · rintro ⟨_, isSome⟩
        cases isSome
  | some nftId =>
      constructor
      · rintro ⟨id, ok, _⟩
        exact ⟨⟨id, ok⟩, rfl⟩
      · rintro ⟨⟨id, ok⟩, _⟩
        exact ⟨id, ok, _, rfl⟩

theorem prepareAnchor_succeeds_iff (isEvm : Bool) (record : MetadataRecord) :
    (∃ anchor, prepareAnchor store evmChains anchorsK tokens documents isEvm record =
        .ok anchor) ↔
      documents.values.idxOf record.canonicalJson < documentIdCapacity ∧
        (isEvm = true →
          tokens.values.idxOf (normalizedEvmToken record.tokenId) < tokenKeyIdCapacity) := by
  rw [prepareAnchor, bind_succeeds_iff,
    ← intern_succeeds_iff documents documentIdCapacity "too many unique metadata documents",
    ← intern_succeeds_iff tokens tokenKeyIdCapacity "too many unique metadata token IDs"]
  cases isEvm with
  | false =>
      constructor
      · rintro ⟨id, ok, _⟩
        exact ⟨⟨id, ok⟩, fun isTrue => absurd isTrue (by simp)⟩
      · rintro ⟨⟨id, ok⟩, _⟩
        exact ⟨id, ok, _, rfl⟩
  | true =>
      constructor
      · rintro ⟨id, ok, anchor, rest⟩
        rcases bind_eq_ok rest with ⟨token, tokenOk, _⟩
        exact ⟨⟨id, ok⟩, fun _ => ⟨token, tokenOk⟩⟩
      · rintro ⟨⟨id, ok⟩, token⟩
        rcases token rfl with ⟨key, tokenOk⟩
        refine ⟨id, ok, (key, id), ?_⟩
        rw [if_pos rfl, internToken, tokenOk]
        rfl

theorem prepareContract_succeeds_iff (valid : store.Valid) (member : contract ∈ store.contracts) :
    (∃ raws, prepareContract store evmChains anchorsK tokens documents contract = .ok raws) ↔
      ContractInterned tokens documents contract := by
  rw [prepareContract, chainOf_eq valid member, ok_bind]
  by_cases none : anchorsTaken anchorsK contract = 0
  · rw [if_pos none]
    have noRecords : ∀ isEvm, anchorRecords isEvm anchorsK contract = [] := by
      intro isEvm
      simp [anchorRecords, none]
    constructor
    · intro _
      exact ⟨by simp [noRecords], by simp [noRecords], by simp [none]⟩
    · exact fun _ => ⟨_, rfl⟩
  · rw [if_neg none]
    by_cases isSolana : chainOf store contract = solana
    · have records : anchorRecords
          (chainOf store contract = solana ∨ chainOf store contract ∈ evmChains) anchorsK
          contract = contract.metadataByToken.take (anchorsTaken anchorsK contract) := by
        simp [anchorRecords, isSolana]
      rw [if_pos (by simpa using isSolana), bind_succeeds_iff]
      constructor
      · rintro ⟨raws, ok, _⟩
        have each := mapM_succeeds_iff.mp ⟨raws, ok⟩
        simp only [prepareSolanaRecord_succeeds_iff] at each
        exact ⟨fun record selected => (each record (records ▸ selected)).1,
          fun _ notSolana => absurd isSolana notSolana,
          fun _ record selected => (each record selected).2⟩
      · intro interned
        have each : ∃ raws, (contract.metadataByToken.take
            (anchorsTaken anchorsK contract)).mapM
              (prepareSolanaRecord store evmChains anchorsK documents contract) = .ok raws := by
          apply mapM_succeeds_iff.mpr
          intro record selected
          rw [prepareSolanaRecord_succeeds_iff]
          exact ⟨interned.documents record (records.symm ▸ selected),
            interned.nfts isSolana record selected⟩
        rcases each with ⟨raws, ok⟩
        exact ⟨raws, ok, _, rfl⟩
    · have records : anchorRecords
          (chainOf store contract = solana ∨ chainOf store contract ∈ evmChains) anchorsK
          contract = anchorRecords (chainOf store contract ∈ evmChains) anchorsK contract := by
        simp [isSolana]
      rw [if_neg (by simpa using isSolana), bind_succeeds_iff]
      constructor
      · rintro ⟨anchors, ok, _⟩
        have each := mapM_succeeds_iff.mp ⟨anchors, ok⟩
        simp only [prepareAnchor_succeeds_iff] at each
        refine ⟨fun record selected => (each record (records ▸ selected)).1, ?_,
          fun solanaChain => absurd solanaChain isSolana⟩
        intro isEvm _ record selected
        have chosen : record ∈ anchorRecords (chainOf store contract ∈ evmChains) anchorsK
            contract := by
          simpa [isEvm] using selected
        exact (each record chosen).2 (by simpa using isEvm)
      · intro interned
        have each : ∃ anchors, (anchorRecords (chainOf store contract ∈ evmChains) anchorsK
            contract).mapM (prepareAnchor store evmChains anchorsK tokens documents
              (chainOf store contract ∈ evmChains)) = .ok anchors := by
          apply mapM_succeeds_iff.mpr
          intro record selected
          rw [prepareAnchor_succeeds_iff]
          refine ⟨interned.documents record (records.symm ▸ selected), ?_⟩
          intro isEvm
          have evm : chainOf store contract ∈ evmChains := by simpa using isEvm
          exact interned.tokens evm isSolana record (by simpa [evm] using selected)
        rcases each with ⟨anchors, ok⟩
        exact ⟨anchors, ok, _, rfl⟩

end Prepare

end NftData.Dedup.Direct
