import NftData.Dedup.Direct.Layout

namespace NftData.Dedup.Direct

/-! # Safety of the whole build -/

open List
open EntityStore (withOptions)
open Guarded (mapM)

def tokenRangeCount (anchors : List (Nat × Nat)) : Nat :=
  (anchors.map fun anchor => anchor.1 + 1).foldr max 0

theorem lt_tokenRangeCount {anchors : List (Nat × Nat)} {anchor : Nat × Nat}
    (member : anchor ∈ anchors) : anchor.1 < tokenRangeCount anchors := by
  induction anchors with
  | nil => cases member
  | cons head tail induction =>
      rw [tokenRangeCount, map_cons, foldr_cons, lt_max_iff]
      rcases mem_cons.mp member with isHead | inTail
      · exact .inl (isHead ▸ Nat.lt_succ_self _)
      · exact .inr (induction inTail)

def TokenKeysInside (index : DirectIndex) : Prop :=
  ∀ profile ∈ index.profiles, ∃ anchors,
    HasSlice index.anchors profile.anchorStart profile.anchorLen anchors ∧
      (profile.isEvm = true → ∀ anchor ∈ anchors,
        anchor.1 < index.tokenProfileCounts.length ∧
          anchor.1 < tokenRangeCount index.anchors)

theorem mem_of_hasSlice {α : Type} {values slice : List α} {start length : Nat}
    (has : HasSlice values start length slice) {value : α} (member : value ∈ slice) :
    value ∈ values := by
  rw [← has.entries] at member
  exact mem_of_mem_drop (mem_of_mem_take member)

theorem mem_bucketsOf {Raw : Type} {hash : Raw → Nat} {raws bucket : List Raw} {raw : Raw}
    (isBucket : bucket ∈ bucketsOf hash raws) (member : raw ∈ bucket) : raw ∈ raws := by
  rcases mem_map.mp isBucket with ⟨shard, _, equal⟩
  rw [← equal] at member
  exact (mem_filter.mp member).1

theorem exists_bucketsOf {Raw : Type} (hash : Raw → Nat) {raws : List Raw} {raw : Raw}
    (member : raw ∈ raws) : ∃ bucket ∈ bucketsOf hash raws, raw ∈ bucket := by
  refine ⟨_, mem_map.mpr ⟨hash raw % internShards, ?_, rfl⟩, ?_⟩
  · exact mem_range.mpr (Nat.mod_lt _ (by decide))
  · exact mem_filter.mpr ⟨member, by simp⟩

namespace BuildInput

variable (input : BuildInput)

/-- Assembling fitting buckets never looks outside a list. -/
theorem assemble_guarded (valid : input.store.Valid) {tokenCount : Nat}
    {regular : List (List RawProfile)} {solanaBuckets : List (List RawSolanaProfile)}
    (regularFits : ∀ bucket ∈ regular, ∀ raw ∈ bucket,
      ProfileFits input.store tokenCount input.documents.values.length raw.key.isEvm
        raw.key.anchors [raw.member])
    (solanaFits : ∀ bucket ∈ solanaBuckets, ∀ raw ∈ bucket,
      RawSolanaFits input.store input.documents.values.length raw) :
    Guarded .panicked TokenKeysInside (input.assemble tokenCount regular solanaBuckets) := by
  rw [assemble]
  apply (intoDocuments_guarded input.isAlphanumeric input.terms).bind
  intro documents _ documentsFit
  have regularLaid : ∀ bucket ∈ regular, Guarded .panicked
      (LaidOut input.store tokenCount input.documents.values.length)
      (buildProfileBucket bucket) :=
    fun bucket member => compactProfiles_guarded (groupProfiles_fits (regularFits bucket member))
  have solanaLaid : ∀ bucket ∈ solanaBuckets, Guarded .panicked
      (LaidOut input.store tokenCount input.documents.values.length)
      (buildSolanaProfileBucket bucket) :=
    fun bucket member =>
      compactProfiles_guarded (groupSolanaProfiles_fits (solanaFits bucket member))
  apply (mapM regularLaid).bind
  intro regularChunks _ regularChunksLaid
  apply (mapM solanaLaid).bind
  intro solanaChunks _ solanaChunksLaid
  have chunksLaid : ∀ chunk ∈ regularChunks ++ solanaChunks,
      LaidOut input.store tokenCount input.documents.values.length chunk := by
    intro chunk member
    rcases mem_append.mp member with isRegular | isSolana
    · rcases exists_of_mem_forall₂ regularChunksLaid isRegular with ⟨_, _, laidOut⟩
      exact laidOut
    · rcases exists_of_mem_forall₂ solanaChunksLaid isSolana with ⟨_, _, laidOut⟩
      exact laidOut
  have start : StateFits input.store tokenCount input.documents.values.length [] []
      ⟨List.replicate documents.1.length 0, List.replicate tokenCount 0, [], [], [], []⟩ :=
    ⟨by rw [length_replicate, documentsFit.1], length_replicate, by simp⟩
  apply (Guarded.foldlM (fun state chunk member stateFits =>
    appendChunk_guarded documentsFit stateFits (chunksLaid chunk member)) start).bind
  intro appended _ appendedFits
  have sortedFits : StateFits input.store tokenCount input.documents.values.length
      appended.anchors appended.members
      { appended with
        profiles := appended.profiles.insertionSort fun left right =>
          profileSortKey left ≤ profileSortKey right } :=
    ⟨appendedFits.weights, appendedFits.counts, fun profile member =>
      appendedFits.profiles profile ((perm_insertionSort _ _).mem_iff.mp member)⟩
  apply (retainedWitnesses_guarded valid input.retainImageWitnesses sortedFits).bind
  intro witnesses _ _ profile member
  rcases (sortedFits.profiles profile member).slices with
    ⟨anchors, _, anchorsAt, _, profileFits⟩
  refine ⟨anchors, anchorsAt, fun isEvm anchor isAnchor => ⟨?_, ?_⟩⟩
  · exact sortedFits.counts.symm ▸ profileFits.tokens isEvm anchor isAnchor
  · exact lt_tokenRangeCount (mem_of_hasSlice anchorsAt isAnchor)

/-! ## The condition -/

/-- All interned texts get numbers, and every selected Solana record has an NFT: no check
of the preparation stops the build. -/
structure Interned : Prop where
  documents : input.documents.values.length ≤ documentIdCapacity
  tokens : input.tokens.values.length ≤ tokenKeyIdCapacity
  nfts : ∀ contract ∈ input.store.contracts, chainOf input.store contract = solana →
    ∀ record ∈ contract.metadataByToken.take (anchorsTaken input.anchorsK contract),
      (input.store.nftIndex (contract.id, record.tokenId)).isSome = true

/-- Some contract off the EVM chains and off Solana has a selected anchor, and no
contract of an EVM chain has one. -/
def Exposed : Prop :=
  (∃ contract ∈ input.store.contracts, anchorsTaken input.anchorsK contract ≠ 0 ∧
    chainOf input.store contract ∉ input.evmChains ∧ chainOf input.store contract ≠ solana) ∧
  ∀ contract ∈ input.store.contracts, chainOf input.store contract ∈ input.evmChains →
    chainOf input.store contract ≠ solana → anchorsTaken input.anchorsK contract = 0

/-- No lookup of the build leaves its list. -/
structure IndexSafe : Prop where
  runs : input.buildIndex ≠ .error .panicked
  remapped : ∀ raws remap, input.prepare = .ok raws → intoOrderedRemap input.tokens = .ok remap →
    ∀ raw ∈ raws.flatMap Prod.fst, ∀ anchor ∈ raw.key.anchors, anchor.1 < remap.length
  counted : ∀ index, input.buildIndex = .ok index → TokenKeysInside index

variable {input}

theorem prepare_succeeds_iff (valid : input.store.Valid) :
    (∃ raws, input.prepare = .ok raws) ↔ input.Interned := by
  rw [prepare, mapM_succeeds_iff]
  constructor
  · intro each
    have interned : ∀ contract ∈ input.store.contracts,
        ContractInterned input.tokens input.documents contract := fun contract member =>
      (prepareContract_succeeds_iff valid member).mp (each contract member)
    refine ⟨?_, ?_, fun contract member => (interned contract member).nfts⟩
    · apply (intern_all_iff input.documents _).mp
      intro value called
      rcases mem_flatMap.mp called with ⟨contract, member, inContract⟩
      rcases mem_map.mp inContract with ⟨record, selected, equal⟩
      exact equal ▸ (interned contract member).documents record selected
    · apply (intern_all_iff input.tokens _).mp
      intro value called
      rcases mem_flatMap.mp called with ⟨contract, member, inContract⟩
      split at inContract
      · next kind =>
          rcases mem_map.mp inContract with ⟨record, selected, equal⟩
          exact equal ▸ (interned contract member).tokens kind.1 kind.2 record selected
      · cases inContract
  · intro interned contract member
    apply (prepareContract_succeeds_iff valid member).mpr
    refine ⟨?_, ?_, interned.nfts contract member⟩
    · intro record selected
      exact (intern_all_iff input.documents _).mpr interned.documents _
        (document_called member selected)
    · intro isEvm notSolana record selected
      exact (intern_all_iff input.tokens _).mpr interned.tokens _
        (token_called member isEvm notSolana selected)

theorem prepare_guarded (valid : input.store.Valid) :
    Guarded .panicked
      (List.Forall₂ (fun contract raws =>
        (∀ raw ∈ raws.1, RawFits input.store input.tokens.values.length
            input.documents.values.length raw ∧
          raw.key.isEvm = decide (chainOf input.store contract ∈ input.evmChains)) ∧
        (raws.1 = [] ↔ anchorsTaken input.anchorsK contract = 0 ∨
          chainOf input.store contract = solana) ∧
        ∀ raw ∈ raws.2, RawSolanaFits input.store input.documents.values.length raw)
        input.store.contracts)
      input.prepare :=
  mapM fun _ member => prepareContract_guarded valid member

theorem tokens_pos {contract : Contract} (member : contract ∈ input.store.contracts)
    (selected : anchorsTaken input.anchorsK contract ≠ 0)
    (isEvm : chainOf input.store contract ∈ input.evmChains)
    (notSolana : chainOf input.store contract ≠ solana) :
    0 < input.tokens.values.length := by
  have nonempty : 0 < (anchorRecords true input.anchorsK contract).length := by
    rw [anchorRecords_length]
    exact Nat.pos_of_ne_zero selected
  rcases exists_mem_of_length_pos nonempty with ⟨record, inside⟩
  exact length_pos_of_mem
    ((input.tokens.mem_iff _).mpr (token_called member isEvm notSolana inside))

theorem tokens_empty (exposed : input.Exposed) : input.tokens.values = [] := by
  rw [eq_nil_iff_forall_not_mem]
  intro value member
  rcases mem_flatMap.mp ((input.tokens.mem_iff value).mp member) with
    ⟨contract, inStore, called⟩
  split at called
  · next kind =>
      have none := exposed.2 contract inStore kind.1 kind.2
      simp [anchorRecords, none] at called
  · cases called

variable {failure : DedupError}

theorem indexed_failure {α : Type} {values : List α} {position : Nat}
    (failed : indexed values position = .error failure) : failure = .panicked := by
  rw [indexed] at failed
  split at failed
  · cases failed
  · exact (Except.error.inj failed).symm

theorem remapTokens_failure {remap : List Nat} {raw : RawProfile}
    (failed : raw.remapTokens remap = .error failure) : failure = .panicked := by
  rcases error_cases failed with anchorsFailed | ⟨anchors, _, impossible⟩
  · rcases mapM_failure anchorsFailed with ⟨anchor, _, anchorFailed⟩
    rcases error_cases anchorFailed with lookupFailed | ⟨token, _, impossible⟩
    · exact indexed_failure lookupFailed
    · cases impossible
  · cases impossible

theorem buildIndex_panics (valid : input.store.Valid) (interned : input.Interned)
    (exposed : input.Exposed) : input.buildIndex = .error .panicked := by
  rcases (prepare_succeeds_iff valid).mpr interned with ⟨raws, prepared⟩
  have facts := (prepare_guarded valid).holds prepared
  rcases exposed.1 with ⟨contract, member, selected, notEvm, notSolana⟩
  have empty : intoOrderedRemap input.tokens = .ok [] := by
    rw [intoOrderedRemap, tokens_empty exposed]
    rfl
  -- The contract contributes a raw profile with the placeholder key.
  have found : ∃ raw ∈ raws.flatMap Prod.fst, raw.key.isEvm = false ∧
      RawFits input.store input.tokens.values.length input.documents.values.length raw := by
    rcases getElem_of_mem member with ⟨position, inside, isContract⟩
    rcases forall₂_iff_get.mp facts with ⟨lengths, each⟩
    have here := each position inside (lengths ▸ inside)
    simp only [get_eq_getElem, isContract] at here
    have nonempty : raws[position].1 ≠ [] := by
      intro isNil
      rcases here.2.1.mp isNil with none | isSolana
      · exact selected none
      · exact notSolana isSolana
    rcases exists_mem_of_ne_nil _ nonempty with ⟨raw, isRaw⟩
    have fits := here.1 raw isRaw
    refine ⟨raw, mem_flatMap.mpr ⟨_, getElem_mem _, isRaw⟩, ?_, fits.1⟩
    rw [fits.2]
    exact decide_eq_false notEvm
  rcases found with ⟨raw, isRaw, placeholder, fits⟩
  have rawPanics := remapTokens_panics fits placeholder rfl
  rcases exists_bucketsOf (fun raw => input.hashProfile raw.key) isRaw with
    ⟨bucket, isBucket, inBucket⟩
  have bucketPanics : bucket.mapM (RawProfile.remapTokens []) = .error .panicked :=
    mapM_panics (fun _ _ => remapTokens_failure) inBucket rawPanics
  have bucketFailure : ∀ (other : List RawProfile) failure,
      other.mapM (RawProfile.remapTokens []) = .error failure → failure = .panicked := by
    intro other failure failed
    rcases mapM_failure failed with ⟨_, _, rawFailed⟩
    exact remapTokens_failure rawFailed
  rw [buildIndex, prepared, ok_bind, empty, ok_bind,
    mapM_panics bucketFailure isBucket bucketPanics]
  rfl

/-- The build is safe exactly when an earlier check stops it or the store is not exposed. -/
theorem indexSafe_iff {canonicalizeJsonStrict : Canonicalizer}
    (reachable : EntityStore.Reachable canonicalizeJsonStrict input.store) :
    input.IndexSafe ↔ ¬ (input.Interned ∧ input.Exposed) := by
  have valid := EntityStore.valid_of_reachable reachable
  constructor
  · intro safe both
    exact safe.runs (buildIndex_panics valid both.1 both.2)
  · intro condition
    cases prepared : input.prepare with
    | error failure =>
        have other : failure ≠ .panicked := by
          have guarded := prepare_guarded valid
          rw [prepared] at guarded
          exact guarded
        have stops : input.buildIndex = .error failure := by
          rw [buildIndex, prepared]
          rfl
        refine ⟨?_, ?_, ?_⟩
        · rw [stops]
          exact fun equal => other (Except.error.inj equal)
        · intro raws remap ok
          rw [prepared] at ok
          cases ok
        · intro index ok
          rw [stops] at ok
          cases ok
    | ok raws =>
        have notExposed := fun exposed => condition
          ⟨(prepare_succeeds_iff valid).mp ⟨raws, prepared⟩, exposed⟩
        have facts := (prepare_guarded valid).holds prepared
        -- A placeholder key is used only when the table has a token.
        have rawFacts : ∀ raw ∈ raws.flatMap Prod.fst,
            RawFits input.store input.tokens.values.length input.documents.values.length raw ∧
              (raw.key.isEvm = true ∨ 0 < input.tokens.values.length) := by
          intro raw isRaw
          rcases mem_flatMap.mp isRaw with ⟨both, inRaws, inBoth⟩
          rcases getElem_of_mem inRaws with ⟨position, inside, isBoth⟩
          rcases forall₂_iff_get.mp facts with ⟨lengths, each⟩
          have here := each position (lengths ▸ inside) inside
          simp only [get_eq_getElem, isBoth] at here
          refine ⟨(here.1 raw inBoth).1, ?_⟩
          cases kind : raw.key.isEvm with
          | true => exact .inl rfl
          | false =>
              right
              by_contra noToken
              apply notExposed
              have rawsHere : ¬ (anchorsTaken input.anchorsK _ = 0 ∨ _) :=
                fun none => ne_nil_of_mem inBoth (here.2.1.mpr none)
              have notEvm := (here.1 raw inBoth).2.symm.trans kind
              refine ⟨⟨_, getElem_mem _, fun none => rawsHere (.inl none),
                of_decide_eq_false notEvm, fun isSolana => rawsHere (.inr isSolana)⟩, ?_⟩
              intro contract member isEvm notSolana
              by_contra selected
              exact noToken (tokens_pos member selected isEvm notSolana)
        have solanaFacts : ∀ raw ∈ raws.flatMap Prod.snd,
            RawSolanaFits input.store input.documents.values.length raw := by
          intro raw isRaw
          rcases mem_flatMap.mp isRaw with ⟨both, inRaws, inBoth⟩
          rcases exists_of_mem_forall₂ facts inRaws with ⟨_, _, holds⟩
          exact holds.2.2 raw inBoth
        have guarded : Guarded .panicked TokenKeysInside input.buildIndex := by
          rw [buildIndex, prepared, ok_bind]
          apply (intoOrderedRemap_guarded input.tokens).bind
          intro remap _ remaps
          have buckets : ∀ bucket ∈ bucketsOf (fun raw => input.hashProfile raw.key)
              (raws.flatMap Prod.fst),
              Guarded .panicked
                (fun renumbered => ∀ raw ∈ renumbered,
                  ProfileFits input.store input.tokens.values.length
                    input.documents.values.length raw.key.isEvm raw.key.anchors [raw.member])
                (bucket.mapM (RawProfile.remapTokens remap)) := by
            intro bucket isBucket
            apply (mapM fun raw member => remapTokens_guarded remaps
              (rawFacts raw (mem_bucketsOf isBucket member)).1
              (rawFacts raw (mem_bucketsOf isBucket member)).2).weaken
            intro renumbered related raw isRaw
            rcases exists_of_mem_forall₂ related isRaw with ⟨_, _, holds⟩
            exact holds
          apply (mapM buckets).bind
          intro regular _ related
          rw [remaps.length_eq]
          apply assemble_guarded input valid
          · intro bucket isBucket
            rcases exists_of_mem_forall₂ related isBucket with ⟨_, _, holds⟩
            exact holds
          · intro bucket isBucket raw member
            exact solanaFacts raw (mem_bucketsOf isBucket member)
        refine ⟨guarded.not_panic, ?_, fun index => guarded.holds⟩
        intro other remap sameRaws remapOk raw isRaw anchor isAnchor
        rw [prepared] at sameRaws
        cases sameRaws
        have remaps := (intoOrderedRemap_guarded input.tokens).holds remapOk
        rw [remaps.length_eq]
        rcases rawFacts raw isRaw with ⟨fits, known⟩
        cases kind : raw.key.isEvm with
        | true => exact fits.fits.tokens kind anchor isAnchor
        | false =>
            rw [fits.placeholder kind anchor isAnchor]
            exact known.resolve_left (by simp [kind])

def oneThread (store : EntityStore) (evmChains : Finset Text) : BuildInput where
  store := store
  evmChains := evmChains
  anchorsK := none
  isAlphanumeric := Char.isAlphanum
  retainImageWitnesses := false
  tokens := .inOrder _
  documents := .inOrder _
  terms := .inOrder _
  hashProfile := fun _ => 0
  hashDocument := fun _ => 0

def rowOn (chain : String) : InputRow :=
  ⟨chain.toList, "0xabc".toList, "7".toList, [], [], [], "[1]".toList, ⟨0, 0⟩⟩

/-- The only row is of a chain that is neither an EVM chain nor Solana: the renumbering
reads an empty table. -/
theorem buildIndex_not_safe :
    ∃ store, (withOptions none {"ethereum".toList}).tryIngestRow some
        (rowOn "bitcoin") = .ok store ∧
      EntityStore.Reachable some store ∧
      (oneThread store {"ethereum".toList}).buildIndex = .error .panicked ∧
      ¬ (oneThread store {"ethereum".toList}).IndexSafe := by
  have panics : ∃ store, (withOptions none {"ethereum".toList}).tryIngestRow some
        (rowOn "bitcoin") = .ok store ∧
      (oneThread store {"ethereum".toList}).buildIndex = .error .panicked :=
    ⟨_, rfl, rfl⟩
  rcases panics with ⟨store, loaded, panicked⟩
  exact ⟨store, loaded, .ingested (.empty _ _) loaded, panicked,
    fun safe => safe.runs panicked⟩

/-- A row of an EVM chain fills the table. -/
theorem indexSafe_iff_evm :
    ∃ store, (withOptions none {"ethereum".toList}).tryIngestRow some
        (rowOn "ethereum") = .ok store ∧
      (oneThread store {"ethereum".toList}).IndexSafe := by
  have covered : ∃ store, (withOptions none {"ethereum".toList}).tryIngestRow some
        (rowOn "ethereum") = .ok store ∧
      ∀ contract ∈ store.contracts,
        chainOf store contract ∈ ({"ethereum".toList} : Finset Text) := by
    refine ⟨_, rfl, ?_⟩
    intro contract member
    rw [mem_singleton.mp member]
    decide
  rcases covered with ⟨store, loaded, isEvm⟩
  have agree : (oneThread store {"ethereum".toList}).IndexSafe ↔ _ :=
    indexSafe_iff (.ingested (.empty none {"ethereum".toList}) loaded)
  refine ⟨store, loaded, agree.mpr ?_⟩
  rintro ⟨_, ⟨contract, member, _, notEvm, _⟩, _⟩
  exact notEvm (isEvm contract member)

end BuildInput

end NftData.Dedup.Direct
