import NftData.Dedup.Direct.Safety

namespace NftData.Dedup.Direct

/-! # Layout of the shared lists

A profile finds its anchors and members in the shared lists. Appending profiles and
whole buckets keeps this, so the lookups of the counting and of the image witnesses
stay inside. -/

open List

variable {length start : Nat}

theorem sliced_guarded {α : Type} {values slice : List α} (has : HasSlice values start length slice)
    :
    Guarded .panicked (fun entries => entries = slice) (sliced values start length) := by
  rw [sliced, if_pos has.inside]
  exact has.entries

theorem sliced_inside {α : Type} {values : List α} (inside : start + length ≤ values.length) :
    Guarded .panicked (fun _ => True) (sliced values start length) := by
  rw [sliced, if_pos inside]
  exact trivial

/-- The profile finds fitting anchors and members in the lists. -/
structure Placed (store : EntityStore) (tokenCount documentCount : Nat)
    (anchors : List (Nat × Nat)) (members : List MetadataMember)
    (profile : ContractProfile) : Prop where
  slices : ∃ ownAnchors ownMembers,
    HasSlice anchors profile.anchorStart profile.anchorLen ownAnchors ∧
    HasSlice members profile.memberStart profile.memberLen ownMembers ∧
    ProfileFits store tokenCount documentCount profile.isEvm ownAnchors ownMembers
  maxDocument : profile.maxDocument < documentCount

section Placed

variable {store : EntityStore} {tokenCount documentCount : Nat}
  {anchors : List (Nat × Nat)} {members : List MetadataMember} {profile : ContractProfile}

theorem Placed.append (placed : Placed store tokenCount documentCount anchors members profile)
    (moreAnchors : List (Nat × Nat)) (moreMembers : List MetadataMember) :
    Placed store tokenCount documentCount (anchors ++ moreAnchors) (members ++ moreMembers)
      profile := by
  rcases placed.slices with ⟨ownAnchors, ownMembers, anchorsAt, membersAt, fits⟩
  exact ⟨⟨ownAnchors, ownMembers, anchorsAt.append _, membersAt.append _, fits⟩,
    placed.maxDocument⟩

end Placed

/-- The layout of one bucket. -/
def LaidOut (store : EntityStore) (tokenCount documentCount : Nat)
    (compact : CompactProfiles) : Prop :=
  ∀ profile ∈ compact.profiles,
    Placed store tokenCount documentCount compact.anchors compact.members profile

section Compact

variable {store : EntityStore} {tokenCount documentCount : Nat}

theorem tokenBit_word_lt (token : Nat) : (tokenBit token).1 < 4 := by
  have below : token * 0x9e3779b97f4a7c15 % 2 ^ 64 < 2 ^ 64 := Nat.mod_lt _ (by decide)
  rw [tokenBit]
  omega

/-- The token mask has four words, and every token falls into one. -/
theorem maskTokens_guarded (anchors : List (Nat × Nat)) :
    Guarded .panicked (fun mask => mask.length = 4)
      (anchors.foldlM maskToken (List.replicate 4 0)) := by
  have keeps : ∀ mask : List Nat, ∀ anchor ∈ anchors, mask.length = 4 →
      Guarded .panicked (fun mask => mask.length = 4) (maskToken mask anchor) := by
    intro mask anchor _ length
    have inside : (tokenBit anchor.1).1 < mask.length := length ▸ tokenBit_word_lt anchor.1
    rw [maskToken]
    apply (indexed_guarded inside).bind
    intro word _ _
    apply (assign_guarded inside).weaken
    intro assigned isSet
    rw [isSet, length_set, length]
  exact Guarded.foldlM keeps length_replicate

theorem compactProfile_guarded {compact : CompactProfiles} {profile : UnpackedProfile}
    (laidOut : LaidOut store tokenCount documentCount compact)
    (fits : profile.Fits store tokenCount documentCount) :
    Guarded .panicked (LaidOut store tokenCount documentCount)
      (compactProfile compact profile) := by
  have nonempty := length_pos_of_ne_nil fits.nonempty
  have lastInside : profile.anchors.length - 1 < profile.anchors.length := by omega
  rw [compactProfile]
  apply (checked_guarded _ _ _).bind
  rintro anchorStart _ ⟨startEqual, _⟩
  apply (checked_guarded _ _ _).bind
  rintro anchorLen _ ⟨lenEqual, _⟩
  apply (indexed_guarded lastInside).bind
  intro last _ lastAt
  apply (maskTokens_guarded _).bind
  intro tokenMask _ _
  apply (checked_guarded _ _ _).bind
  rintro memberStart _ ⟨memberStartEqual, _⟩
  apply (checked_guarded _ _ _).bind
  rintro memberLen _ ⟨memberLenEqual, _⟩
  apply (checked_guarded _ _ _).bind
  intro chainStart _ _
  apply (checked_guarded _ _ _).bind
  intro chainLen _ _ placed isPlaced
  rcases mem_append.mp isPlaced with old | new
  · exact (laidOut placed old).append _ _
  · rw [mem_singleton] at new
    subst new startEqual lenEqual memberStartEqual memberLenEqual
    exact ⟨⟨profile.anchors, profile.members.toList, .appended _ _, .appended _ _, fits⟩,
      fits.documents last (mem_of_getElem? lastAt)⟩

theorem compactProfiles_guarded {profiles : List UnpackedProfile}
    (fits : ∀ profile ∈ profiles, profile.Fits store tokenCount documentCount) :
    Guarded .panicked (LaidOut store tokenCount documentCount) (compactProfiles profiles) := by
  apply Guarded.foldlM
  · intro compact profile member laidOut
    exact compactProfile_guarded laidOut (fits profile member)
  · intro profile member
    cases member

end Compact

/-- Every document finds its terms. -/
def DocumentsFit (documentCount : Nat)
    (compact : List PreparedDocument × List (Nat × Nat)) : Prop :=
  compact.1.length = documentCount ∧
    ∀ document ∈ compact.1, document.termStart + document.termLen ≤ compact.2.length

theorem compactDocument_guarded {compact : List PreparedDocument × List (Nat × Nat)}
    {count : Nat} (fits : DocumentsFit count compact)
    (prepared : List (Nat × Nat) × Nat) :
    Guarded .panicked (DocumentsFit (count + 1)) (compactDocument compact prepared) := by
  rw [compactDocument]
  apply (checked_guarded _ _ _).bind
  rintro termStart _ ⟨equal, _⟩
  refine ⟨by rw [length_append, fits.1]; rfl, ?_⟩
  intro document isDocument
  rw [length_append]
  rcases mem_append.mp isDocument with old | new
  · have := fits.2 document old
    omega
  · rw [mem_singleton] at new
    subst new equal
    have := Nat.mod_le prepared.1.length u32Capacity
    change compact.2.length + prepared.1.length % u32Capacity ≤ _
    omega

theorem intoDocuments_guarded (isAlphanumeric : Char → Bool) {values : List Text}
    (termTable : Interner (termCalls isAlphanumeric values)) :
    Guarded .panicked (DocumentsFit values.length)
      (intoDocuments isAlphanumeric termTable) := by
  rw [intoDocuments]
  have each : ∀ canonical ∈ values, Guarded .panicked (fun _ => True)
      (documentTerms isAlphanumeric termTable canonical) := by
    intro canonical member
    rw [documentTerms]
    have interned : ∀ token ∈ documentTokens isAlphanumeric canonical,
        Guarded .panicked (fun _ => True)
          (termTable.intern u32Capacity "too many unique metadata terms" token) := by
      intro token isToken
      have called : token ∈ termCalls isAlphanumeric values :=
        mem_flatMap.mpr ⟨canonical, member, isToken⟩
      exact (termTable.intern_guarded _ _ called).weaken fun _ _ => trivial
    apply (Guarded.mapM interned).bind
    intro scratch _ _
    exact trivial
  apply (Guarded.mapM each).bind
  intro prepared _ same
  have compacted : ∀ (rest : List (List (Nat × Nat) × Nat)) (count : Nat) (compact : _ × _),
      DocumentsFit count compact →
      Guarded .panicked (DocumentsFit (count + rest.length))
        (rest.foldlM compactDocument compact) := by
    intro rest
    induction rest with
    | nil => exact fun count compact fits => fits
    | cons head rest induction =>
        intro count compact fits
        rw [foldlM_cons, length_cons, Nat.add_comm rest.length, ← Nat.add_assoc]
        apply (compactDocument_guarded fits head).bind
        intro next _ nextFits
        exact induction _ next nextFits
  have result := compacted prepared 0 ([], []) ⟨rfl, by simp⟩
  rw [Nat.zero_add, ← same.length_eq] at result
  exact result

/-! ## Appended buckets -/

/-- The counters have their sizes, and every profile finds its place in the lists. -/
structure StateFits (store : EntityStore) (tokenCount documentCount : Nat)
    (anchors : List (Nat × Nat)) (members : List MetadataMember) (state : IndexState) :
    Prop where
  weights : state.documentContextWeights.length = documentCount
  counts : state.tokenProfileCounts.length = tokenCount
  profiles : ∀ profile ∈ state.profiles,
    Placed store tokenCount documentCount anchors members profile

variable {profile : ContractProfile} {state : IndexState} {members : List MetadataMember}

section Append

variable {store : EntityStore} {tokenCount documentCount : Nat}
  {documents : List PreparedDocument} {terms : List (Nat × Nat)}

theorem bump_guarded {counters : List Nat} {position : Nat}
    (inside : position < counters.length) :
    Guarded .panicked (fun bumped => bumped.length = counters.length)
      (bump counters position) := by
  rw [bump]
  apply (indexed_guarded inside).bind
  intro count _ _
  apply (assign_guarded inside).weaken
  intro assigned isSet
  rw [isSet, length_set]

/-- The counters have their sizes. -/
def CountersFit (tokenCount documentCount : Nat) (counts : AnchorCounts) : Prop :=
  counts.documentContextWeights.length = documentCount ∧
    counts.tokenProfileCounts.length = tokenCount

section

variable (documentsFit : DocumentsFit documentCount (documents, terms))
include documentsFit

theorem countAnchor_guarded
    {counts : AnchorCounts} (fit : CountersFit tokenCount documentCount counts)
    {anchor : Nat × Nat} (document : anchor.2 < documentCount)
    (token : anchor.1 < tokenCount) :
    Guarded .panicked (CountersFit tokenCount documentCount)
      (countAnchor documents terms counts anchor) := by
  have documentInside : anchor.2 < documents.length := documentsFit.1 ▸ document
  rw [countAnchor]
  apply (bump_guarded (fit.1 ▸ document)).bind
  intro weights _ weightsLength
  apply (bump_guarded (fit.2 ▸ token)).bind
  intro tokenCounts _ countsLength
  apply (indexed_guarded documentInside).bind
  intro prepared _ preparedAt
  have within := documentsFit.2 prepared (mem_of_getElem? preparedAt)
  apply (sliced_inside within).bind
  intro documentTerms _ _
  exact ⟨weightsLength.trans fit.1, countsLength.trans fit.2⟩

variable {chunk : CompactProfiles}

theorem appendProfile_guarded {anchors : List (Nat × Nat)} (chainOffset : Nat)
    (fits : StateFits store tokenCount documentCount (anchors ++ chunk.anchors)
      (members ++ chunk.members) state)
    (placed : Placed store tokenCount documentCount chunk.anchors chunk.members profile) :
    Guarded .panicked
      (StateFits store tokenCount documentCount (anchors ++ chunk.anchors)
        (members ++ chunk.members))
      (appendProfile documents terms chunk.anchors anchors.length members.length chainOffset
        state profile) := by
  rcases placed.slices with ⟨ownAnchors, ownMembers, anchorsAt, membersAt, profileFits⟩
  have counted : Guarded .panicked (CountersFit tokenCount documentCount)
      (ownAnchors.foldlM
        (fun counts anchor =>
          if profile.isEvm then countAnchor documents terms counts anchor else .ok counts)
        ⟨state.documentContextWeights, state.tokenProfileCounts,
          profile.hasEmptyTokenDocument⟩) := by
    have keeps : ∀ counts : AnchorCounts, ∀ anchor ∈ ownAnchors,
        CountersFit tokenCount documentCount counts →
        Guarded .panicked (CountersFit tokenCount documentCount)
          (if profile.isEvm then countAnchor documents terms counts anchor
            else .ok counts) := by
      intro counts anchor member fit
      split
      · next isEvm =>
          exact countAnchor_guarded documentsFit fit (profileFits.documents anchor member)
            (profileFits.tokens isEvm anchor member)
      · exact fit
    exact Guarded.foldlM keeps ⟨fits.weights, fits.counts⟩
  rw [appendProfile]
  apply (sliced_guarded anchorsAt).bind
  intro entries _ isSlice
  rw [isSlice]
  apply counted.bind
  intro counts _ countersFit
  apply (bump_guarded (countersFit.1 ▸ placed.maxDocument)).bind
  intro weights _ weightsLength
  apply (checked_guarded _ _ _).bind
  rintro anchorStart _ ⟨anchorEqual, _⟩
  apply (checked_guarded _ _ _).bind
  rintro memberStart _ ⟨memberEqual, _⟩
  apply (checked_guarded _ _ _).bind
  intro chainStart _ _
  refine ⟨weightsLength.trans countersFit.1, countersFit.2, ?_⟩
  intro other isOther
  rcases mem_append.mp isOther with old | new
  · exact fits.profiles other old
  · rw [mem_singleton] at new
    subst new anchorEqual memberEqual
    exact ⟨⟨ownAnchors, ownMembers, anchorsAt.shift _, membersAt.shift _, profileFits⟩,
      placed.maxDocument⟩

theorem appendChunk_guarded
    (fits : StateFits store tokenCount documentCount state.anchors state.members state)
    (laidOut : LaidOut store tokenCount documentCount chunk) :
    Guarded .panicked
      (fun next => StateFits store tokenCount documentCount next.anchors next.members next)
      (appendChunk documents terms state chunk) := by
  have start : StateFits store tokenCount documentCount (state.anchors ++ chunk.anchors)
      (state.members ++ chunk.members) state :=
    ⟨fits.weights, fits.counts, fun profile member =>
      (fits.profiles profile member).append _ _⟩
  rw [appendChunk]
  apply (checked_guarded _ _ _).bind
  intro _ _ _
  apply (checked_guarded _ _ _).bind
  intro _ _ _
  apply (checked_guarded _ _ _).bind
  intro _ _ _
  apply (Guarded.foldlM (fun current profile member currentFits =>
    appendProfile_guarded documentsFit state.chainCounts.length currentFits
      (laidOut profile member)) start).bind
  intro appended _ appendedFits
  exact ⟨appendedFits.weights, appendedFits.counts, appendedFits.profiles⟩

end

end Append

section Witnesses

variable {store : EntityStore} {tokenCount documentCount : Nat} {anchorCount : Nat}

section

variable (valid : store.Valid)
include valid

variable {member : MetadataMember} {anchorIndex : Nat}

theorem witnessNft_guarded (inside : anchorIndex < anchorCount)
    (fits : MemberFits store profile.isEvm anchorCount member)
    :
    Guarded .panicked (fun nftId => nftId < store.nfts.length)
      (witnessNft store profile anchorCount anchorIndex member) := by
  rw [witnessNft]
  split
  · next nftId isSome => exact fits.nft nftId isSome
  · next isNone =>
    apply (indexed_guarded fits.contract).bind
    intro contract _ contractAt
    have records : Guarded .panicked (fun _ => True)
        (witnessRecords profile.isEvm anchorCount contract) := by
      rw [witnessRecords]
      split
      · next isEvm =>
          have enough := fits.records isNone isEvm contract contractAt
          exact sliced_inside (by omega)
      · exact trivial
    apply records.bind
    intro found _ _
    split
    · exact metadataError_guarded _
    · next sameLength =>
        have recordInside : anchorIndex < found.length := not_not.mp sameLength ▸ inside
        apply (indexed_guarded recordInside).bind
        intro record _ _
        split
        · exact metadataError_guarded _
        · next nftId isNft =>
            have at_ := (valid.nftKeys _ _).mp isNft
            have bound := (List.getElem?_eq_some_iff.mp at_).1
            rw [length_map] at bound
            exact bound

theorem witnessMember_guarded (inside : anchorIndex < anchorCount)
    (fits : MemberFits store profile.isEvm anchorCount member)
    (found : List (Nat × Nat) × List FastSampleChainContracts) :
    Guarded .panicked (fun _ => True)
      (witnessMember store profile anchorCount anchorIndex found member) := by
  rw [witnessMember]
  apply (witnessNft_guarded valid inside fits).bind
  intro nftId _ nftInside
  apply (indexed_guarded nftInside).bind
  intro nft _ _
  split
  · apply (indexed_guarded fits.contract).bind
    intro contract _ _
    exact trivial
  · exact trivial

theorem witnessAnchor_guarded (profileId : Nat)
    (fits : ∀ member ∈ members, MemberFits store profile.isEvm anchorCount member)
    (witnesses : ImageWitnessIndex) {anchor : (Nat × Nat) × Nat} (inside : anchor.2 < anchorCount) :
    Guarded .panicked (fun _ => True)
      (witnessAnchor store profileId profile anchorCount members witnesses anchor) := by
  have found : Guarded .panicked (fun _ => True)
      (members.foldlM (witnessMember store profile anchorCount anchor.2)
        (witnesses.members, [])) :=
    Guarded.foldlM (fun found member isMember _ =>
      witnessMember_guarded valid inside (fits member isMember) found) trivial
  rw [witnessAnchor]
  apply (checked_guarded _ _ _).bind
  intro memberStart _ _
  apply found.bind
  intro both _ _
  apply (checked_guarded _ _ _).bind
  intro memberEnd _ _
  split
  · apply (checked_guarded _ _ _).bind
    intro summaryStart _ _
    apply (checked_guarded _ _ _).bind
    intro summaryEnd _ _
    exact trivial
  · exact trivial

theorem buildImageWitnesses_guarded
    (fits : StateFits store tokenCount documentCount state.anchors state.members state) :
    Guarded .panicked (fun _ => True) (buildImageWitnesses store state) := by
  apply Guarded.foldlM _ trivial
  intro witnesses entry isEntry _
  rcases entry with ⟨profile, profileId⟩
  have inProfiles : profile ∈ state.profiles :=
    mem_of_getElem? (List.mem_zipIdx_iff_getElem?.mp isEntry)
  rcases (fits.profiles profile inProfiles).slices with
    ⟨ownAnchors, ownMembers, anchorsAt, membersAt, profileFits⟩
  apply (sliced_guarded anchorsAt).bind
  intro anchors _ isAnchors
  subst isAnchors
  apply Guarded.foldlM _ trivial
  intro current anchor isAnchor _
  have anchorInside : anchor.2 < anchors.length :=
    (List.getElem?_eq_some_iff.mp (List.mem_zipIdx_iff_getElem?.mp isAnchor)).1
  apply (sliced_guarded membersAt).bind
  intro members _ isMembers
  subst isMembers
  exact witnessAnchor_guarded valid profileId profileFits.members current anchorInside

theorem retainedWitnesses_guarded (retain : Bool)
    (fits : StateFits store tokenCount documentCount state.anchors state.members state) :
    Guarded .panicked (fun _ => True) (retainedWitnesses store retain state) := by
  rw [retainedWitnesses]
  split
  · apply (buildImageWitnesses_guarded valid fits).bind
    intro witnesses _ _
    exact trivial
  · exact trivial

end

end Witnesses

end NftData.Dedup.Direct
