import NftData.Foundation.Runs
import NftData.Dedup.Direct.Profiles

namespace NftData.Dedup.Direct

/-! # The direct metadata index

Prepared profiles are renumbered, grouped bucket by bucket, and their buckets appended
to the shared lists of the index while tokens and documents are counted. -/

/-- `&values[start..start + length]`. -/
def sliced {α : Type} (values : List α) (start length : Nat) :
    Except DedupError (List α) :=
  if start + length ≤ values.length then
    .ok ((values.drop start).take length)
  else
    .error .panicked

structure PreparedDocument where
  termStart : Nat
  termLen : Nat
  length : Nat

def documentTokens (isAlphanumeric : Char → Bool) (canonical : Text) : List Text :=
  (canonical.splitOnP fun character => !isAlphanumeric character).filter
    fun token => !token.isEmpty

def termCalls (isAlphanumeric : Char → Bool) (documents : List Text) : List Text :=
  documents.flatMap (documentTokens isAlphanumeric)

section Documents

variable (isAlphanumeric : Char → Bool) {values : List Text}
  (termTable : Interner (termCalls isAlphanumeric values))

def documentTerms (canonical : Text) : Except DedupError (List (Nat × Nat) × Nat) := do
  let scratch ← (documentTokens isAlphanumeric canonical).mapM
    (termTable.intern u32Capacity "too many unique metadata terms")
  let frequencies := (runs id (scratch.insertionSort (· ≤ ·))).map fun run =>
    (run.1, run.2.length)
  .ok (frequencies, scratch.length)

def compactDocument (compact : List PreparedDocument × List (Nat × Nat))
    (prepared : List (Nat × Nat) × Nat) :
    Except DedupError (List PreparedDocument × List (Nat × Nat)) := do
  let termStart ← checked u32Capacity compact.2.length "metadata term offset overflow"
  .ok (compact.1 ++ [⟨termStart, prepared.1.length % u32Capacity, prepared.2 % u32Capacity⟩],
    compact.2 ++ prepared.1)

/-- `DocumentInterner::into_documents`, in the order of the document numbers. -/
def intoDocuments : Except DedupError (List PreparedDocument × List (Nat × Nat)) := do
  let prepared ← values.mapM (documentTerms isAlphanumeric termTable)
  prepared.foldlM compactDocument ([], [])

end Documents

/-- What the buckets appended so far contribute. -/
structure IndexState where
  documentContextWeights : List Nat
  tokenProfileCounts : List Nat
  profiles : List ContractProfile
  anchors : List (Nat × Nat)
  members : List MetadataMember
  chainCounts : List (Nat × Nat)

def bump (counters : List Nat) (position : Nat) : Except DedupError (List Nat) := do
  let count ← indexed counters position
  EntityStore.assign counters position (min (count + 1) (u32Capacity - 1))

structure AnchorCounts where
  documentContextWeights : List Nat
  tokenProfileCounts : List Nat
  hasEmptyTokenDocument : Bool

section Append

variable (documents : List PreparedDocument) (terms : List (Nat × Nat))

def countAnchor (counts : AnchorCounts) (anchor : Nat × Nat) :
    Except DedupError AnchorCounts := do
  let weights ← bump counts.documentContextWeights anchor.2
  let tokenCounts ← bump counts.tokenProfileCounts anchor.1
  let document ← indexed documents anchor.2
  let documentTerms ← sliced terms document.termStart document.termLen
  .ok ⟨weights, tokenCounts, counts.hasEmptyTokenDocument || documentTerms.isEmpty⟩

def appendProfile (chunkAnchors : List (Nat × Nat))
    (anchorOffset memberOffset chainOffset : Nat) (state : IndexState)
    (profile : ContractProfile) : Except DedupError IndexState := do
  let anchors ← sliced chunkAnchors profile.anchorStart profile.anchorLen
  let counts ← anchors.foldlM
    (fun counts anchor =>
      if profile.isEvm then countAnchor documents terms counts anchor else .ok counts)
    ⟨state.documentContextWeights, state.tokenProfileCounts, profile.hasEmptyTokenDocument⟩
  let weights ← bump counts.documentContextWeights profile.maxDocument
  let anchorStart ← checked u32Capacity (profile.anchorStart + anchorOffset)
    "metadata anchor offset overflow"
  let memberStart ← checked u32Capacity (profile.memberStart + memberOffset)
    "metadata member offset overflow"
  let chainStart ← checked u32Capacity (profile.chainStart + chainOffset)
    "metadata chain offset overflow"
  .ok { state with
    documentContextWeights := weights
    tokenProfileCounts := counts.tokenProfileCounts
    profiles := state.profiles ++ [{ profile with
      hasEmptyTokenDocument := counts.hasEmptyTokenDocument
      anchorStart := anchorStart
      memberStart := memberStart
      chainStart := chainStart }] }

def appendChunk (state : IndexState) (chunk : CompactProfiles) :
    Except DedupError IndexState := do
  let _ ← checked u32Capacity (state.anchors.length + chunk.anchors.length)
    "metadata anchor offset overflow"
  let _ ← checked u32Capacity (state.members.length + chunk.members.length)
    "metadata member offset overflow"
  let _ ← checked u32Capacity (state.chainCounts.length + chunk.chainCounts.length)
    "metadata chain offset overflow"
  let appended ← chunk.profiles.foldlM
    (appendProfile documents terms chunk.anchors state.anchors.length state.members.length
      state.chainCounts.length)
    state
  .ok { appended with
    anchors := state.anchors ++ chunk.anchors
    members := state.members ++ chunk.members
    chainCounts := state.chainCounts ++ chunk.chainCounts }

end Append

/-! ## Image witnesses -/

structure FastSampleChainContracts where
  chain : Nat
  firstContract : Nat
  hasDistinctContract : Bool

def updateFastSampleChainSummary (chain contract : Nat) :
    List FastSampleChainContracts → List FastSampleChainContracts
  | [] => [⟨chain, contract, false⟩]
  | entry :: rest =>
      if entry.chain = chain then
        { entry with
          hasDistinctContract :=
            entry.hasDistinctContract || decide (entry.firstContract ≠ contract) } :: rest
      else
        entry :: updateFastSampleChainSummary chain contract rest

structure ImageWitnessRange where
  memberStart : Nat
  memberEnd : Nat
  summaryStart : Nat
  summaryEnd : Nat

/-- The ranges are found by profile, token key and document. -/
structure ImageWitnessIndex where
  ranges : Nat × Nat × Nat → Option ImageWitnessRange
  members : List (Nat × Nat)
  chainSummaries : List FastSampleChainContracts

def ImageWitnessIndex.empty : ImageWitnessIndex := ⟨fun _ => none, [], []⟩

section Witnesses

variable (store : EntityStore)

def witnessRecords (isEvm : Bool) (anchorCount : Nat) (contract : Contract) :
    Except DedupError (List MetadataRecord) :=
  if isEvm then
    sliced contract.metadataByToken 0 anchorCount
  else
    .ok (contract.metadataByToken.drop (contract.metadataByToken.length - 1))

def witnessNft (profile : ContractProfile) (anchorCount anchorIndex : Nat)
    (member : MetadataMember) : Except DedupError Nat :=
  match member.nftId with
  | some nftId => .ok nftId
  | none => do
      let contract ← indexed store.contracts member.contractId
      let records ← witnessRecords profile.isEvm anchorCount contract
      if records.length ≠ anchorCount then
        metadataError "metadata image witness layout does not match profile anchors"
      else do
        let record ← indexed records anchorIndex
        match store.nftIndex (member.contractId, record.tokenId) with
        | none => metadataError "metadata image witness has no matching NFT"
        | some nftId => .ok nftId

def witnessMember (profile : ContractProfile) (anchorCount anchorIndex : Nat)
    (found : List (Nat × Nat) × List FastSampleChainContracts) (member : MetadataMember) :
    Except DedupError (List (Nat × Nat) × List FastSampleChainContracts) := do
  let nftId ← witnessNft store profile anchorCount anchorIndex member
  let nft ← indexed store.nfts nftId
  if nft.imageUriId.isSome then do
    let contract ← indexed store.contracts member.contractId
    .ok (found.1 ++ [(member.contractId, nftId)],
      updateFastSampleChainSummary contract.chainId member.contractId found.2)
  else
    .ok found

def witnessAnchor (profileId : Nat) (profile : ContractProfile) (anchorCount : Nat)
    (members : List MetadataMember) (witnesses : ImageWitnessIndex)
    (anchor : (Nat × Nat) × Nat) : Except DedupError ImageWitnessIndex := do
  let memberStart ← checked u32Capacity witnesses.members.length "too many image witnesses"
  let (imageMembers, chainSummary) ← members.foldlM
    (witnessMember store profile anchorCount anchor.2) (witnesses.members, [])
  let memberEnd ← checked u32Capacity imageMembers.length "too many image witnesses"
  if memberStart ≠ memberEnd then do
    let summaryStart ← checked u32Capacity witnesses.chainSummaries.length
      "too many image witness chain summaries"
    let summaryEnd ← checked u32Capacity
      (witnesses.chainSummaries.length + chainSummary.length)
      "too many image witness chain summaries"
    .ok
      { ranges := Function.update witnesses.ranges
          (profileId % u32Capacity, anchor.1.1, anchor.1.2)
          (some ⟨memberStart, memberEnd, summaryStart, summaryEnd⟩)
        members := imageMembers
        chainSummaries := witnesses.chainSummaries ++ chainSummary }
  else
    .ok { witnesses with members := imageMembers }

def buildImageWitnesses (state : IndexState) : Except DedupError ImageWitnessIndex :=
  state.profiles.zipIdx.foldlM
    (fun witnesses entry => do
      let anchors ← sliced state.anchors entry.1.anchorStart entry.1.anchorLen
      anchors.zipIdx.foldlM
        (fun witnesses anchor => do
          let members ← sliced state.members entry.1.memberStart entry.1.memberLen
          witnessAnchor store entry.2 entry.1 anchors.length members witnesses anchor)
        witnesses)
    .empty

def retainedWitnesses (retain : Bool) (state : IndexState) :
    Except DedupError (Option ImageWitnessIndex) :=
  if retain then do
    let witnesses ← buildImageWitnesses store state
    .ok (some witnesses)
  else
    .ok none

end Witnesses

structure DirectIndex where
  documents : List PreparedDocument
  terms : List (Nat × Nat)
  documentContextWeights : List Nat
  profiles : List ContractProfile
  anchors : List (Nat × Nat)
  tokenProfileCounts : List Nat
  members : List MetadataMember
  chainCounts : List (Nat × Nat)
  queryProfileCount : Nat
  eligibleContracts : Nat
  eligibleMembers : Nat
  anchorCount : Nat
  uniqueTerms : Nat
  imageWitnesses : Option ImageWitnessIndex

def profileSortKey (profile : ContractProfile) : Nat ×ₗ Bool :=
  toLex (profile.maxDocument, profile.isSolana)

/-- The options, tables and hash functions of one build. -/
structure BuildInput where
  store : EntityStore
  evmChains : Finset Text
  anchorsK : Option Nat
  isAlphanumeric : Char → Bool
  retainImageWitnesses : Bool
  tokens : Interner (tokenCalls store evmChains anchorsK)
  documents : Interner (documentCalls store evmChains anchorsK)
  terms : Interner (termCalls isAlphanumeric documents.values)
  hashProfile : ProfileKey → Nat
  hashDocument : Nat → Nat

namespace BuildInput

variable (input : BuildInput)

def prepare : Except DedupError (List (List RawProfile × List RawSolanaProfile)) :=
  input.store.contracts.mapM
    (prepareContract input.store input.evmChains input.anchorsK input.tokens input.documents)

/-- How many members the selected contracts contribute: a Solana contract one for each
record. -/
def eligibleMembers : Nat :=
  (input.store.contracts.map fun contract =>
    if chainOf input.store contract = solana then anchorsTaken input.anchorsK contract
    else min 1 (anchorsTaken input.anchorsK contract)).sum

def anchorCount : Nat :=
  (input.store.contracts.map fun contract =>
    (anchorRecords
      (chainOf input.store contract = solana ∨ chainOf input.store contract ∈ input.evmChains)
      input.anchorsK contract).length).sum

def assemble (tokenCount : Nat) (regular : List (List RawProfile))
    (solanaBuckets : List (List RawSolanaProfile)) : Except DedupError DirectIndex := do
  let (documents, terms) ← intoDocuments input.isAlphanumeric input.terms
  let regularChunks ← regular.mapM buildProfileBucket
  let solanaChunks ← solanaBuckets.mapM buildSolanaProfileBucket
  let appended ← (regularChunks ++ solanaChunks).foldlM (appendChunk documents terms)
    ⟨List.replicate documents.length 0, List.replicate tokenCount 0, [], [], [], []⟩
  let state := { appended with
    profiles := appended.profiles.insertionSort fun left right =>
      profileSortKey left ≤ profileSortKey right }
  let imageWitnesses ← retainedWitnesses input.store input.retainImageWitnesses state
  .ok
    { documents := documents
      terms := terms
      documentContextWeights := state.documentContextWeights
      profiles := state.profiles
      anchors := state.anchors
      tokenProfileCounts := state.tokenProfileCounts
      members := state.members
      chainCounts := state.chainCounts
      queryProfileCount := state.profiles.length
      eligibleContracts := input.store.contracts.countP fun contract =>
        anchorsTaken input.anchorsK contract ≠ 0
      eligibleMembers := input.eligibleMembers
      anchorCount := input.anchorCount
      uniqueTerms := input.terms.values.length
      imageWitnesses := imageWitnesses }

/-- `build_index_with_image_witnesses`. -/
def buildIndex : Except DedupError DirectIndex := do
  let raws ← input.prepare
  let regular := bucketsOf (fun raw => input.hashProfile raw.key) (raws.flatMap Prod.fst)
  let solanaBuckets :=
    bucketsOf (fun raw => input.hashDocument raw.document) (raws.flatMap Prod.snd)
  let remap ← intoOrderedRemap input.tokens
  let regular ← regular.mapM fun bucket => bucket.mapM (RawProfile.remapTokens remap)
  input.assemble remap.length regular solanaBuckets

end BuildInput

end NftData.Dedup.Direct
