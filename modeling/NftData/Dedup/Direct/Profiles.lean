import NftData.Foundation.Slices
import NftData.Dedup.Direct.Interning

namespace NftData.Dedup.Direct

/-! # Metadata profiles

A contract becomes a raw profile: the numbered tokens and documents of its anchors.
Contracts with equal profiles are members of one profile, and the profiles of a bucket
store their anchors and members in shared lists. -/

structure MetadataMember where
  contractId : Nat
  nftId : Option Nat
  deriving DecidableEq, Repr

/-- The anchors are pairs of a token key and a document. The source keeps up to eight
of them inline. -/
structure ProfileKey where
  isEvm : Bool
  isSolana : Bool
  anchors : List (Nat × Nat)
  deriving DecidableEq, Repr

structure RawProfile where
  key : ProfileKey
  member : MetadataMember
  chainId : Nat
  deriving DecidableEq, Repr

structure RawSolanaProfile where
  document : Nat
  member : MetadataMember
  chainId : Nat
  deriving DecidableEq, Repr

def anchorsTaken (anchorsK : Option Nat) (contract : Contract) : Nat :=
  match anchorsK with
  | none => contract.metadataByToken.length
  | some limit => min contract.metadataByToken.length limit

def chainOf (store : EntityStore) (contract : Contract) : Text :=
  (store.chains[contract.chainId]?).getD []

def solana : Text := "solana".toList

/-- The records whose tokens and documents become the anchors of a regular profile:
all selected ones on an EVM chain, and the last selected one elsewhere. -/
def anchorRecords (isEvm : Bool) (anchorsK : Option Nat) (contract : Contract) :
    List MetadataRecord :=
  (contract.metadataByToken.take (anchorsTaken anchorsK contract)).drop
    (if isEvm then 0 else anchorsTaken anchorsK contract - 1)

def tokenCalls (store : EntityStore) (evmChains : Finset Text) (anchorsK : Option Nat) :
    List Text :=
  store.contracts.flatMap fun contract =>
    if chainOf store contract ∈ evmChains ∧ chainOf store contract ≠ solana then
      (anchorRecords true anchorsK contract).map fun record =>
        normalizedEvmToken record.tokenId
    else
      []

def documentCalls (store : EntityStore) (evmChains : Finset Text) (anchorsK : Option Nat) :
    List Text :=
  store.contracts.flatMap fun contract =>
    (anchorRecords
      (chainOf store contract = solana ∨ chainOf store contract ∈ evmChains) anchorsK
      contract).map MetadataRecord.canonicalJson

section Prepare

variable (store : EntityStore) (evmChains : Finset Text) (anchorsK : Option Nat)
  (tokens : Interner (tokenCalls store evmChains anchorsK))
  (documents : Interner (documentCalls store evmChains anchorsK))

def internDocument (canonicalJson : Text) : Except DedupError Nat :=
  documents.intern documentIdCapacity "too many unique metadata documents" canonicalJson

def internToken (token : Text) : Except DedupError Nat :=
  tokens.intern tokenKeyIdCapacity "too many unique metadata token IDs" token

def prepareSolanaRecord (contract : Contract) (record : MetadataRecord) :
    Except DedupError RawSolanaProfile := do
  let document ← internDocument store evmChains anchorsK documents record.canonicalJson
  match store.nftIndex (contract.id, record.tokenId) with
  | none => metadataError "Solana metadata anchor has no matching NFT"
  | some nftId => .ok ⟨document, ⟨contract.id, some nftId⟩, contract.chainId⟩

/-- One anchor of a regular profile. Only EVM tokens are interned; elsewhere the key
of the token is 0. -/
def prepareAnchor (isEvm : Bool) (record : MetadataRecord) :
    Except DedupError (Nat × Nat) := do
  let document ← internDocument store evmChains anchorsK documents record.canonicalJson
  let tokenKey ←
    if isEvm then
      internToken store evmChains anchorsK tokens (normalizedEvmToken record.tokenId)
    else
      .ok 0
  .ok (tokenKey, document)

def prepareContract (contract : Contract) :
    Except DedupError (List RawProfile × List RawSolanaProfile) := do
  let chain ← indexed store.chains contract.chainId
  let isSolana := decide (chain = solana)
  let isEvm := decide (chain ∈ evmChains)
  if anchorsTaken anchorsK contract = 0 then
    .ok ([], [])
  else if isSolana then do
    let raws ← (contract.metadataByToken.take (anchorsTaken anchorsK contract)).mapM
      (prepareSolanaRecord store evmChains anchorsK documents contract)
    .ok ([], raws)
  else do
    let anchors ← (anchorRecords isEvm anchorsK contract).mapM
      (prepareAnchor store evmChains anchorsK tokens documents isEvm)
    .ok ([⟨⟨isEvm, false, anchors⟩, ⟨contract.id, none⟩, contract.chainId⟩], [])

end Prepare

/-- `AnchorKey::remap_tokens`. -/
def RawProfile.remapTokens (remap : List Nat) (raw : RawProfile) :
    Except DedupError RawProfile := do
  let anchors ← raw.key.anchors.mapM fun anchor => do
    let token ← indexed remap anchor.1
    .ok (token, anchor.2)
  .ok { raw with key := { raw.key with anchors := anchors } }

def internShards : Nat := 256

/-- The buckets of `intern_shard`, which keeps the low bits of a hash. -/
def bucketsOf {Raw : Type} (hash : Raw → Nat) (raws : List Raw) : List (List Raw) :=
  (List.range internShards).map fun shard =>
    raws.filter fun raw => hash raw % internShards = shard

structure ProfileMembers where
  first : MetadataMember
  rest : List MetadataMember

def ProfileMembers.toList (members : ProfileMembers) : List MetadataMember :=
  members.first :: members.rest

structure ProfileChainCounts where
  first : Nat × Nat
  rest : List (Nat × Nat)

def ProfileChainCounts.toList (counts : ProfileChainCounts) : List (Nat × Nat) :=
  counts.first :: counts.rest

def countChain (chain : Nat) : List (Nat × Nat) → List (Nat × Nat)
  | [] => [(chain, 1)]
  | (candidate, count) :: rest =>
      if candidate = chain then (candidate, count + 1) :: rest
      else (candidate, count) :: countChain chain rest

def ProfileChainCounts.add (counts : ProfileChainCounts) (chain : Nat) :
    ProfileChainCounts :=
  if counts.first.1 = chain then
    { counts with first := (counts.first.1, counts.first.2 + 1) }
  else
    { counts with rest := countChain chain counts.rest }

structure ProfileBuilder (Key : Type) where
  key : Key
  members : ProfileMembers
  chainCounts : ProfileChainCounts

/-- Find the builder of a key or append one; a member equal to the first is not
repeated. -/
def addMember {Key : Type} [DecidableEq Key] (key : Key) (member : MetadataMember)
    (chainId : Nat) : List (ProfileBuilder Key) → List (ProfileBuilder Key)
  | [] => [⟨key, ⟨member, []⟩, ⟨(chainId, 1), []⟩⟩]
  | builder :: rest =>
      if builder.key = key then
        (if builder.members.first ≠ member then
          { builder with
            members := { builder.members with rest := builder.members.rest ++ [member] }
            chainCounts := builder.chainCounts.add chainId }
        else
          builder) :: rest
      else
        builder :: addMember key member chainId rest

/-- A profile before its anchors and members go to the shared lists. -/
structure UnpackedProfile where
  isEvm : Bool
  isSolana : Bool
  anchors : List (Nat × Nat)
  members : ProfileMembers
  chainCounts : ProfileChainCounts

def unpackProfile (builder : ProfileBuilder ProfileKey) : UnpackedProfile :=
  ⟨builder.key.isEvm, builder.key.isSolana, builder.key.anchors, builder.members,
    builder.chainCounts⟩

def unpackSolanaProfile (builder : ProfileBuilder Nat) : UnpackedProfile :=
  ⟨false, true, [(0, builder.key)], builder.members, builder.chainCounts⟩

def groupProfiles (bucket : List RawProfile) : List UnpackedProfile :=
  (bucket.foldl (fun builders raw => addMember raw.key raw.member raw.chainId builders)
    []).map unpackProfile

def groupSolanaProfiles (bucket : List RawSolanaProfile) : List UnpackedProfile :=
  (bucket.foldl
    (fun builders raw => addMember raw.document raw.member raw.chainId builders)
    []).map unpackSolanaProfile

structure ContractProfile where
  isEvm : Bool
  isSolana : Bool
  hasEmptyTokenDocument : Bool
  anchorStart : Nat
  anchorLen : Nat
  maxDocument : Nat
  tokenMask : List Nat
  chainMask : Nat
  memberStart : Nat
  memberLen : Nat
  chainStart : Nat
  chainLen : Nat

structure CompactProfiles where
  profiles : List ContractProfile
  anchors : List (Nat × Nat)
  members : List MetadataMember
  chainCounts : List (Nat × Nat)

def CompactProfiles.empty : CompactProfiles := ⟨[], [], [], []⟩

def u32Capacity : Nat := 2 ^ 32
def u16Capacity : Nat := 2 ^ 16

def tokenBit (token : Nat) : Nat × Nat :=
  let bit := token * 0x9e3779b97f4a7c15 % 2 ^ 64 / 2 ^ 56
  (bit / 64, 2 ^ (bit % 64))

def maskToken (mask : List Nat) (anchor : Nat × Nat) : Except DedupError (List Nat) := do
  let word ← indexed mask (tokenBit anchor.1).1
  EntityStore.assign mask (tokenBit anchor.1).1 (word ||| (tokenBit anchor.1).2)

def chainMask (counts : List (Nat × Nat)) : Nat :=
  counts.foldl (fun mask entry => if entry.1 < 64 then mask ||| 2 ^ entry.1 else mask) 0

/-- Append one profile to the shared lists. A profile without anchors would panic. -/
def compactProfile (compact : CompactProfiles) (profile : UnpackedProfile) :
    Except DedupError CompactProfiles := do
  let anchorStart ← checked u32Capacity compact.anchors.length
    "metadata anchor offset overflow"
  let anchorLen ← checked u32Capacity profile.anchors.length "too many metadata anchors"
  let last ← indexed profile.anchors (profile.anchors.length - 1)
  let tokenMask ← profile.anchors.foldlM maskToken (List.replicate 4 0)
  let memberStart ← checked u32Capacity compact.members.length
    "metadata member offset overflow"
  let memberLen ← checked u32Capacity profile.members.toList.length
    "metadata profile too large"
  let chainStart ← checked u32Capacity compact.chainCounts.length
    "metadata chain offset overflow"
  let chainLen ← checked u16Capacity profile.chainCounts.toList.length
    "too many chains in metadata profile"
  .ok
    { profiles := compact.profiles ++ [{
        isEvm := profile.isEvm
        isSolana := profile.isSolana
        hasEmptyTokenDocument := false
        anchorStart := anchorStart
        anchorLen := anchorLen
        maxDocument := last.2
        tokenMask := tokenMask
        chainMask := chainMask profile.chainCounts.toList
        memberStart := memberStart
        memberLen := memberLen
        chainStart := chainStart
        chainLen := chainLen }]
      anchors := compact.anchors ++ profile.anchors
      members := compact.members ++ profile.members.toList
      chainCounts := compact.chainCounts ++ profile.chainCounts.toList }

def compactProfiles (profiles : List UnpackedProfile) : Except DedupError CompactProfiles :=
  profiles.foldlM compactProfile .empty

def buildProfileBucket (bucket : List RawProfile) : Except DedupError CompactProfiles :=
  compactProfiles (groupProfiles bucket)

def buildSolanaProfileBucket (bucket : List RawSolanaProfile) :
    Except DedupError CompactProfiles :=
  compactProfiles (groupSolanaProfiles bucket)

end NftData.Dedup.Direct
