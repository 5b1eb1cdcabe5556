import NftData.Dedup.Entity.Store

namespace NftData.Dedup

/-! # The sample collector

Candidate pairs are observed bucket by bucket, handed to a download sink, and
accepted in the order of their observation once their downloads are reported.
The hash maps of the collector are only read by key, so each is its lookup
function. -/

open Function (update)

inductive MetadataSamplePool where
  | intraChain
  | crossChain
  deriving DecidableEq, Repr

inductive FastSampleBucket where
  | intra (chain : Nat)
  | cross (left right : Nat)
  deriving DecidableEq, Repr

namespace FastSampleBucket

def fromChains (left right : Nat) : FastSampleBucket :=
  if left = right then .intra left
  else if left < right then .cross left right
  else .cross right left

def pool : FastSampleBucket → MetadataSamplePool
  | .intra _ => .intraChain
  | .cross _ _ => .crossChain

end FastSampleBucket

structure MetadataImagePair where
  contractA : Nat
  nftA : Nat
  contractB : Nat
  nftB : Nat
  deriving DecidableEq, Repr

/-- The pair with the smaller contract first. -/
def MetadataImagePair.ordered (leftContract leftNft rightContract rightNft : Nat) :
    MetadataImagePair :=
  if leftContract < rightContract then
    ⟨leftContract, leftNft, rightContract, rightNft⟩
  else
    ⟨rightContract, rightNft, leftContract, leftNft⟩

/-- `(contract_a << 32) | contract_b`. -/
def MetadataImagePair.contractPair (pair : MetadataImagePair) : Nat :=
  pair.contractA <<< 32 ||| pair.contractB

structure MetadataImagePairSample where
  contractAChain : Text
  contractAAddress : Text
  tokenIdA : Text
  imageUriA : Text
  metadataJsonA : Text
  contractBChain : Text
  contractBAddress : Text
  tokenIdB : Text
  imageUriB : Text
  metadataJsonB : Text
  deriving DecidableEq, Repr

structure MetadataSampleDownloadCandidate where
  id : Nat
  pool : MetadataSamplePool
  sample : MetadataImagePairSample
  deriving DecidableEq, Repr

structure MetadataSampleDownloadResult where
  id : Nat
  success : Bool
  deriving DecidableEq, Repr

def sampledImageUri (store : EntityStore) (nft : Nft) (missing : String) :
    Except DedupError Text :=
  match nft.imageUriId with
  | some id => store.string id
  | none => .error (.invalid "metadata".toList missing.toList)

def sampledMetadata (contract : Contract) (nft : Nft) (missing : String) :
    Except DedupError Text :=
  match contract.metadataByToken.find? fun record => record.tokenId == nft.tokenId with
  | some record => .ok record.canonicalJson
  | none => .error (.invalid "metadata".toList missing.toList)

def materializeImagePair (store : EntityStore) (pair : MetadataImagePair) :
    Except DedupError MetadataImagePairSample := do
  let contractA ← indexed store.contracts pair.contractA
  let contractB ← indexed store.contracts pair.contractB
  let nftA ← indexed store.nfts pair.nftA
  let nftB ← indexed store.nfts pair.nftB
  let imageUriA ← sampledImageUri store nftA "sampled NFT A has no image URI"
  let imageUriB ← sampledImageUri store nftB "sampled NFT B has no image URI"
  let metadataJsonA ← sampledMetadata contractA nftA
    "sampled NFT A has no Metadata record"
  let metadataJsonB ← sampledMetadata contractB nftB
    "sampled NFT B has no Metadata record"
  let contractAChain ← indexed store.chains contractA.chainId
  let contractBChain ← indexed store.chains contractB.chainId
  .ok ⟨contractAChain, contractA.address, nftA.tokenId, imageUriA, metadataJsonA,
    contractBChain, contractB.address, nftB.tokenId, imageUriB, metadataJsonB⟩

abbrev BucketTargets := List (FastSampleBucket × Nat)

structure FastSampleCollector where
  store : EntityStore
  bucketTargets : BucketTargets
  acceptedByBucket : FastSampleBucket → Option Nat
  redistributionOrdinal : Nat
  seenContractPairs : Finset Nat
  intraChain : List MetadataImagePairSample
  crossChain : List MetadataImagePairSample
  /-- What the download sink has been given. -/
  downloads : List MetadataSampleDownloadCandidate
  nextCandidateId : Nat
  attemptedPairs : Nat
  pending : List MetadataSampleDownloadCandidate
  pendingBuckets : Nat → Option FastSampleBucket
  inFlight : Nat → Option (FastSampleBucket × MetadataImagePairSample)
  completed : Nat → Option (FastSampleBucket × MetadataImagePairSample × Bool)
  commitOrderByBucket : FastSampleBucket → Option (List Nat)
  viableByBucket : FastSampleBucket → Option Nat
  uncommittedByBucket : FastSampleBucket → Option Nat
  uncommittedTotal : Nat
  physicalOutstanding : Nat
  maxPhysicalOutstanding : Nat
  acceptedCandidateIds : List Nat

/-- `checked_sub(1)` with the message of its failure. -/
def checkedDecrement (value : Nat) (message : String) : Except DedupError Nat :=
  if value = 0 then
    .error (.invalid "sample_metadata".toList message.toList)
  else
    .ok (value - 1)

/-- `expect` on a map entry. -/
def expectEntry {α : Type} (entry : Option α) : Except DedupError α :=
  match entry with
  | some value => .ok value
  | none => .error .panicked

namespace FastSampleCollector

def start (store : EntityStore) (bucketTargets : BucketTargets)
    (maxPhysicalOutstanding : Nat) : FastSampleCollector where
  store := store
  bucketTargets := bucketTargets
  acceptedByBucket := fun _ => none
  redistributionOrdinal := 0
  seenContractPairs := ∅
  intraChain := []
  crossChain := []
  downloads := []
  nextCandidateId := 1
  attemptedPairs := 0
  pending := []
  pendingBuckets := fun _ => none
  inFlight := fun _ => none
  completed := fun _ => none
  commitOrderByBucket := fun _ => none
  viableByBucket := fun _ => none
  uncommittedByBucket := fun _ => none
  uncommittedTotal := 0
  physicalOutstanding := 0
  maxPhysicalOutstanding := maxPhysicalOutstanding
  acceptedCandidateIds := []

def accepted (collector : FastSampleCollector) (bucket : FastSampleBucket) : Nat :=
  (collector.acceptedByBucket bucket).getD 0

def target (collector : FastSampleCollector) (bucket : FastSampleBucket) : Nat :=
  (collector.bucketTargets.lookup bucket).getD 0

def covered (collector : FastSampleCollector) (bucket : FastSampleBucket) : Bool :=
  let viable := (collector.viableByBucket bucket).getD 0
  decide (collector.target bucket ≤ collector.accepted bucket + viable)

def totalTargetRemaining (collector : FastSampleCollector) : Nat :=
  (collector.bucketTargets.map fun (bucket, target) =>
    target - collector.accepted bucket).sum

def canPrefetch (collector : FastSampleCollector) : Bool :=
  let remaining := collector.totalTargetRemaining
  let slack := min remaining collector.maxPhysicalOutstanding
  decide (collector.uncommittedTotal < remaining + slack)

def hasCommitCapacity (collector : FastSampleCollector) : Bool :=
  decide (collector.uncommittedTotal <
    collector.totalTargetRemaining + collector.maxPhysicalOutstanding * 2)

def bucketWantsCandidate (collector : FastSampleCollector) (bucket : FastSampleBucket) :
    Bool :=
  if collector.target bucket ≤ collector.accepted bucket then
    false
  else if !collector.hasCommitCapacity then
    false
  else if collector.bucketTargets.any fun (candidate, _) => !collector.covered candidate then
    !collector.covered bucket
  else
    collector.canPrefetch

def flushCandidate (collector : FastSampleCollector)
    (candidate : MetadataSampleDownloadCandidate) :
    Except DedupError FastSampleCollector :=
  match collector.pendingBuckets candidate.id with
  | none =>
      .error (.invalid "sample_metadata".toList "missing pending sample bucket".toList)
  | some bucket =>
      match collector.inFlight candidate.id with
      | some _ =>
          .error (.invalid "sample_metadata".toList
            "duplicate media download candidate ID".toList)
      | none =>
          .ok { collector with
            pendingBuckets := update collector.pendingBuckets candidate.id none
            inFlight := update collector.inFlight candidate.id
              (some (bucket, candidate.sample)) }

def flush (collector : FastSampleCollector) : Except DedupError FastSampleCollector :=
  if collector.pending.isEmpty then
    .ok collector
  else
    collector.pending.foldlM flushCandidate
      { collector with
        downloads := collector.downloads ++ collector.pending
        pending := [] }

/-- The part of `observe` that follows the checks. -/
def submit (collector : FastSampleCollector) (pair : MetadataImagePair)
    (bucket : FastSampleBucket) : Except DedupError FastSampleCollector := do
  let collector := { collector with
    seenContractPairs := insert pair.contractPair collector.seenContractPairs
    attemptedPairs := collector.attemptedPairs + 1 }
  let sample ← materializeImagePair collector.store pair
  let id := collector.nextCandidateId
  if 2 ^ 64 ≤ id + 1 then
    .error (.invalid "sample_metadata".toList
      "too many media download candidates".toList)
  else
    flush { collector with
      nextCandidateId := id + 1
      pending := collector.pending ++ [⟨id, bucket.pool, sample⟩]
      pendingBuckets := update collector.pendingBuckets id (some bucket)
      commitOrderByBucket := update collector.commitOrderByBucket bucket
        (some ((collector.commitOrderByBucket bucket).getD [] ++ [id]))
      viableByBucket := update collector.viableByBucket bucket
        (some ((collector.viableByBucket bucket).getD 0 + 1))
      uncommittedByBucket := update collector.uncommittedByBucket bucket
        (some ((collector.uncommittedByBucket bucket).getD 0 + 1))
      uncommittedTotal := collector.uncommittedTotal + 1
      physicalOutstanding := collector.physicalOutstanding + 1 }

def observe (collector : FastSampleCollector)
    (leftContract leftNft rightContract rightNft : Nat) (needs : FastSampleBucket) :
    Except DedupError (Bool × FastSampleCollector) :=
  if leftContract = rightContract then
    .ok (false, collector)
  else do
    let pair := MetadataImagePair.ordered leftContract leftNft rightContract rightNft
    let contractA ← indexed collector.store.contracts pair.contractA
    let contractB ← indexed collector.store.contracts pair.contractB
    let bucket := FastSampleBucket.fromChains contractA.chainId contractB.chainId
    if bucket ≠ needs then
      .ok (false, collector)
    else if !collector.bucketWantsCandidate bucket ||
        decide (pair.contractPair ∈ collector.seenContractPairs) then
      .ok (false, collector)
    else do
      let submitted ← collector.submit pair bucket
      .ok (true, submitted)

def decreaseViable (collector : FastSampleCollector) (bucket : FastSampleBucket) :
    Except DedupError FastSampleCollector := do
  let viable ← expectEntry (collector.viableByBucket bucket)
  let viable ← checkedDecrement viable "viable sample count underflow"
  .ok { collector with
    viableByBucket := update collector.viableByBucket bucket (some viable) }

def receiveResult (collector : FastSampleCollector)
    (result : MetadataSampleDownloadResult) : Except DedupError FastSampleCollector :=
  match collector.inFlight result.id with
  | none =>
      .error (.invalid "sample_metadata".toList
        "media downloader returned an unknown candidate ID".toList)
  | some (bucket, sample) => do
      let outstanding ← checkedDecrement collector.physicalOutstanding
        "physical download count underflow"
      let collector := { collector with
        inFlight := update collector.inFlight result.id none
        physicalOutstanding := outstanding }
      let collector ←
        if result.success then .ok collector else collector.decreaseViable bucket
      .ok { collector with
        completed := update collector.completed result.id
          (some (bucket, sample, result.success)) }

/-- Accept a successful candidate unless its bucket is full. -/
def acceptCandidate (collector : FastSampleCollector) (bucket : FastSampleBucket)
    (id : Nat) (sample : MetadataImagePairSample) (accepted : Nat) :
    Nat × FastSampleCollector :=
  let inBucket := collector.accepted bucket
  if collector.target bucket ≤ inBucket then
    (accepted, { collector with
      acceptedByBucket := update collector.acceptedByBucket bucket
        (some inBucket) })
  else
    let counted := { collector with
      acceptedByBucket := update collector.acceptedByBucket bucket
        (some (inBucket + 1))
      acceptedCandidateIds := collector.acceptedCandidateIds ++ [id] }
    match bucket.pool with
    | .intraChain =>
        (accepted + 1, { counted with intraChain := counted.intraChain ++ [sample] })
    | .crossChain =>
        (accepted + 1, { counted with crossChain := counted.crossChain ++ [sample] })

def commitFront (collector : FastSampleCollector) (bucket : FastSampleBucket)
    (id : Nat) (rest : List Nat) (sample : MetadataImagePairSample) (success : Bool)
    (accepted : Nat) : Except DedupError (Nat × FastSampleCollector) := do
  let collector := { collector with
    completed := update collector.completed id none
    commitOrderByBucket := update collector.commitOrderByBucket bucket
      (some rest) }
  let uncommitted ← expectEntry (collector.uncommittedByBucket bucket)
  let uncommitted ← checkedDecrement uncommitted
    "sample bucket uncommitted count underflow"
  let total ← checkedDecrement collector.uncommittedTotal
    "sample uncommitted count underflow"
  let collector := { collector with
    uncommittedByBucket := update collector.uncommittedByBucket bucket
      (some uncommitted)
    uncommittedTotal := total }
  if !success then
    .ok (accepted, collector)
  else do
    let collector ← collector.decreaseViable bucket
    .ok (collector.acceptCandidate bucket id sample accepted)

/-- Commit completed candidates from the front of a queue, up to the first that is
still in flight. -/
def commitQueue (bucket : FastSampleBucket) :
    List Nat → Nat × FastSampleCollector → Except DedupError (Nat × FastSampleCollector)
  | [], state => .ok state
  | id :: rest, (accepted, collector) =>
      match collector.completed id with
      | none => .ok (accepted, collector)
      | some (completedBucket, sample, success) =>
          if completedBucket ≠ bucket then
            .error (.invalid "sample_metadata".toList
              "media candidate completed in the wrong sample bucket".toList)
          else do
            let state ← collector.commitFront bucket id rest sample success accepted
            commitQueue bucket rest state

def commitBucket (state : Nat × FastSampleCollector) (bucket : FastSampleBucket) :
    Except DedupError (Nat × FastSampleCollector) :=
  commitQueue bucket ((state.2.commitOrderByBucket bucket).getD []) state

/-- `collect`, given what the sink reports. -/
def collect (collector : FastSampleCollector)
    (results : List MetadataSampleDownloadResult) :
    Except DedupError (Nat × FastSampleCollector) := do
  let received ← results.foldlM receiveResult collector
  (received.bucketTargets.map Prod.fst).foldlM commitBucket (0, received)

end FastSampleCollector

end NftData.Dedup
