import NftData.Dedup.Metadata.Sampler
import NftData.Dedup.Sampling.PairSampler
import NftData.Foundation.KeyedMap

namespace NftData.Dedup

/-! # The sampler of image witnesses

Beside the pairs of contracts a worker keeps, for some of them, one pair of tokens that shows the
match. A pair of contracts is sampled by its own priority; the pair of tokens that stands for it is
replaced in place when a better one is observed, so that the heap goes on with the first. -/

namespace MetadataImagePair

def sortKey (pair : MetadataImagePair) : ℕ ×ₗ ℕ ×ₗ ℕ ×ₗ ℕ :=
  toLex (pair.contractA, toLex (pair.nftA, toLex (pair.contractB, pair.nftB)))

theorem sortKey_injective : Function.Injective sortKey := by
  rintro ⟨contractA, nftA, contractB, nftB⟩ ⟨otherA, otherNftA, otherB, otherNftB⟩ same
  simp only [sortKey, EmbeddingLike.apply_eq_iff_eq, Prod.mk.injEq] at same
  obtain ⟨rfl, rfl, rfl, rfl⟩ := same
  rfl

/-- The derived order of the fields. -/
instance : LinearOrder MetadataImagePair := LinearOrder.lift' sortKey sortKey_injective

def contracts (pair : MetadataImagePair) : ContractId × ContractId :=
  (pair.contractA, pair.contractB)

end MetadataImagePair

structure MetadataImageSampleEntry where
  priority : Nat
  pair : MetadataImagePair
  deriving Repr

namespace MetadataImageSampleEntry

def sortKey (entry : MetadataImageSampleEntry) : ℕ ×ₗ MetadataImagePair :=
  toLex (entry.priority, entry.pair)

theorem sortKey_injective : Function.Injective sortKey := by
  rintro ⟨priority, pair⟩ ⟨otherPriority, otherPair⟩ same
  simp only [sortKey, EmbeddingLike.apply_eq_iff_eq, Prod.mk.injEq] at same
  obtain ⟨rfl, rfl⟩ := same
  rfl

instance : LinearOrder MetadataImageSampleEntry := LinearOrder.lift' sortKey sortKey_injective

end MetadataImageSampleEntry

structure MetadataImageSampler where
  capacity : Nat
  randomness : SamplingRandomness
  heap : List MetadataImageSampleEntry
  retained : KeyedMap (ContractId × ContractId) MetadataImagePair

def SamplingRandomness.contractPairPriority (sha256 : Sha256) (randomness : SamplingRandomness)
    (contracts : ContractId × ContractId) : Nat :=
  randomness.score sha256 "metadata-image-contract-pair" [contracts.1, contracts.2]

def SamplingRandomness.nftPairPriority (sha256 : Sha256) (randomness : SamplingRandomness)
    (pair : MetadataImagePair) : Nat :=
  randomness.score sha256 "metadata-image-nft-pair"
    [pair.contractA, pair.nftA, pair.contractB, pair.nftB]

namespace MetadataImageSampler

def new (capacity : Nat) (randomness : SamplingRandomness) : MetadataImageSampler where
  capacity := capacity
  randomness := randomness
  heap := []
  retained := ∅

def popFull (sampler : MetadataImageSampler) : MetadataImageSampler :=
  if sampler.heap.length = sampler.capacity then
    match sampler.heap.argmax id with
    | some removed =>
        { sampler with
          heap := sampler.heap.erase removed
          retained := sampler.retained.erase removed.pair.contracts }
    | none => sampler
  else sampler

variable (sha256 : Sha256)

def observe (sampler : MetadataImageSampler)
    (leftContract leftNft rightContract rightNft : Nat) : MetadataImageSampler :=
  if sampler.capacity = 0 ∨ leftContract = rightContract then sampler
  else
    let pair := MetadataImagePair.ordered leftContract leftNft rightContract rightNft
    match sampler.retained.lookup pair.contracts with
    | some current =>
        let candidatePriority := sampler.randomness.nftPairPriority sha256 pair
        let currentPriority := sampler.randomness.nftPairPriority sha256 current
        if toLex (candidatePriority, pair) < toLex (currentPriority, current) then
          { sampler with retained := sampler.retained.insert pair.contracts pair }
        else sampler
    | none =>
        let entry : MetadataImageSampleEntry := {
          priority := sampler.randomness.contractPairPriority sha256 pair.contracts
          pair }
        if sampler.heap.length = sampler.capacity ∧
            (sampler.heap.argmax id).any (fun current => current ≤ entry) then
          sampler
        else
          let popped := sampler.popFull
          { popped with
            heap := entry :: popped.heap
            retained := popped.retained.insert pair.contracts pair }

def observePair (sampler : MetadataImageSampler) (pair : MetadataImagePair) :
    MetadataImageSampler :=
  sampler.observe sha256 pair.contractA pair.nftA pair.contractB pair.nftB

def merge (sampler : MetadataImageSampler) (pairs : List MetadataImagePair) :
    MetadataImageSampler :=
  pairs.foldl (observePair sha256) sampler

end MetadataImageSampler

/-- A match of two tokens that a worker observes. -/
structure ImageObservation where
  leftContract : ContractId
  leftNft : Nat
  rightContract : ContractId
  rightNft : Nat
  deriving DecidableEq, Repr

/-- The samplers of image witnesses that can come of observations. -/
inductive MetadataImageSampler.Sampled (sha256 : Sha256) (capacity : Nat)
    (randomness : SamplingRandomness) : Multiset ImageObservation → MetadataImageSampler → Prop
  | fresh : Sampled sha256 capacity randomness 0 (.new capacity randomness)
  | observe {observed sampler} (seen : ImageObservation) :
      Sampled sha256 capacity randomness observed sampler →
        Sampled sha256 capacity randomness (seen ::ₘ observed)
          (sampler.observe sha256 seen.leftContract seen.leftNft seen.rightContract seen.rightNft)
  | merge {observed otherObserved sampler other} (pairs : List MetadataImagePair) :
      Sampled sha256 capacity randomness observed sampler →
        Sampled sha256 capacity randomness otherObserved other →
          pairs.Perm (other.retained.entries.map Sigma.snd) →
            Sampled sha256 capacity randomness (observed + otherObserved)
              (sampler.merge sha256 pairs)

end NftData.Dedup
