import NftData.Foundation.LeastPart

namespace NftData.Dedup

/-! # The sampler of contract pairs

Workers observe pairs of contracts that share something. Each keeps, for every part of the report,
a bounded sample of the pairs that belong to it: those with the least random priorities. When the
workers are done their samples are merged.

A heap is the list of its entries in no particular order; its hash maps are read by key, and a
key without an entry stands for an empty reservoir. -/

abbrev ContractId := Nat
abbrev ChainId := Nat

/-- SHA-256, from the `sha2` crate. -/
abbrev Sha256 := List UInt8 → List UInt8

/-- `u64::to_le_bytes` -/
def toLeBytes (value : Nat) : List UInt8 :=
  (List.range 8).map fun position => UInt8.ofNat (value / 256 ^ position % 256)

/-- `u64::from_le_bytes` -/
def fromLeBytes (bytes : List UInt8) : Nat :=
  bytes.foldr (fun byte rest => byte.toNat + 256 * rest) 0

structure SamplingRandomness where
  key : List UInt8
  deriving DecidableEq, Repr

def SamplingRandomness.message (randomness : SamplingRandomness) (domain : String)
    (values : List Nat) : List UInt8 :=
  randomness.key ++ domain.toList.map (fun letter => UInt8.ofNat letter.toNat) ++
    values.flatMap toLeBytes

def SamplingRandomness.score (sha256 : Sha256) (randomness : SamplingRandomness)
    (domain : String) (values : List Nat) : Nat :=
  fromLeBytes ((sha256 (randomness.message domain values)).take 8)

structure ContractPair where
  left : ContractId
  right : ContractId
  deriving DecidableEq, Repr

def ContractPair.new (left right : ContractId) : Option ContractPair :=
  if left ≠ right then
    if left < right then some ⟨left, right⟩ else some ⟨right, left⟩
  else none

structure SampleEntry where
  priority : Nat
  pair : ContractPair
  deriving Repr

namespace SampleEntry

def sortKey (entry : SampleEntry) : ℕ ×ₗ ℕ ×ₗ ℕ :=
  toLex (entry.priority, toLex (entry.pair.left, entry.pair.right))

theorem sortKey_injective : Function.Injective sortKey := by
  rintro ⟨priority, left, right⟩ ⟨otherPriority, otherLeft, otherRight⟩ same
  simp only [sortKey, EmbeddingLike.apply_eq_iff_eq, Prod.mk.injEq] at same
  obtain ⟨rfl, rfl, rfl⟩ := same
  rfl

/-- Entries are compared by priority, then by pair. -/
instance : LinearOrder SampleEntry := LinearOrder.lift' sortKey sortKey_injective

end SampleEntry

structure PairReservoir where
  heap : List SampleEntry
  retained : Finset ContractPair

namespace PairReservoir

def empty : PairReservoir := ⟨[], ∅⟩

/-- A full heap gives up its greatest entry. No heap has a capacity of zero, so that the entry
the source expects is there. -/
def popFull (reservoir : PairReservoir) (capacity : Nat) : PairReservoir :=
  if reservoir.heap.length = capacity then
    match reservoir.heap.argmax id with
    | some removed => ⟨reservoir.heap.erase removed, reservoir.retained.erase removed.pair⟩
    | none => reservoir
  else reservoir

def observe (reservoir : PairReservoir) (entry : SampleEntry) (capacity : Nat) :
    Bool × PairReservoir :=
  if entry.pair ∈ reservoir.retained then (false, reservoir)
  else if reservoir.heap.length = capacity ∧
      (reservoir.heap.argmax id).any (fun current => current ≤ entry) then
    (false, reservoir)
  else
    let popped := reservoir.popFull capacity
    (true, ⟨entry :: popped.heap, insert entry.pair popped.retained⟩)

def merge (reservoir : PairReservoir) (other : List SampleEntry) (capacity : Nat) :
    PairReservoir :=
  other.foldl (fun reservoir entry => (reservoir.observe entry capacity).2) reservoir

end PairReservoir

structure PairSamplingPlan where
  capacity : Nat
  randomness : SamplingRandomness
  /-- One chain for each contract. -/
  contractChains : ContractId → ChainId

structure PairSampler where
  plan : PairSamplingPlan
  allChains : PairReservoir
  intraChain : ChainId → PairReservoir
  chainPairs : ChainId × ChainId → PairReservoir
  crossChainSummary : ChainId → PairReservoir

def PairSamplingPlan.sampler (plan : PairSamplingPlan) : PairSampler where
  plan := plan
  allChains := .empty
  intraChain _ := .empty
  chainPairs _ := .empty
  crossChainSummary _ := .empty

def observeAt {Key : Type*} [DecidableEq Key] (reservoirs : Key → PairReservoir) (key : Key)
    (entry : SampleEntry) (capacity : Nat) : Key → PairReservoir :=
  Function.update reservoirs key ((reservoirs key).observe entry capacity).2

namespace PairSampler

variable (sha256 : Sha256)

def observe (sampler : PairSampler) (left right : ContractId) : Bool × PairSampler :=
  let capacity := sampler.plan.capacity
  if capacity = 0 then (false, sampler)
  else
    match ContractPair.new left right with
    | none => (false, sampler)
    | some pair =>
        let entry : SampleEntry := {
          priority := sampler.plan.randomness.score sha256 "contract-pair-priority"
            [pair.left, pair.right]
          pair }
        let (changed, allChains) := sampler.allChains.observe entry capacity
        let leftChain := sampler.plan.contractChains left
        let rightChain := sampler.plan.contractChains right
        if leftChain = rightChain then
          let intraChain := observeAt sampler.intraChain leftChain entry capacity
          (changed, { sampler with allChains, intraChain })
        else
          let chainPair :=
            if leftChain < rightChain then (leftChain, rightChain) else (rightChain, leftChain)
          let chainPairs := observeAt sampler.chainPairs chainPair entry capacity
          let summary := observeAt sampler.crossChainSummary leftChain entry capacity
          let crossChainSummary := observeAt summary rightChain entry capacity
          (changed, { sampler with allChains, chainPairs, crossChainSummary })

end PairSampler

/-- The parts of the report that a reservoir is kept for. -/
inductive SampleScope where
  | allChains
  | intraChain (chain : ChainId)
  | chainPair (chains : ChainId × ChainId)
  | crossChainSummary (chain : ChainId)
  deriving DecidableEq, Repr

def PairSampler.reservoir (sampler : PairSampler) : SampleScope → PairReservoir
  | .allChains => sampler.allChains
  | .intraChain chain => sampler.intraChain chain
  | .chainPair chains => sampler.chainPairs chains
  | .crossChainSummary chain => sampler.crossChainSummary chain

def PairSampler.merge (sampler : PairSampler) (entries : SampleScope → List SampleEntry) :
    PairSampler :=
  let capacity := sampler.plan.capacity
  { sampler with
    allChains := sampler.allChains.merge (entries .allChains) capacity
    intraChain := fun chain =>
      (sampler.intraChain chain).merge (entries (.intraChain chain)) capacity
    chainPairs := fun chains =>
      (sampler.chainPairs chains).merge (entries (.chainPair chains)) capacity
    crossChainSummary := fun chain =>
      (sampler.crossChainSummary chain).merge (entries (.crossChainSummary chain)) capacity }

/-- The samplers that can come of observations: each worker observes some of them, in any order,
and the samplers are merged in any order, as are the entries of their heaps. -/
inductive PairSampler.Sampled (sha256 : Sha256) (plan : PairSamplingPlan) :
    Multiset (ContractId × ContractId) → PairSampler → Prop
  | fresh : Sampled sha256 plan 0 plan.sampler
  | observe {observed sampler} (left right : ContractId) :
      Sampled sha256 plan observed sampler →
        Sampled sha256 plan ((left, right) ::ₘ observed) (sampler.observe sha256 left right).2
  | merge {observed otherObserved sampler other} (entries : SampleScope → List SampleEntry) :
      Sampled sha256 plan observed sampler → Sampled sha256 plan otherObserved other →
        (∀ scope, (entries scope).Perm (other.reservoir scope).heap) →
          Sampled sha256 plan (observed + otherObserved) (sampler.merge entries)

end NftData.Dedup
