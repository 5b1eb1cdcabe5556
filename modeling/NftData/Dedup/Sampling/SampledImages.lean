import NftData.Dedup.Sampling.ImageWitnesses
import NftData.Dedup.Sampling.SampledPairs

namespace NftData.Dedup

/-! # Merged samples

What a sampler keeps does not depend on how the observations were spread over workers, nor on the
order in which the workers' samplers were merged. -/

open List

/-- The pair that an observation is about. -/
def ImageObservation.pair (seen : ImageObservation) : Option MetadataImagePair :=
  if seen.leftContract = seen.rightContract then none
  else some (.ordered seen.leftContract seen.leftNft seen.rightContract seen.rightNft)

def imagePairs (observed : Multiset ImageObservation) : Finset MetadataImagePair :=
  (observed.filterMap ImageObservation.pair).toFinset

theorem MetadataImagePair.ordered_lt {leftContract leftNft rightContract rightNft : Nat}
    (different : leftContract ≠ rightContract) :
    (ordered leftContract leftNft rightContract rightNft).contractA <
      (ordered leftContract leftNft rightContract rightNft).contractB := by
  rw [ordered]
  split_ifs with less
  · exact less
  · exact lt_of_le_of_ne (not_lt.mp less) different.symm

variable {pair : MetadataImagePair}

theorem MetadataImagePair.ordered_self (less : pair.contractA < pair.contractB) :
    ordered pair.contractA pair.nftA pair.contractB pair.nftB = pair := by
  rw [ordered, if_pos less]

theorem imagePairs_ordered {observed : Multiset ImageObservation}
    (member : pair ∈ imagePairs observed) : pair.contractA < pair.contractB := by
  rw [imagePairs, Multiset.mem_toFinset, Multiset.mem_filterMap] at member
  obtain ⟨seen, -, isPair⟩ := member
  rw [ImageObservation.pair] at isPair
  split_ifs at isPair with same
  exact Option.some.inj isPair ▸ MetadataImagePair.ordered_lt same

theorem imagePairs_cons (seen : ImageObservation) (observed : Multiset ImageObservation) :
    imagePairs (seen ::ₘ observed) =
      match seen.pair with
      | some pair => insert pair (imagePairs observed)
      | none => imagePairs observed := by
  rw [imagePairs]
  cases found : seen.pair with
  | none =>
      rw [Multiset.filterMap_cons_none _ _ found]
      rfl
  | some pair =>
      rw [Multiset.filterMap_cons_some _ _ _ found, Multiset.toFinset_cons]
      rfl

theorem imagePairs_add (observed other : Multiset ImageObservation) :
    imagePairs (observed + other) = imagePairs observed ∪ imagePairs other := by
  rw [imagePairs, Multiset.filterMap_add, Multiset.toFinset_add]
  rfl

variable {sha256 : Sha256} {randomness : SamplingRandomness} {capacity : Nat}
  {seen more : Finset MetadataImagePair} {sampler other : MetadataImageSampler}
  {observed : Multiset ImageObservation}

theorem Separates.mono (separates : Separates sha256 randomness more) (isPart : seen ⊆ more) :
    Separates sha256 randomness seen := fun first firstMember second secondMember =>
  separates first (isPart firstMember) second (isPart secondMember)

namespace MetadataImageSampler

namespace Holds

variable {pairs : List MetadataImagePair}

theorem merge_list (holds : Holds sha256 capacity randomness seen sampler) (positive : capacity ≠ 0)
    (ordered : ∀ pair ∈ pairs, pair.contractA < pair.contractB)
    (separates : Separates sha256 randomness (seen ∪ pairs.toFinset)) :
    Holds sha256 capacity randomness (seen ∪ pairs.toFinset) (sampler.merge sha256 pairs) := by
  induction pairs generalizing seen sampler with
  | nil =>
      rw [toFinset_nil, Finset.union_empty]
      exact holds
  | cons head tail induction =>
      rw [toFinset_cons, Finset.union_insert, ← Finset.insert_union] at separates ⊢
      have less := ordered head mem_cons_self
      have next := holds.observe positive less.ne (MetadataImagePair.ordered_self less)
        (separates.mono Finset.subset_union_left)
      exact induction next (fun pair member => ordered pair (mem_cons_of_mem head member))
        separates

theorem mem_values (isOrder : pairs.Perm (other.retained.entries.map Sigma.snd)) :
    pair ∈ pairs ↔ ∃ contracts, other.retained.lookup contracts = some pair := by
  rw [isOrder.mem_iff, mem_map]
  constructor
  · rintro ⟨entry, member, rfl⟩
    exact ⟨entry.1, AList.mem_lookup_iff.mpr member⟩
  · rintro ⟨contracts, found⟩
    exact ⟨⟨contracts, pair⟩, AList.mem_lookup_iff.mp found, rfl⟩

variable {contracts : ContractId × ContractId}

theorem mem_of_lookup {kept : KeyedMap (ContractId × ContractId) MetadataImagePair}
    (found : kept.lookup contracts = some pair) :
    contracts ∈ kept := by
  rw [← AList.lookup_isSome, found]
  rfl

theorem exists_lookup (otherHolds : Holds sha256 capacity randomness more other)
    (isKey : contracts ∈ (other.heap.map MetadataImageSampleEntry.contracts).toFinset) :
    ∃ pair, other.retained.lookup contracts = some pair :=
  Option.isSome_iff_exists.mp (AList.lookup_isSome.mpr ((otherHolds.keys contracts).mpr isKey))

/-- The contracts of the pairs that a sampler hands on are those in its heap. -/
theorem image_values (otherHolds : Holds sha256 capacity randomness more other)
    (isOrder : pairs.Perm (other.retained.entries.map Sigma.snd)) :
    (pairs.toFinset.image fun pair => randomness.contractRank sha256 pair.contracts) =
      (other.heap.map MetadataImageSampleEntry.contracts).toFinset.image
        (randomness.contractRank sha256) := by
  ext rank
  rw [Finset.mem_image, Finset.mem_image]
  constructor
  · rintro ⟨pair, member, rfl⟩
    obtain ⟨contracts, found⟩ := (mem_values isOrder).mp (mem_toFinset.mp member)
    have sameContracts := (otherHolds.witness _ _ found).contracts_eq
    have isKey := (otherHolds.keys contracts).mp (mem_of_lookup found)
    exact ⟨contracts, isKey, by rw [sameContracts]⟩
  · rintro ⟨contracts, isKey, rfl⟩
    obtain ⟨pair, found⟩ := otherHolds.exists_lookup isKey
    have sameContracts := (otherHolds.witness _ _ found).contracts_eq
    have member := mem_toFinset.mpr ((mem_values isOrder).mpr ⟨contracts, found⟩)
    exact ⟨pair, member, by rw [sameContracts]⟩

theorem merge (holds : Holds sha256 capacity randomness seen sampler) (positive : capacity ≠ 0)
    (otherHolds : Holds sha256 capacity randomness more other)
    (ordered : ∀ pair ∈ more, pair.contractA < pair.contractB)
    {pairs : List MetadataImagePair}
    (isOrder : pairs.Perm (other.retained.entries.map Sigma.snd))
    (separates : Separates sha256 randomness (seen ∪ more)) :
    Holds sha256 capacity randomness (seen ∪ more) (sampler.merge sha256 pairs) := by
  have inMore : pairs.toFinset ⊆ more := by
    intro pair member
    obtain ⟨contracts, found⟩ := (mem_values isOrder).mp (mem_toFinset.mp member)
    exact (otherHolds.witness _ _ found).member
  have isPart : seen ∪ pairs.toFinset ⊆ seen ∪ more := Finset.union_subset_union_right inMore
  have merged := holds.merge_list positive
    (fun pair member => ordered pair (inMore (mem_toFinset.mpr member)))
    (separates.mono isPart)
  have least : IsLeastPart capacity
      ((seen ∪ more).image fun pair => randomness.contractRank sha256 pair.contracts)
      (((sampler.merge sha256 pairs).heap.map MetadataImageSampleEntry.contracts).toFinset.image
        (randomness.contractRank sha256)) := by
    have mergedLeast := merged.least
    rw [Finset.image_union, otherHolds.image_values isOrder] at mergedLeast
    rw [Finset.image_union]
    exact otherHolds.least.union mergedLeast
  exact { merged with
    inside := fun entry member => isPart (merged.inside entry member)
    least
    witness := by
      intro contracts kept found
      have witness := merged.witness _ _ found
      have isKey := (merged.keys contracts).mp (mem_of_lookup found)
      have chosen := (mem_ranks sha256 randomness).mpr isKey
      exact {
        member := isPart witness.member
        contracts_eq := witness.contracts_eq
        least := by
          intro pair member ofContracts
          rcases Finset.mem_union.mp member with inSeen | inOther
          · exact witness.least pair (Finset.mem_union_left _ inSeen) ofContracts
          -- The other sampler kept the contracts, as they are among the least of all.
          · have seenByOther := (mem_seen_ranks sha256 randomness more).mpr
              ⟨pair, inOther, ofContracts⟩
            have keptByOther := least.mem_part otherHolds.least
              (Finset.image_subset_image Finset.subset_union_right) chosen seenByOther
            obtain ⟨best, bestFound⟩ :=
              otherHolds.exists_lookup ((mem_ranks sha256 randomness).mp keptByOther)
            have bestWitness := otherHolds.witness _ _ bestFound
            have handedOn := mem_toFinset.mpr
              ((mem_values isOrder).mpr ⟨contracts, bestFound⟩)
            exact (witness.least best (Finset.mem_union_right _ handedOn)
              bestWitness.contracts_eq).trans (bestWitness.least pair inOther ofContracts) } }

end Holds

section

variable (sampled : Sampled sha256 capacity randomness observed sampler)
include sampled

theorem Sampled.holds
    (positive : capacity ≠ 0) (separates : Separates sha256 randomness (imagePairs observed)) :
    Holds sha256 capacity randomness (imagePairs observed) sampler := by
  induction sampled with
  | fresh => exact .new sha256 capacity randomness
  | @observe observed sampler seen before induction =>
      rw [imagePairs_cons] at separates ⊢
      rw [ImageObservation.pair] at separates ⊢
      split_ifs at separates ⊢ with same
      · rw [MetadataImageSampler.observe, if_pos (.inr same)]
        exact induction separates
      · exact (induction (separates.mono (Finset.subset_insert _ _))).observe positive same rfl
          separates
  | merge pairs _ _ isOrder induction otherInduction =>
      rw [imagePairs_add] at separates ⊢
      have holds := induction (separates.mono Finset.subset_union_left)
      have otherHolds := otherInduction (separates.mono Finset.subset_union_right)
      exact holds.merge positive otherHolds (fun pair => imagePairs_ordered) isOrder separates

theorem Sampled.empty_of_disabled
    (disabled : capacity = 0) : sampler = .new capacity randomness := by
  induction sampled with
  | fresh => rfl
  | observe seen _ same =>
      rw [same, MetadataImageSampler.observe, if_pos (.inl disabled)]
  | merge pairs _ _ isOrder same otherSame =>
      rw [otherSame] at isOrder
      have none : pairs = [] := isOrder.eq_nil
      rw [none, same]
      rfl

theorem Sampled.retained_spec (separates : Separates sha256 randomness (imagePairs observed)) :
    (∀ contracts, contracts ∈ sampler.retained ↔ randomness.contractRank sha256 contracts ∈
      leastValues capacity ((imagePairs observed).image fun pair =>
        randomness.contractRank sha256 pair.contracts)) ∧
    ∀ contracts pair, sampler.retained.lookup contracts = some pair →
      IsWitness sha256 randomness (imagePairs observed) contracts pair := by
  by_cases disabled : capacity = 0
  · rw [sampled.empty_of_disabled disabled, leastValues, disabled, take_zero]
    exact ⟨fun contracts => iff_of_false (AList.notMem_empty contracts) not_mem_nil,
      fun _ _ found => by cases found⟩
  · have holds := sampled.holds disabled separates
    refine ⟨fun contracts => ?_, holds.witness⟩
    have same := holds.least.unique (isLeastPart_leastValues capacity _)
    rw [holds.keys, ← Holds.mem_ranks sha256 randomness, same, mem_toFinset]

end

end MetadataImageSampler

/-- The samples of pairs and of image witnesses do not depend on how the observations were spread
over workers, nor on the order of merging: each reservoir is the least entries of its part of the
report, and the least contracts have their least pairs of tokens as witnesses. -/
theorem samples_partitionIndependent (sha256 : Sha256) (plan : PairSamplingPlan)
    (imageCapacity : Nat) (imageRandomness : SamplingRandomness) :
    (∀ observed sampler, PairSampler.Sampled sha256 plan observed sampler → ∀ scope,
      (sampler.reservoir scope).heap.Perm
        (leastValues plan.capacity (plan.scopeEntries sha256 scope observed)) ∧
      (sampler.reservoir scope).retained =
        ((sampler.reservoir scope).heap.map SampleEntry.pair).toFinset) ∧
    ∀ observed sampler,
      MetadataImageSampler.Sampled sha256 imageCapacity imageRandomness observed sampler →
        Separates sha256 imageRandomness (imagePairs observed) →
          (∀ contracts, contracts ∈ sampler.retained ↔
            imageRandomness.contractRank sha256 contracts ∈
              leastValues imageCapacity ((imagePairs observed).image fun pair =>
                imageRandomness.contractRank sha256 pair.contracts)) ∧
          ∀ contracts pair, sampler.retained.lookup contracts = some pair →
            IsWitness sha256 imageRandomness (imagePairs observed) contracts pair :=
  ⟨fun _ _ sampled scope => sampled.reservoir_perm scope,
    fun _ _ sampled separates => sampled.retained_spec separates⟩

def zeroRandomness : SamplingRandomness := ⟨List.replicate 32 0⟩

/-- SHA-256 on some messages of that key. -/
def zeroKeySha256 : Sha256 := fun message =>
  if message = zeroRandomness.message "contract-pair-priority" [1, 2] then
    [12, 105, 81, 156, 189, 31, 210, 59, 12, 172, 93, 199, 174, 47, 152, 145,
      44, 245, 214, 232, 67, 119, 216, 30, 85, 41, 62, 31, 134, 219, 208, 46]
  else if message = zeroRandomness.message "contract-pair-priority" [3, 4] then
    [109, 181, 47, 72, 103, 50, 151, 156, 228, 195, 157, 173, 25, 131, 170, 215,
      253, 150, 49, 181, 4, 63, 225, 128, 226, 157, 238, 132, 243, 25, 231, 155]
  else if message = zeroRandomness.message "metadata-image-contract-pair" [1, 2] then
    [182, 241, 130, 236, 37, 144, 170, 147, 197, 52, 102, 11, 192, 200, 15, 219,
      1, 32, 102, 34, 8, 247, 186, 183, 72, 253, 170, 104, 112, 244, 117, 233]
  else if message = zeroRandomness.message "metadata-image-contract-pair" [3, 4] then
    [137, 112, 181, 191, 250, 45, 103, 104, 86, 88, 113, 45, 66, 25, 29, 86,
      10, 64, 1, 143, 71, 234, 69, 215, 225, 150, 139, 219, 14, 92, 36, 34]
  else if message = zeroRandomness.message "metadata-image-nft-pair" [3, 30, 4, 40] then
    [251, 83, 121, 53, 48, 199, 101, 163, 28, 120, 78, 101, 5, 33, 110, 61,
      120, 191, 187, 9, 215, 138, 6, 118, 193, 68, 45, 121, 241, 125, 232, 63]
  else if message = zeroRandomness.message "metadata-image-nft-pair" [3, 31, 4, 41] then
    [80, 75, 139, 203, 88, 174, 180, 88, 74, 197, 176, 45, 150, 234, 28, 135,
      133, 14, 73, 55, 206, 52, 160, 243, 25, 111, 215, 185, 116, 109, 169, 37]
  else []

def twoChainPlan : PairSamplingPlan where
  capacity := 1
  randomness := zeroRandomness
  contractChains := (· / 4)

/-- One worker sees two matches, another sees a better match of the second contracts. -/
def firstWorker : MetadataImageSampler :=
  ((MetadataImageSampler.new 1 zeroRandomness).observe zeroKeySha256 1 10 2 20).observe
    zeroKeySha256 3 30 4 40

theorem samples_partitionIndependent_twoWorkers :
    (((twoChainPlan.sampler.observe zeroKeySha256 1 2).2.observe zeroKeySha256 4 3).2.reservoir
        (.chainPair (0, 1))).heap.Perm
      (leastValues 1 (twoChainPlan.scopeEntries zeroKeySha256 (.chainPair (0, 1))
        {(4, 3), (1, 2)})) ∧
    (firstWorker.merge zeroKeySha256 [⟨3, 31, 4, 41⟩]).retained.lookup (3, 4) =
      some ⟨3, 31, 4, 41⟩ ∧
    IsWitness zeroKeySha256 zeroRandomness
      (imagePairs {⟨3, 30, 4, 40⟩, ⟨1, 10, 2, 20⟩, ⟨4, 41, 3, 31⟩}) (3, 4) ⟨3, 31, 4, 41⟩ := by
  have general := samples_partitionIndependent zeroKeySha256 twoChainPlan 1 zeroRandomness
  have pairs : PairSampler.Sampled zeroKeySha256 twoChainPlan {(4, 3), (1, 2)} _ :=
    .observe 4 3 (.observe 1 2 .fresh)
  have images : MetadataImageSampler.Sampled zeroKeySha256 1 zeroRandomness
      ({⟨3, 30, 4, 40⟩, ⟨1, 10, 2, 20⟩} + {⟨4, 41, 3, 31⟩})
      (firstWorker.merge zeroKeySha256 [⟨3, 31, 4, 41⟩]) :=
    .merge _ (.observe ⟨3, 30, 4, 40⟩ (.observe ⟨1, 10, 2, 20⟩ .fresh))
      (.observe ⟨4, 41, 3, 31⟩ .fresh) (by decide +kernel)
  have found : (firstWorker.merge zeroKeySha256 [⟨3, 31, 4, 41⟩]).retained.lookup (3, 4) =
      some ⟨3, 31, 4, 41⟩ := by decide +kernel
  have separates : Separates zeroKeySha256 zeroRandomness
      (imagePairs ({⟨3, 30, 4, 40⟩, ⟨1, 10, 2, 20⟩} + {⟨4, 41, 3, 31⟩})) := by
    unfold Separates
    decide +kernel
  exact ⟨(general.1 _ _ pairs (.chainPair (0, 1))).1, found,
    (general.2 _ _ images separates).2 _ _ found⟩

end NftData.Dedup
