import NftData.Dedup.Sampling.ImageSampler

namespace NftData.Dedup

/-! # What a sampler of image witnesses keeps

When different pairs of contracts have different priorities, the tokens in a heap's entry do not
matter to its place: the sampler keeps the least pairs of contracts, and for each the least of all
its pairs of tokens. -/

open List
open Finset (image_insert mem_image mem_insert mem_insert_of_mem mem_insert_self notMem_empty)

def SamplingRandomness.contractRank (sha256 : Sha256) (randomness : SamplingRandomness)
    (contracts : ContractId × ContractId) : ℕ ×ₗ ℕ ×ₗ ℕ :=
  toLex (randomness.contractPairPriority sha256 contracts, toLex contracts)

def SamplingRandomness.nftRank (sha256 : Sha256) (randomness : SamplingRandomness)
    (pair : MetadataImagePair) : ℕ ×ₗ MetadataImagePair :=
  toLex (randomness.nftPairPriority sha256 pair, pair)

theorem SamplingRandomness.contractRank_injective (sha256 : Sha256)
    (randomness : SamplingRandomness) :
    Function.Injective (randomness.contractRank sha256) := by
  intro first second same
  simp only [contractRank, EmbeddingLike.apply_eq_iff_eq, Prod.mk.injEq] at same
  exact same.2

section Witness

variable (sha256 : Sha256) (randomness : SamplingRandomness)

/-- Different pairs of contracts have different priorities. -/
def Separates (seen : Finset MetadataImagePair) : Prop :=
  ∀ first ∈ seen, ∀ second ∈ seen,
    randomness.contractPairPriority sha256 first.contracts =
      randomness.contractPairPriority sha256 second.contracts →
        first.contracts = second.contracts

/-- The least pair of tokens that was seen for the pair of contracts. -/
structure IsWitness (seen : Finset MetadataImagePair) (contracts : ContractId × ContractId)
    (pair : MetadataImagePair) : Prop where
  member : pair ∈ seen
  contracts_eq : pair.contracts = contracts
  least : ∀ other ∈ seen, other.contracts = contracts →
    randomness.nftRank sha256 pair ≤ randomness.nftRank sha256 other

namespace IsWitness

variable {sha256 randomness} {seen : Finset MetadataImagePair}
  {contracts : ContractId × ContractId} {pair new : MetadataImagePair}

theorem keep (witness : IsWitness sha256 randomness seen contracts pair)
    (noBetter : new.contracts = contracts →
      randomness.nftRank sha256 pair ≤ randomness.nftRank sha256 new) :
    IsWitness sha256 randomness (insert new seen) contracts pair where
  member := mem_insert_of_mem witness.member
  contracts_eq := witness.contracts_eq
  least := by
    intro other member ofContracts
    rcases mem_insert.mp member with rfl | before
    · exact noBetter ofContracts
    · exact witness.least other before ofContracts

theorem improve (witness : IsWitness sha256 randomness seen contracts pair)
    (sameContracts : new.contracts = contracts)
    (better : randomness.nftRank sha256 new < randomness.nftRank sha256 pair) :
    IsWitness sha256 randomness (insert new seen) contracts new where
  member := mem_insert_self _ _
  contracts_eq := sameContracts
  least := by
    intro other member ofContracts
    rcases mem_insert.mp member with rfl | before
    · exact le_rfl
    · exact better.le.trans (witness.least other before ofContracts)

theorem first (unseen : ∀ other ∈ seen, other.contracts ≠ new.contracts) :
    IsWitness sha256 randomness (insert new seen) new.contracts new where
  member := mem_insert_self _ _
  contracts_eq := rfl
  least := by
    intro other member ofContracts
    rcases mem_insert.mp member with rfl | before
    · exact le_rfl
    · exact absurd ofContracts (unseen other before)

end IsWitness

end Witness

namespace MetadataImageSampleEntry

def contracts (entry : MetadataImageSampleEntry) : ContractId × ContractId :=
  entry.pair.contracts

/-- Entries of different contracts are in the order of their contracts. -/
theorem contractRank_lt {sha256 : Sha256} {randomness : SamplingRandomness}
    (first second : MetadataImageSampleEntry)
    (firstScored : first.priority = randomness.contractPairPriority sha256 first.contracts)
    (secondScored : second.priority = randomness.contractPairPriority sha256 second.contracts)
    (different : randomness.contractPairPriority sha256 first.contracts ≠
      randomness.contractPairPriority sha256 second.contracts) (atMost : first ≤ second) :
    randomness.contractRank sha256 first.contracts <
      randomness.contractRank sha256 second.contracts := by
  have ordered : first.priority ≤ second.priority := Prod.Lex.monotone_fst _ _ atMost
  rw [firstScored, secondScored] at ordered
  exact Prod.Lex.toLex_lt_toLex.mpr (.inl (lt_of_le_of_ne ordered different))

end MetadataImageSampleEntry

namespace MetadataImageSampler

variable {sha256 : Sha256} {randomness : SamplingRandomness} {capacity : Nat}
  {seen : Finset MetadataImagePair} {sampler other : MetadataImageSampler}
  {pair : MetadataImagePair}

/-- The sampler after it has seen some pairs. -/
structure Holds (sha256 : Sha256) (capacity : Nat) (randomness : SamplingRandomness)
    (seen : Finset MetadataImagePair) (sampler : MetadataImageSampler) : Prop where
  capacity_eq : sampler.capacity = capacity
  randomness_eq : sampler.randomness = randomness
  distinct : (sampler.heap.map MetadataImageSampleEntry.contracts).Nodup
  keys : ∀ contracts, contracts ∈ sampler.retained ↔
    contracts ∈ (sampler.heap.map MetadataImageSampleEntry.contracts).toFinset
  scored : ∀ entry ∈ sampler.heap,
    entry.priority = randomness.contractPairPriority sha256 entry.contracts
  inside : ∀ entry ∈ sampler.heap, entry.pair ∈ seen
  least : IsLeastPart capacity
    (seen.image fun pair => randomness.contractRank sha256 pair.contracts)
    ((sampler.heap.map MetadataImageSampleEntry.contracts).toFinset.image
      (randomness.contractRank sha256))
  witness : ∀ contracts pair, sampler.retained.lookup contracts = some pair →
    IsWitness sha256 randomness seen contracts pair

namespace Holds

theorem new (sha256 : Sha256) (capacity : Nat) (randomness : SamplingRandomness) :
    Holds sha256 capacity randomness ∅ (.new capacity randomness) where
  capacity_eq := rfl
  randomness_eq := rfl
  distinct := nodup_nil
  keys := fun contracts => iff_of_false (AList.notMem_empty contracts) (notMem_empty _)
  scored := fun _ member => nomatch member
  inside := fun _ member => nomatch member
  least := .empty capacity
  witness := fun _ _ found => nomatch found

theorem card (holds : Holds sha256 capacity randomness seen sampler) :
    ((sampler.heap.map MetadataImageSampleEntry.contracts).toFinset.image
      (randomness.contractRank sha256)).card = sampler.heap.length := by
  rw [Finset.card_image_of_injective _ (randomness.contractRank_injective sha256),
    toFinset_card_of_nodup holds.distinct, length_map]

variable (sha256 randomness) in
theorem mem_ranks {heap : List MetadataImageSampleEntry} {contracts : ContractId × ContractId} :
    randomness.contractRank sha256 contracts ∈
        (heap.map MetadataImageSampleEntry.contracts).toFinset.image
          (randomness.contractRank sha256) ↔
      contracts ∈ (heap.map MetadataImageSampleEntry.contracts).toFinset :=
  (randomness.contractRank_injective sha256).mem_finset_image

variable (sha256 randomness seen) in
theorem mem_seen_ranks {contracts : ContractId × ContractId} :
    randomness.contractRank sha256 contracts ∈
        seen.image (fun pair => randomness.contractRank sha256 pair.contracts) ↔
      ∃ pair ∈ seen, pair.contracts = contracts := by
  rw [mem_image]
  simp only [(randomness.contractRank_injective sha256).eq_iff]

/-- The contracts are sampled already: only their tokens may change. -/
theorem update (holds : Holds sha256 capacity randomness seen sampler) {current : MetadataImagePair}
    (found : sampler.retained.lookup pair.contracts = some current) :
    Holds sha256 capacity randomness (insert pair seen)
      (if randomness.nftRank sha256 pair < randomness.nftRank sha256 current then
        { sampler with retained := sampler.retained.insert pair.contracts pair }
      else sampler) := by
  have isKey : pair.contracts ∈ sampler.retained :=
    AList.lookup_isSome.mp (Option.isSome_iff_exists.mpr ⟨current, found⟩)
  have before := holds.witness _ _ found
  have least : IsLeastPart capacity
      ((insert pair seen).image fun pair => randomness.contractRank sha256 pair.contracts)
      ((sampler.heap.map MetadataImageSampleEntry.contracts).toFinset.image
        (randomness.contractRank sha256)) := by
    rw [image_insert]
    exact holds.least.again ((mem_ranks sha256 randomness).mpr ((holds.keys _).mp isKey))
  have inside : ∀ entry ∈ sampler.heap, entry.pair ∈ insert pair seen := fun entry member =>
    mem_insert_of_mem (holds.inside entry member)
  split_ifs with better
  · exact { holds with
      keys := by
        intro contracts
        rw [AList.mem_insert, holds.keys, or_iff_right_of_imp]
        rintro rfl
        exact (holds.keys _).mp isKey
      inside, least
      witness := by
        intro contracts kept inserted
        by_cases same : contracts = pair.contracts
        · subst same
          rw [AList.lookup_insert, Option.some.injEq] at inserted
          exact inserted ▸ before.improve rfl better
        · rw [AList.lookup_insert_ne same] at inserted
          exact (holds.witness _ _ inserted).keep fun ofContracts => absurd ofContracts.symm same }
  · exact { holds with
      inside, least
      witness := by
        intro contracts kept isKept
        apply (holds.witness _ _ isKept).keep
        rintro rfl
        rw [isKept, Option.some.injEq] at found
        exact found ▸ not_lt.mp better }

/-- The entry of contracts that are not sampled. -/
def newEntry (sha256 : Sha256) (randomness : SamplingRandomness) (pair : MetadataImagePair) :
    MetadataImageSampleEntry where
  priority := randomness.contractPairPriority sha256 pair.contracts
  pair := pair

theorem newEntry_scored (pair : MetadataImagePair) :
    (newEntry sha256 randomness pair).priority =
      randomness.contractPairPriority sha256 (newEntry sha256 randomness pair).contracts := rfl

theorem notMem_keys (holds : Holds sha256 capacity randomness seen sampler)
    (missing : sampler.retained.lookup pair.contracts = none) :
    pair.contracts ∉ (sampler.heap.map MetadataImageSampleEntry.contracts).toFinset := by
  rw [← holds.keys]
  exact AList.lookup_eq_none.mp missing

theorem contracts_mem {heap : List MetadataImageSampleEntry} {entry : MetadataImageSampleEntry}
    (member : entry ∈ heap) :
    entry.contracts ∈ (heap.map MetadataImageSampleEntry.contracts).toFinset :=
  mem_toFinset.mpr (mem_map_of_mem member)

section

variable (holds : Holds sha256 capacity randomness seen sampler)
include holds

theorem priority_ne (separates : Separates sha256 randomness (insert pair seen))
    (missing : sampler.retained.lookup pair.contracts = none) {kept : MetadataImageSampleEntry}
    (member : kept ∈ sampler.heap) :
    randomness.contractPairPriority sha256 kept.contracts ≠
      randomness.contractPairPriority sha256 pair.contracts := by
  intro same
  have contracts := separates kept.pair (mem_insert_of_mem (holds.inside kept member)) pair
    (mem_insert_self _ _) same
  exact holds.notMem_keys missing (contracts ▸ contracts_mem member)

variable {greatest : MetadataImageSampleEntry}

/-- Contracts behind all of a full heap are left out. -/
theorem skip (separates : Separates sha256 randomness (insert pair seen))
    (missing : sampler.retained.lookup pair.contracts = none)
    (full : sampler.heap.length = capacity) (found : sampler.heap.argmax id = some greatest)
    (above : greatest ≤ newEntry sha256 randomness pair) :
    Holds sha256 capacity randomness (insert pair seen) sampler := by
  have rankAbove : ∀ rank ∈ (sampler.heap.map MetadataImageSampleEntry.contracts).toFinset.image
      (randomness.contractRank sha256), rank < randomness.contractRank sha256 pair.contracts := by
    intro rank member
    obtain ⟨contracts, isKey, rfl⟩ := mem_image.mp member
    obtain ⟨kept, inHeap, rfl⟩ := mem_map.mp (mem_toFinset.mp isKey)
    have atMost := ((argmax_id_spec found).2 kept inHeap).trans above
    exact MetadataImageSampleEntry.contractRank_lt kept (newEntry sha256 randomness pair)
      (holds.scored kept inHeap) (newEntry_scored pair) (holds.priority_ne separates missing inHeap)
      atMost
  exact { holds with
    inside := fun entry member => mem_insert_of_mem (holds.inside entry member)
    least := by
      rw [image_insert]
      exact holds.least.skip (holds.card.trans full) rankAbove
    witness := by
      intro contracts kept isKept
      apply (holds.witness _ _ isKept).keep
      rintro rfl
      rw [missing] at isKept
      exact nomatch isKept }

theorem witness_insert (unseen : ∀ other ∈ seen, other.contracts ≠ pair.contracts)
    {kept : KeyedMap (ContractId × ContractId) MetadataImagePair}
    (isPart : ∀ contracts found, kept.lookup contracts = some found →
      sampler.retained.lookup contracts = some found)
    {contracts : ContractId × ContractId} {found : MetadataImagePair}
    (inserted : (kept.insert pair.contracts pair).lookup contracts = some found) :
    IsWitness sha256 randomness (insert pair seen) contracts found := by
  by_cases same : contracts = pair.contracts
  · subst same
    rw [AList.lookup_insert, Option.some.injEq] at inserted
    exact inserted ▸ .first unseen
  · rw [AList.lookup_insert_ne same] at inserted
    have before := holds.witness _ _ (isPart _ _ inserted)
    exact before.keep fun ofContracts => absurd ofContracts.symm same

theorem inside_cons {heap : List MetadataImageSampleEntry} (isPart : heap ⊆ sampler.heap) :
    ∀ entry ∈ newEntry sha256 randomness pair :: heap, entry.pair ∈ insert pair seen := by
  intro entry member
  rcases mem_cons.mp member with rfl | before
  · exact mem_insert_self _ _
  · exact mem_insert_of_mem (holds.inside entry (isPart before))

theorem scored_cons {heap : List MetadataImageSampleEntry} (isPart : heap ⊆ sampler.heap) :
    ∀ entry ∈ newEntry sha256 randomness pair :: heap,
      entry.priority = randomness.contractPairPriority sha256 entry.contracts := by
  intro entry member
  rcases mem_cons.mp member with rfl | before
  · rfl
  · exact holds.scored entry (isPart before)

theorem add (missing : sampler.retained.lookup pair.contracts = none)
    (room : sampler.heap.length < capacity) :
    Holds sha256 capacity randomness (insert pair seen)
      { sampler with
        heap := newEntry sha256 randomness pair :: sampler.heap
        retained := sampler.retained.insert pair.contracts pair } := by
  have outside := holds.notMem_keys missing
  have roomRanks := holds.card.trans_lt room
  have unseen : ∀ other ∈ seen, other.contracts ≠ pair.contracts := by
    intro other member same
    have seenRank := (mem_seen_ranks sha256 randomness seen).mpr ⟨other, member, same⟩
    exact outside ((mem_ranks sha256 randomness).mp (holds.least.mem_of_room roomRanks seenRank))
  exact {
    capacity_eq := holds.capacity_eq
    randomness_eq := holds.randomness_eq
    distinct := nodup_cons.mpr ⟨mt mem_toFinset.mpr outside, holds.distinct⟩
    keys := by
      intro contracts
      rw [AList.mem_insert, holds.keys, map_cons, toFinset_cons, mem_insert]
      rfl
    scored := holds.scored_cons (List.Subset.refl _)
    inside := holds.inside_cons (List.Subset.refl _)
    least := by
      rw [map_cons, toFinset_cons, image_insert, image_insert]
      exact holds.least.add roomRanks
    witness := fun _ _ => holds.witness_insert unseen fun _ _ => id }

theorem replace (separates : Separates sha256 randomness (insert pair seen))
    (missing : sampler.retained.lookup pair.contracts = none)
    (full : sampler.heap.length = capacity) (found : sampler.heap.argmax id = some greatest)
    (smaller : newEntry sha256 randomness pair < greatest) :
    Holds sha256 capacity randomness (insert pair seen)
      { sampler with
        heap := newEntry sha256 randomness pair :: sampler.heap.erase greatest
        retained := (sampler.retained.erase greatest.contracts).insert pair.contracts pair } := by
  have outside := holds.notMem_keys missing
  obtain ⟨inHeap, highest⟩ := argmax_id_spec found
  have fullRanks := holds.card.trans full
  have rankInside := (mem_ranks sha256 randomness).mpr (contracts_mem inHeap)
  have rankOutside := mt (mem_ranks sha256 randomness).mp outside
  have rankSmaller : randomness.contractRank sha256 pair.contracts <
      randomness.contractRank sha256 greatest.contracts :=
    MetadataImageSampleEntry.contractRank_lt (newEntry sha256 randomness pair) greatest
      (newEntry_scored pair) (holds.scored greatest inHeap)
      (holds.priority_ne separates missing inHeap).symm smaller.le
  have rankHighest : ∀ rank ∈
      (sampler.heap.map MetadataImageSampleEntry.contracts).toFinset.image
        (randomness.contractRank sha256),
      rank ≤ randomness.contractRank sha256 greatest.contracts := by
    intro rank member
    obtain ⟨contracts, isKey, rfl⟩ := mem_image.mp member
    obtain ⟨kept, keptInHeap, rfl⟩ := mem_map.mp (mem_toFinset.mp isKey)
    by_cases same : kept.contracts = greatest.contracts
    · rw [same]
    · have different := mt (separates kept.pair
        (mem_insert_of_mem (holds.inside kept keptInHeap)) greatest.pair
        (mem_insert_of_mem (holds.inside greatest inHeap))) same
      exact (MetadataImageSampleEntry.contractRank_lt kept greatest (holds.scored kept keptInHeap)
        (holds.scored greatest inHeap) different (highest kept keptInHeap)).le
  have unseen : ∀ other ∈ seen, other.contracts ≠ pair.contracts := by
    intro other member same
    exact holds.least.notMem_of_lt rankInside rankSmaller rankOutside
      ((mem_seen_ranks sha256 randomness seen).mpr ⟨other, member, same⟩)
  have isPart : sampler.heap.erase greatest ⊆ sampler.heap := erase_subset
  have erased := toFinset_map_erase holds.distinct inHeap
  exact {
    capacity_eq := holds.capacity_eq
    randomness_eq := holds.randomness_eq
    distinct := by
      rw [map_cons, nodup_cons]
      refine ⟨fun member => outside ?_, holds.distinct.sublist (erase_sublist.map _)⟩
      exact mem_toFinset.mpr (map_subset _ isPart member)
    keys := by
      intro contracts
      rw [AList.mem_insert, AList.mem_erase, holds.keys, map_cons, toFinset_cons,
        mem_insert, erased, Finset.mem_erase]
      rfl
    scored := holds.scored_cons isPart
    inside := holds.inside_cons isPart
    least := by
      rw [map_cons, toFinset_cons, erased, image_insert, image_insert,
        Finset.image_erase (randomness.contractRank_injective sha256)]
      exact holds.least.replace fullRanks rankInside rankHighest rankSmaller rankOutside
    witness := by
      intro contracts kept
      apply holds.witness_insert unseen
      intro contracts kept isKept
      by_cases same : contracts = greatest.contracts
      · rw [same, AList.lookup_erase] at isKept
        exact nomatch isKept
      · rwa [AList.lookup_erase_ne same] at isKept }

end

theorem observe (holds : Holds sha256 capacity randomness seen sampler) (positive : capacity ≠ 0)
    {leftContract leftNft rightContract rightNft : Nat} (different : leftContract ≠ rightContract)
    (isPair : MetadataImagePair.ordered leftContract leftNft rightContract rightNft = pair)
    (separates : Separates sha256 randomness (insert pair seen)) :
    Holds sha256 capacity randomness (insert pair seen)
      (sampler.observe sha256 leftContract leftNft rightContract rightNft) := by
  obtain rfl := holds.capacity_eq
  obtain rfl := holds.randomness_eq
  rw [MetadataImageSampler.observe, if_neg (not_or.mpr ⟨positive, different⟩), isPair]
  dsimp only
  cases found : sampler.retained.lookup pair.contracts with
  | some current => exact holds.update found
  | none =>
      have entry_eq : (⟨sampler.randomness.contractPairPriority sha256 pair.contracts, pair⟩ :
        MetadataImageSampleEntry) = newEntry sha256 sampler.randomness pair := rfl
      simp only [entry_eq, popFull]
      split_ifs with above full
      · obtain ⟨full, above⟩ := above
        obtain ⟨greatest, isGreatest, atMost⟩ := (Option.any_eq_true _ _).mp above
        exact holds.skip separates found full isGreatest (of_decide_eq_true atMost)
      · have nonempty : sampler.heap ≠ [] := fun none => by
          rw [none, length_nil] at full
          exact positive full.symm
        cases isGreatest : sampler.heap.argmax id with
        | none => exact absurd (argmax_eq_none.mp isGreatest) nonempty
        | some greatest =>
            have smaller : newEntry sha256 sampler.randomness pair < greatest := by
              by_contra atLeast
              apply above
              rw [isGreatest]
              exact ⟨full, decide_eq_true (not_lt.mp atLeast)⟩
            exact holds.replace separates found full isGreatest smaller
      · have room : sampler.heap.length < sampler.capacity := by
          have bounded := holds.least.bounded
          rw [holds.card] at bounded
          omega
        exact holds.add found room

end Holds

end MetadataImageSampler

end NftData.Dedup
