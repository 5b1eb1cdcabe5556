import NftData.Dedup.Uri.TokenScopes

namespace NftData.Dedup

/-! # Image URI hits

An NFT whose token URI was hit in a scope does not count in the image dimension of that
scope. -/

inductive MatrixNftSet
  | compact (masks : Nat → Nat)
  | wide (entries : Finset (Nat × Nat))

def MatrixNftSet.contains (set : MatrixNftSet) (nftId chainId : Nat) : Bool :=
  match set with
  | .compact masks => (masks nftId).testBit chainId
  | .wide entries => (nftId, chainId) ∈ entries

/-- The NFTs hit by token URI. A `DenseNftSet` has a bit for each NFT. -/
structure TokenHits where
  intra : Finset Nat
  crossSummary : Finset Nat
  matrix : MatrixNftSet

def TokenWorker.hits (worker : TokenWorker) : TokenHits where
  intra := worker.intra.toFinset
  crossSummary := worker.crossSummary.toFinset
  matrix :=
    match worker.matrix with
    | .compact entries =>
        .compact (entries.foldl
          (fun masks entry => Function.update masks entry.1 (masks entry.1 ||| entry.2))
          fun _ => 0)
    | .wide entries => .wide entries.toFinset

/-- The NFTs that count in a scope. -/
structure ScopeFilters where
  intra : Nat → Bool
  crossSummary : Nat → Bool
  matrix : Nat → Nat → Bool

def TokenHits.filters (hits : TokenHits) : ScopeFilters where
  intra := fun nftId => nftId ∉ hits.intra
  crossSummary := fun nftId => nftId ∉ hits.crossSummary
  matrix := fun chain nftId => !hits.matrix.contains nftId chain

structure GroupScopeAggregate where
  contracts : List Nat
  nftRows : Saturating u64Max
  postingCount : Nat

namespace GroupScopeAggregate

/-- `GroupScopeAggregate::default()`. -/
def default : GroupScopeAggregate := ⟨[], 0, 0⟩

def addPosting (aggregate : GroupScopeAggregate) (contractId nftRows : Nat) :
    GroupScopeAggregate :=
  if nftRows = 0 then
    aggregate
  else
    { contracts := aggregate.contracts ++ [contractId]
      nftRows := aggregate.nftRows + .ofNat _ nftRows
      postingCount := aggregate.postingCount + 1 }

def ofChain (members : List UriPosting) (chain : Nat) (keep : Nat → Bool) :
    GroupScopeAggregate :=
  members.foldl
    (fun aggregate posting =>
      if posting.chainId = chain then
        aggregate.addPosting posting.contractId (posting.nftIds.countP keep)
      else aggregate)
    default

end GroupScopeAggregate

def LocalUriAccumulator.addImageGroup (output : LocalUriAccumulator) (chain : Nat)
    (aggregate : GroupScopeAggregate) (kind : ScopeKind) (secondaryChain : Option Nat) :
    LocalUriAccumulator :=
  output.addGroup chain aggregate.contracts aggregate.nftRows .imageUri kind secondaryChain

/-! ## Groups of several chains

The tables of the aggregates are indexed by the chains of the group. -/

def addIntraScopes (members : List UriPosting) (keep : ScopeFilters) (chains : List Nat)
    (output : LocalUriAccumulator) : LocalUriAccumulator :=
  let intra := fun chain => GroupScopeAggregate.ofChain members chain keep.intra
  chains.foldl
    (fun output primary =>
      if 2 ≤ (intra primary).postingCount then
        output.addImageGroup primary (intra primary) .intraChain none
      else output)
    output

def addCrossScopes (members : List UriPosting) (keep : ScopeFilters) (chains : List Nat)
    (output : LocalUriAccumulator) : LocalUriAccumulator :=
  let cross := fun chain => GroupScopeAggregate.ofChain members chain keep.crossSummary
  if 2 ≤ chains.countP fun chain => (cross chain).nftRows ≠ 0 then
    chains.foldl
      (fun output primary =>
        output.addImageGroup primary (cross primary) .crossChainSummary none)
      output
  else output

def addMatrixScopes (members : List UriPosting) (keep : ScopeFilters) (chains : List Nat)
    (output : LocalUriAccumulator) : LocalUriAccumulator :=
  let matrix := fun primary secondary =>
    GroupScopeAggregate.ofChain members primary (keep.matrix secondary)
  chains.foldl
    (fun output primary =>
      chains.foldl
        (fun output secondary =>
          if primary ≠ secondary ∧ (matrix primary secondary).nftRows ≠ 0 ∧
              (matrix secondary primary).nftRows ≠ 0 then
            output.addImageGroup primary (matrix primary secondary) .chainMatrix
              (some secondary)
          else output)
        output)
    output

def accumulateImageChains (members : List UriPosting) (keep : ScopeFilters)
    (chains : List Nat) (output : LocalUriAccumulator) : LocalUriAccumulator :=
  addMatrixScopes members keep chains
    (addCrossScopes members keep chains (addIntraScopes members keep chains output))

def accumulateImageScopeHitsCompact (members : List UriPosting) (keep : ScopeFilters)
    (output : LocalUriAccumulator) : LocalUriAccumulator :=
  let chains := setBits (members.foldl (fun mask posting => mask ||| 1 <<< posting.chainId) 0)
  match chains with
  | [chain] =>
      let intra := members.foldl
        (fun (aggregate : GroupScopeAggregate) posting =>
          aggregate.addPosting posting.contractId (posting.nftIds.countP keep.intra))
        .default
      if 2 ≤ intra.postingCount then
        output.addImageGroup chain intra .intraChain none
      else output
  | _ => accumulateImageChains members keep chains output

def filteredPostingCounts (postings : List UriPosting) (keep : Nat → Bool) :
    List (UriPosting × Nat) :=
  postings.filterMap fun posting =>
    if posting.nftIds.countP keep ≠ 0 then some (posting, posting.nftIds.countP keep) else none

def LocalUriAccumulator.addImages (output : LocalUriAccumulator)
    (counts : List (UriPosting × Nat)) (kind : ScopeKind) (secondaryChain : Option Nat) :
    LocalUriAccumulator :=
  counts.foldl
    (fun output entry => output.add entry.1 entry.2 .imageUri kind secondaryChain) output

def addIntraPostings (keep : ScopeFilters) (postings : List UriPosting)
    (output : LocalUriAccumulator) : LocalUriAccumulator :=
  let intra := filteredPostingCounts postings keep.intra
  if 2 ≤ intra.length then output.addImages intra .intraChain none else output

def addCrossPostings (keep : ScopeFilters) (byChain : List (Nat × List UriPosting))
    (entry : Nat × List UriPosting) (output : LocalUriAccumulator) : LocalUriAccumulator :=
  let primaryCross := filteredPostingCounts entry.2 keep.crossSummary
  let hasOtherCross := byChain.any fun other =>
    other.1 ≠ entry.1 && other.2.any fun posting => posting.nftIds.any keep.crossSummary
  if !primaryCross.isEmpty && hasOtherCross then
    output.addImages primaryCross .crossChainSummary none
  else output

def addMatrixPostings (keep : ScopeFilters) (byChain : List (Nat × List UriPosting))
    (entry : Nat × List UriPosting) (output : LocalUriAccumulator) : LocalUriAccumulator :=
  byChain.foldl
    (fun output other =>
      let primaryMatrix := filteredPostingCounts entry.2 (keep.matrix other.1)
      let otherHasMatch := other.2.any fun posting => posting.nftIds.any (keep.matrix entry.1)
      if other.1 ≠ entry.1 && !primaryMatrix.isEmpty && otherHasMatch then
        output.addImages primaryMatrix .chainMatrix (some other.1)
      else output)
    output

def accumulateImageScopeHitsWide (iteration : IterationOrder) (members : List UriPosting)
    (keep : ScopeFilters) (output : LocalUriAccumulator) : LocalUriAccumulator :=
  let byChain := postingsByChain iteration members
  byChain.foldl
    (fun output entry =>
      addMatrixPostings keep byChain entry
        (addCrossPostings keep byChain entry (addIntraPostings keep entry.2 output)))
    output

def accumulateImageScopeHits (iteration : IterationOrder) (chainCount : Nat)
    (keep : ScopeFilters) (members : List UriPosting) (output : LocalUriAccumulator) :
    LocalUriAccumulator :=
  if members.length < 2 then
    output
  else if chainCount ≤ compactChains then
    accumulateImageScopeHitsCompact members keep output
  else
    accumulateImageScopeHitsWide iteration members keep output

/-! ## Additions

Like the token stage, the image stage only adds to its table. Additions commute, so the
order in which a hash map yields its keys does not matter. -/

namespace LocalUriAccumulator

/-- A change that adds the same table of one dimension to every table. -/
def Adds (dimension : Dimension) (change : LocalUriAccumulator → LocalUriAccumulator) : Prop :=
  ∃ table : LocalUriAccumulator,
    (∀ key, key.dimension ≠ dimension → table key = none) ∧
      ∀ accumulator, change accumulator = accumulator.merge table

namespace Adds

variable {dimension : Dimension}

theorem nothing : Adds dimension fun accumulator => accumulator :=
  ⟨empty, fun _ _ => rfl, fun _ => rfl⟩

variable {second first : LocalUriAccumulator → LocalUriAccumulator}

theorem comp (firstAdds : Adds dimension first) (secondAdds : Adds dimension second) :
    Adds dimension fun accumulator => second (first accumulator) := by
  rcases firstAdds with ⟨firstTable, firstOnly, firstEq⟩
  rcases secondAdds with ⟨secondTable, secondOnly, secondEq⟩
  refine ⟨firstTable.merge secondTable, ?_, ?_⟩
  · intro key other
    simp only [merge, secondOnly key other, firstOnly key other]
  · intro accumulator
    simp only [secondEq, firstEq, merge_assoc]

theorem ite {condition : Prop} [Decidable condition] (firstAdds : Adds dimension first)
    (secondAdds : Adds dimension second) :
    Adds dimension fun accumulator =>
      if condition then first accumulator else second accumulator := by
  by_cases holds : condition
  · simpa only [holds, if_true] using firstAdds
  · simpa only [holds, if_false] using secondAdds

theorem foldl {α : Type} {step : LocalUriAccumulator → α → LocalUriAccumulator}
    (adds : ∀ value, Adds dimension fun accumulator => step accumulator value)
    (values : List α) : Adds dimension fun accumulator => values.foldl step accumulator := by
  induction values with
  | nil => exact nothing
  | cons head tail induction => exact (adds head).comp induction

variable {key : ScopeKey}

theorem entry {change : ScopeAggregate → ScopeAggregate} (isDimension : key.dimension = dimension)
    (aggregate : ScopeAggregate) (changes : ∀ target, change target =
      ⟨target.contracts ∪ aggregate.contracts, target.nftRows + aggregate.nftRows⟩) :
    Adds dimension fun accumulator => accumulator.entry key change := by
  refine ⟨single key aggregate, ?_, ?_⟩
  · intro other different
    apply single_ne
    intro same
    exact different (same ▸ isDimension)
  · exact fun accumulator => entry_eq_merge accumulator key aggregate change changes

theorem add (posting : UriPosting) (nftCount : Nat) (dimension : Dimension) (kind : ScopeKind)
    (secondaryChain : Option Nat) :
    Adds dimension fun accumulator =>
      accumulator.add posting nftCount dimension kind secondaryChain := by
  unfold LocalUriAccumulator.add
  refine entry ?_ ⟨{posting.contractId}, .ofNat _ nftCount⟩ ?_
  · rfl
  · intro target
    simp only [Finset.insert_eq, Finset.union_comm]

theorem addImageGroup (chain : Nat) (aggregate : GroupScopeAggregate) (kind : ScopeKind)
    (secondaryChain : Option Nat) :
    Adds .imageUri fun accumulator =>
      accumulator.addImageGroup chain aggregate kind secondaryChain := by
  unfold LocalUriAccumulator.addImageGroup addGroup
  apply nothing.ite
  refine entry ?_ ⟨aggregate.contracts.toFinset, aggregate.nftRows⟩ fun _ => rfl
  rfl

theorem addImages (counts : List (UriPosting × Nat)) (kind : ScopeKind)
    (secondaryChain : Option Nat) :
    Adds .imageUri fun accumulator => accumulator.addImages counts kind secondaryChain := by
  apply foldl
  intro entry
  exact add entry.1 entry.2 .imageUri kind secondaryChain

/-- Additions may be exchanged. -/
theorem comm (firstAdds : Adds dimension first) (secondAdds : Adds dimension second)
    (accumulator : LocalUriAccumulator) :
    second (first accumulator) = first (second accumulator) := by
  rcases firstAdds with ⟨firstTable, _, firstEq⟩
  rcases secondAdds with ⟨secondTable, _, secondEq⟩
  rw [firstEq, secondEq, secondEq, firstEq, merge_assoc, merge_comm firstTable, ← merge_assoc]

theorem foldl_perm {α : Type} {step : LocalUriAccumulator → α → LocalUriAccumulator}
    (adds : ∀ value, Adds dimension fun accumulator => step accumulator value)
    {first second : List α}
    (perm : first.Perm second) (accumulator : LocalUriAccumulator) :
    first.foldl step accumulator = second.foldl step accumulator := by
  have commutes : RightCommutative step :=
    ⟨fun accumulator left right => (adds left).comm (adds right) accumulator⟩
  exact perm.foldl_eq accumulator

theorem foldl_append {α : Type} {step : LocalUriAccumulator → α → LocalUriAccumulator}
    (adds : ∀ value, Adds dimension fun accumulator => step accumulator value)
    (first second : List α) :
    (first ++ second).foldl step empty =
      (first.foldl step empty).merge (second.foldl step empty) := by
  rcases foldl adds second with ⟨table, _, isTable⟩
  simp only at isTable
  rw [List.foldl_append, isTable, isTable, empty_merge]

theorem apply_of_ne {change : LocalUriAccumulator → LocalUriAccumulator}
    (adds : Adds dimension change) (accumulator : LocalUriAccumulator)
    (other : key.dimension ≠ dimension) : change accumulator key = accumulator key := by
  rcases adds with ⟨table, only, isTable⟩
  rw [isTable, merge, only key other]

end Adds

end LocalUriAccumulator

section

open LocalUriAccumulator

theorem accumulateImageChains_adds (members : List UriPosting) (keep : ScopeFilters)
    (chains : List Nat) : Adds .imageUri (accumulateImageChains members keep chains) := by
  have intra : Adds .imageUri (addIntraScopes members keep chains) :=
    Adds.foldl (fun _ => (Adds.addImageGroup ..).ite Adds.nothing) chains
  have cross : Adds .imageUri (addCrossScopes members keep chains) :=
    (Adds.foldl (fun _ => Adds.addImageGroup ..) chains).ite Adds.nothing
  have matrix : Adds .imageUri (addMatrixScopes members keep chains) :=
    Adds.foldl (fun _ => Adds.foldl
      (fun _ => (Adds.addImageGroup ..).ite Adds.nothing) chains) chains
  exact (intra.comp cross).comp matrix

theorem accumulateImageScopeHitsCompact_adds (members : List UriPosting)
    (keep : ScopeFilters) : Adds .imageUri (accumulateImageScopeHitsCompact members keep) := by
  unfold accumulateImageScopeHitsCompact
  simp only
  split
  · exact (Adds.addImageGroup ..).ite Adds.nothing
  · exact accumulateImageChains_adds ..

/-- What one chain adds. -/
theorem addChainPostings_adds (keep : ScopeFilters) (byChain : List (Nat × List UriPosting))
    (entry : Nat × List UriPosting) :
    Adds .imageUri fun output => addMatrixPostings keep byChain entry
      (addCrossPostings keep byChain entry (addIntraPostings keep entry.2 output)) := by
  have intra : Adds .imageUri (addIntraPostings keep entry.2) :=
    (Adds.addImages ..).ite Adds.nothing
  have cross : Adds .imageUri (addCrossPostings keep byChain entry) :=
    (Adds.addImages ..).ite Adds.nothing
  have matrix : Adds .imageUri (addMatrixPostings keep byChain entry) :=
    Adds.foldl (fun _ => (Adds.addImages ..).ite Adds.nothing) byChain
  exact (intra.comp cross).comp matrix

theorem accumulateImageScopeHits_adds (iteration : IterationOrder) (chainCount : Nat)
    (keep : ScopeFilters) (members : List UriPosting) :
    Adds .imageUri (accumulateImageScopeHits iteration chainCount keep members) := by
  unfold accumulateImageScopeHits
  apply Adds.nothing.ite
  apply (accumulateImageScopeHitsCompact_adds members keep).ite
  exact Adds.foldl (fun entry => addChainPostings_adds keep _ entry) _

theorem accumulateImageScopeHits_iteration (first second : IterationOrder) (chainCount : Nat)
    (keep : ScopeFilters) (members : List UriPosting) (output : LocalUriAccumulator) :
    accumulateImageScopeHits first chainCount keep members output =
      accumulateImageScopeHits second chainCount keep members output := by
  have perm : (postingsByChain first members).Perm (postingsByChain second members) :=
    ((first.perm _).trans (second.perm _).symm).map _
  have sameStep : ∀ (entry : Nat × List UriPosting) (output : LocalUriAccumulator),
      addMatrixPostings keep (postingsByChain first members) entry
          (addCrossPostings keep (postingsByChain first members) entry
            (addIntraPostings keep entry.2 output)) =
        addMatrixPostings keep (postingsByChain second members) entry
          (addCrossPostings keep (postingsByChain second members) entry
            (addIntraPostings keep entry.2 output)) := by
    intro entry output
    have cross : addCrossPostings keep (postingsByChain first members) entry
          (addIntraPostings keep entry.2 output) =
        addCrossPostings keep (postingsByChain second members) entry
          (addIntraPostings keep entry.2 output) := by
      simp only [addCrossPostings, perm.any_eq]
    rw [cross]
    exact Adds.foldl_perm (fun _ => (Adds.addImages ..).ite Adds.nothing) perm _
  have wide : accumulateImageScopeHitsWide first members keep output =
      accumulateImageScopeHitsWide second members keep output := by
    rw [accumulateImageScopeHitsWide]
    simp only [sameStep]
    exact Adds.foldl_perm (fun entry => addChainPostings_adds keep _ entry) perm output
  simp only [accumulateImageScopeHits, wide]

end

end NftData.Dedup
