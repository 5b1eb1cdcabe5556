import NftData.Analysis2.Dedup.Hits

namespace NftData.Analysis2

/-! # Duplicate scale of a seed

How many NFTs and contracts repeat a seed, for its own chain, for each other chain and for all
other chains together. One scan of the graph fills the sets of all scopes. -/

open List
open HitEdge (expandInto_eq nftSet)
open HitGraph (dimensionCandidateNfts edgeInScope inSeedScope scanDimension_eq unionCandidateNfts_eq)

/-- One category of a scope. -/
structure DuplicateScaleRow where
  category : Text
  duplicateNftCount : Nat
  duplicateNftRatio : Option ℚ
  duplicateNftRatioNumerator : Nat
  duplicateNftRatioDenominator : Nat
  duplicateContractCount : Nat
  duplicateContractRatio : Option ℚ
  duplicateContractRatioNumerator : Nat
  duplicateContractRatioDenominator : Nat
  deriving DecidableEq

/-- The rows of one secondary chain. -/
structure ChainMatrixBlock where
  secondaryChain : Text
  rows : List DuplicateScaleRow
  deriving DecidableEq

structure SeedDuplicateScale where
  intraChain : List DuplicateScaleRow
  chainMatrix : List ChainMatrixBlock
  crossChainSummary : List DuplicateScaleRow
  deriving DecidableEq

/-- Numerators of a scope. The total is the size of the union. -/
structure ScopeNftCounts where
  name : Nat
  tokenUri : Nat
  imageUri : Nat
  metadata : Nat
  total : Nat
  deriving DecidableEq, Repr

def categoryName : Dimension → Text
  | .tokenUri => "token_uri".toList
  | .imageUri => "image_uri".toList
  | .metadata => "metadata".toList
  | .name => "name".toList

def contractsForNfts (nfts : Finset Nat) (store : ResidentStore) : Finset Nat :=
  nfts.biUnion fun nft => (store.nfts[nft]?.map Nft.contractId).toFinset

/-- `store.totals.get(&chain)`, or none of a chain without totals. -/
def totalsOf (store : ResidentStore) (chain : Nat) : ChainTotals :=
  (store.totals chain).getD .default

/-- The chains of the store but one. They are numbered by `ChainId`, which `ensure_chain` checks. -/
def otherChains (store : ResidentStore) (primaryChain : Nat) : List Nat :=
  (List.range store.chains.length).filter (· ≠ primaryChain)

section Rows

/- The quotient of two counts, rounded as `f64` rounds it. -/
variable (quotient : Nat → Nat → ℚ)

def ratio (numer denom : Nat) : Option ℚ :=
  if denom = 0 then none else some (quotient numer denom)

def scaleRow (category : Text) (nft contract nftDenom contractDenom : Nat) :
    DuplicateScaleRow where
  category := category
  duplicateNftCount := nft
  duplicateNftRatio := ratio quotient nft nftDenom
  duplicateNftRatioNumerator := nft
  duplicateNftRatioDenominator := nftDenom
  duplicateContractCount := contract
  duplicateContractRatio := ratio quotient contract contractDenom
  duplicateContractRatioNumerator := contract
  duplicateContractRatioDenominator := contractDenom

/-- The rows of the four dimensions and of their union, over the totals of some chains: what
`rows_from_dimension_sets` and `build_duplicate_scale_rows` have in common. -/
def scaleRows (store : ResidentStore) (denominatorChains : List Nat)
    (sets : List (Dimension × Finset Nat)) : List DuplicateScaleRow :=
  let nftDenom := (denominatorChains.map fun chain => (totalsOf store chain).nfts).sum
  let contractDenom := (denominatorChains.map fun chain => (totalsOf store chain).contracts).sum
  let unionNfts := sets.foldl (fun union entry => union ∪ entry.2) ∅
  sets.map (fun entry =>
    scaleRow quotient (categoryName entry.1) entry.2.card (contractsForNfts entry.2 store).card
      nftDenom contractDenom) ++
    [scaleRow quotient "total".toList unionNfts.card (contractsForNfts unionNfts store).card
      nftDenom contractDenom]

end Rows

section Scope

variable (graph : HitGraph) (seed : Nat) (scope : ScopeKind) (primaryChain : Nat)
  (matrixSecondary : Option Nat) (contractNfts : ContractNfts)

/-- The sets of the four dimensions and their union, as a scan fills them. -/
structure ScopeSets where
  name : Finset Nat
  tokenUri : Finset Nat
  imageUri : Finset Nat
  metadata : Finset Nat
  total : Finset Nat

def ScopeSets.empty : ScopeSets := ⟨∅, ∅, ∅, ∅, ∅⟩

def ScopeSets.addEdge (sets : ScopeSets) (edge : HitEdge) : ScopeSets :=
  let added :=
    match edge.dimension with
    | .name => { sets with name := edge.expandInto contractNfts sets.name }
    | .tokenUri => { sets with tokenUri := edge.expandInto contractNfts sets.tokenUri }
    | .imageUri => { sets with imageUri := edge.expandInto contractNfts sets.imageUri }
    | .metadata => { sets with metadata := edge.expandInto contractNfts sets.metadata }
  { added with total := edge.expandInto contractNfts added.total }

def ScopeSets.scanEdge (sets : ScopeSets) (edge : HitEdge) : ScopeSets :=
  if edge.seedContract ≠ seed then sets
  else if !edgeInScope edge scope primaryChain matrixSecondary then sets
  else sets.addEdge contractNfts edge

def countScopeNfts : ScopeNftCounts :=
  let sets := graph.edges.foldl
    (ScopeSets.scanEdge seed scope primaryChain matrixSecondary contractNfts) .empty
  let imageUri := sets.imageUri.filter fun nft => nft ∉ sets.tokenUri
  ⟨sets.name.card, sets.tokenUri.card, imageUri.card, sets.metadata.card, sets.total.card⟩

def dimensionSets : List (Dimension × Finset Nat) :=
  [.tokenUri, .imageUri, .metadata, .name].map fun dimension =>
    (dimension, graph.dimensionCandidateNfts seed scope primaryChain matrixSecondary contractNfts
      dimension)

def denominatorChains (store : ResidentStore) : List Nat :=
  match scope with
  | .intraChain => [primaryChain]
  | .chainMatrix => matrixSecondary.toList
  | .crossChainSummary => otherChains store primaryChain

def buildDuplicateScaleRows (quotient : Nat → Nat → ℚ) (store : ResidentStore) :
    List DuplicateScaleRow :=
  scaleRows quotient store (denominatorChains scope primaryChain matrixSecondary store)
    (dimensionSets graph seed scope primaryChain matrixSecondary contractNfts)

end Scope

structure DimensionNftSets where
  tokenUri : Finset Nat
  imageUri : Finset Nat
  metadata : Finset Nat
  name : Finset Nat

namespace DimensionNftSets

def empty : DimensionNftSets := ⟨∅, ∅, ∅, ∅⟩

def insertEdge (contractNfts : ContractNfts) (edge : HitEdge) (sets : DimensionNftSets) :
    DimensionNftSets :=
  match edge.dimension with
  | .tokenUri => { sets with tokenUri := edge.expandInto contractNfts sets.tokenUri }
  | .imageUri => { sets with imageUri := edge.expandInto contractNfts sets.imageUri }
  | .metadata => { sets with metadata := edge.expandInto contractNfts sets.metadata }
  | .name => { sets with name := edge.expandInto contractNfts sets.name }

def get (sets : DimensionNftSets) : Dimension → Finset Nat
  | .tokenUri => sets.tokenUri
  | .imageUri => sets.imageUri
  | .metadata => sets.metadata
  | .name => sets.name

end DimensionNftSets

def rowsFromDimensionSets (quotient : Nat → Nat → ℚ) (store : ResidentStore)
    (denominatorChains : List Nat) (sets : DimensionNftSets) : List DuplicateScaleRow :=
  let imageUri := sets.imageUri.filter fun nft => nft ∉ sets.tokenUri
  scaleRows quotient store denominatorChains
    [(.tokenUri, sets.tokenUri), (.imageUri, imageUri), (.metadata, sets.metadata),
      (.name, sets.name)]

/-- The accumulators of the scan: one for each chain, and one for all chains but the primary. -/
structure ScopeAccumulators where
  bySecondary : List DimensionNftSets
  cross : DimensionNftSets

namespace ScopeAccumulators

def new (store : ResidentStore) : ScopeAccumulators :=
  ⟨List.replicate store.chains.length .empty, .empty⟩

/-- Distribute an edge. A chain that the store does not have has no accumulator. -/
def addEdge (seed primary : Nat) (contractNfts : ContractNfts)
    (accumulators : ScopeAccumulators) (edge : HitEdge) : ScopeAccumulators :=
  if edge.seedContract ≠ seed ∨ edge.primaryChain ≠ primary then
    accumulators
  else
    { bySecondary := accumulators.bySecondary.modify edge.secondaryChain
        (DimensionNftSets.insertEdge contractNfts edge)
      cross :=
        if edge.secondaryChain ≠ primary then
          accumulators.cross.insertEdge contractNfts edge
        else
          accumulators.cross }

end ScopeAccumulators

/-- Build the sections of a seed. A seed outside the store makes it panic. -/
def buildSeedDuplicateScale (quotient : Nat → Nat → ℚ) (store : ResidentStore)
    (graph : HitGraph) (seed : Nat) (contractNfts : ContractNfts) :
    Except Analysis2Error SeedDuplicateScale := do
  let contract ← indexed store.contracts seed
  let primary := contract.chainId
  let accumulators := graph.edges.foldl
    (ScopeAccumulators.addEdge seed primary contractNfts) (.new store)
  let intra ← indexed accumulators.bySecondary primary
  let chainMatrix ← (otherChains store primary).mapM fun secondary => do
    let sets ← indexed accumulators.bySecondary secondary
    let name ← store.chainName secondary
    .ok (ChainMatrixBlock.mk name (rowsFromDimensionSets quotient store [secondary] sets))
  .ok {
    intraChain := rowsFromDimensionSets quotient store [primary] intra
    chainMatrix := chainMatrix.insertionSort fun left right =>
      left.secondaryChain ≤ right.secondaryChain
    crossChainSummary := rowsFromDimensionSets quotient store (otherChains store primary)
      accumulators.cross }

namespace DimensionNftSets

theorem get_insertEdge (contractNfts : ContractNfts) (edge : HitEdge) (sets : DimensionNftSets)
    (dimension : Dimension) :
    (sets.insertEdge contractNfts edge).get dimension =
      collectEntry (fun edge => edge.dimension == dimension) (nftSet contractNfts)
        (sets.get dimension) edge := by
  rw [insertEdge, collectEntry]
  cases edge.dimension <;> cases dimension <;> simp [get, expandInto_eq]

def Holds (sets : DimensionNftSets) (admits : HitEdge → Bool) (contractNfts : ContractNfts)
    (edges : List HitEdge) : Prop :=
  ∀ dimension, sets.get dimension =
    collectValues (fun edge => admits edge && edge.dimension == dimension)
      (nftSet contractNfts) edges

theorem holds_empty (admits : HitEdge → Bool) (contractNfts : ContractNfts) :
    empty.Holds admits contractNfts [] := by
  intro dimension
  cases dimension <;> rfl

variable {sets : DimensionNftSets} {admits : HitEdge → Bool} {contractNfts : ContractNfts}
  {edges : List HitEdge} {edge : HitEdge}

theorem Holds.insertEdge (holds : sets.Holds admits contractNfts edges)
    (admitted : admits edge = true) :
    (sets.insertEdge contractNfts edge).Holds admits contractNfts (edges ++ [edge]) := by
  intro dimension
  rw [get_insertEdge, holds dimension, collectValues_concat, collectEntry, collectEntry, admitted,
    Bool.true_and]

theorem Holds.skipEdge (holds : sets.Holds admits contractNfts edges)
    (passed : admits edge = false) : sets.Holds admits contractNfts (edges ++ [edge]) := by
  intro dimension
  rw [holds dimension, collectValues_concat, collectEntry, passed, Bool.false_and]
  rfl

theorem Holds.rows_eq {graph : HitGraph} {seed primaryChain : Nat} {scope : ScopeKind}
    {matrixSecondary : Option Nat} (quotient : Nat → Nat → ℚ) (store : ResidentStore)
    (holds : sets.Holds (inSeedScope seed scope primaryChain matrixSecondary)
      contractNfts graph.edges) :
    rowsFromDimensionSets quotient store
        (denominatorChains scope primaryChain matrixSecondary store) sets =
      buildDuplicateScaleRows graph seed scope primaryChain matrixSecondary contractNfts
        quotient store := by
  have scans : ∀ dimension, graph.scanDimension seed scope primaryChain matrixSecondary
      contractNfts dimension = sets.get dimension := by
    intro dimension
    rw [scanDimension_eq, holds dimension]
  rw [rowsFromDimensionSets, buildDuplicateScaleRows, dimensionSets]
  simp only [map_cons, map_nil, dimensionCandidateNfts, scans, get,
    reduceCtorEq, if_true, if_false]

end DimensionNftSets

def onChain (seed primary chain : Nat) (edge : HitEdge) : Bool :=
  edge.seedContract == seed && edge.primaryChain == primary && edge.secondaryChain == chain

theorem inSeedScope_intraChain (seed primary : Nat) (matrixSecondary : Option Nat) :
    inSeedScope seed .intraChain primary matrixSecondary = onChain seed primary primary := by
  funext edge
  rw [inSeedScope, edgeInScope, onChain]
  by_cases ofPrimary : edge.primaryChain = primary <;> simp [ofPrimary]

theorem inSeedScope_chainMatrix {seed primary secondary : Nat} (other : secondary ≠ primary) :
    inSeedScope seed .chainMatrix primary (some secondary) =
      onChain seed primary secondary := by
  funext edge
  rw [inSeedScope, edgeInScope, onChain]
  by_cases ofPrimary : edge.primaryChain = primary
  · by_cases ofSecondary : edge.secondaryChain = secondary
    · simp [ofPrimary, ofSecondary, other]
    · simp [ofPrimary, beq_false_of_ne ofSecondary]
  · simp [ofPrimary]

namespace ScopeAccumulators

/-- The accumulators hold the hits of their scopes. -/
structure Holds (accumulators : ScopeAccumulators) (seed primary : Nat)
    (contractNfts : ContractNfts) (edges : List HitEdge) : Prop where
  bySecondary : ∀ (chain : Nat) (sets : DimensionNftSets),
    accumulators.bySecondary[chain]? = some sets →
      sets.Holds (onChain seed primary chain) contractNfts edges
  cross : accumulators.cross.Holds
    (inSeedScope seed .crossChainSummary primary none) contractNfts edges

theorem holds_new (store : ResidentStore) (seed primary : Nat) (contractNfts : ContractNfts) :
    Holds (new store) seed primary contractNfts [] where
  bySecondary := by
    intro chain sets found
    rw [new, List.getElem?_replicate] at found
    split at found
    · cases found
      exact DimensionNftSets.holds_empty _ contractNfts
    · cases found
  cross := DimensionNftSets.holds_empty _ contractNfts

variable {accumulators : ScopeAccumulators} {seed primary : Nat} {contractNfts : ContractNfts}
  {edges : List HitEdge}

theorem Holds.addEdge (holds : accumulators.Holds seed primary contractNfts edges)
    (edge : HitEdge) :
    (accumulators.addEdge seed primary contractNfts edge).Holds seed primary contractNfts
      (edges ++ [edge]) := by
  rw [ScopeAccumulators.addEdge]
  by_cases foreign : edge.seedContract ≠ seed ∨ edge.primaryChain ≠ primary
  · rw [if_pos foreign]
    have passed : ∀ chain, onChain seed primary chain edge = false := by
      intro chain
      rcases foreign with other | other <;> simp [onChain, other]
    have passedCross :
        inSeedScope seed .crossChainSummary primary none edge = false := by
      rcases foreign with other | other <;>
        simp [inSeedScope, edgeInScope, other]
    exact ⟨fun chain sets found => (holds.bySecondary chain sets found).skipEdge (passed chain),
      holds.cross.skipEdge passedCross⟩
  · rw [if_neg foreign]
    rw [not_or, not_not, not_not] at foreign
    rcases foreign with ⟨ofSeed, ofPrimary⟩
    constructor
    · intro chain sets found
      rw [List.getElem?_modify] at found
      rcases Option.map_eq_some_iff.mp found with ⟨before, isBefore, isSets⟩
      have heldBefore := holds.bySecondary chain before isBefore
      rw [← isSets]
      by_cases here : edge.secondaryChain = chain
      · rw [if_pos here]
        exact heldBefore.insertEdge (by simp [onChain, ofSeed, ofPrimary, here])
      · rw [if_neg here]
        exact heldBefore.skipEdge (by simp [onChain, here])
    · by_cases outside : edge.secondaryChain ≠ primary
      · change DimensionNftSets.Holds (if _ then _ else _) _ _ _
        rw [if_pos outside]
        exact holds.cross.insertEdge (by
          simp [inSeedScope, edgeInScope, ofSeed, ofPrimary, outside])
      · change DimensionNftSets.Holds (if _ then _ else _) _ _ _
        rw [if_neg outside]
        rw [not_not] at outside
        exact holds.cross.skipEdge (by
          simp [inSeedScope, edgeInScope, outside])

theorem length_addEdge (accumulators : ScopeAccumulators) (edge : HitEdge) :
    (accumulators.addEdge seed primary contractNfts edge).bySecondary.length =
      accumulators.bySecondary.length := by
  rw [ScopeAccumulators.addEdge]
  split
  · rfl
  · exact length_modify _ _ _

theorem holds_foldl (store : ResidentStore) (edges : List HitEdge) :
    (edges.foldl (ScopeAccumulators.addEdge seed primary contractNfts) (new store)).Holds seed
        primary contractNfts edges ∧
      (edges.foldl (ScopeAccumulators.addEdge seed primary contractNfts)
        (new store)).bySecondary.length = store.chains.length := by
  induction edges using List.reverseRecOn with
  | nil => exact ⟨holds_new store seed primary contractNfts, length_replicate⟩
  | append_singleton edges edge induction =>
      rw [foldl_concat]
      exact ⟨induction.1.addEdge edge, (length_addEdge _ edge).trans induction.2⟩

end ScopeAccumulators

section Counts

variable (graph : HitGraph) (seed : Nat) (scope : ScopeKind) (primaryChain : Nat)
  (matrixSecondary : Option Nat) (contractNfts : ContractNfts)

namespace ScopeSets

def get (sets : ScopeSets) : Dimension → Finset Nat
  | .tokenUri => sets.tokenUri
  | .imageUri => sets.imageUri
  | .metadata => sets.metadata
  | .name => sets.name

theorem get_addEdge (sets : ScopeSets) (edge : HitEdge) (dimension : Dimension) :
    (addEdge contractNfts sets edge).get dimension =
      collectEntry (fun edge => edge.dimension == dimension) (nftSet contractNfts)
        (sets.get dimension) edge := by
  rw [addEdge, collectEntry]
  cases edge.dimension <;> cases dimension <;> simp [get, expandInto_eq]

theorem total_addEdge (sets : ScopeSets) (edge : HitEdge) :
    (addEdge contractNfts sets edge).total = sets.total ∪ edge.nftSet contractNfts := by
  rw [addEdge]
  cases edge.dimension <;> exact edge.expandInto_eq contractNfts _

theorem scanEdge_eq (sets : ScopeSets) (edge : HitEdge) :
    scanEdge seed scope primaryChain matrixSecondary contractNfts sets edge =
      if inSeedScope seed scope primaryChain matrixSecondary edge then
        sets.addEdge contractNfts edge
      else sets := by
  rw [scanEdge, inSeedScope]
  by_cases ofSeed : edge.seedContract = seed <;>
    cases edgeInScope edge scope primaryChain matrixSecondary <;> simp [ofSeed]

theorem scan_spec (edges : List HitEdge) :
    let sets := edges.foldl
      (scanEdge seed scope primaryChain matrixSecondary contractNfts) empty
    (∀ dimension, sets.get dimension =
      collectValues
        (fun edge => inSeedScope seed scope primaryChain matrixSecondary edge &&
          edge.dimension == dimension) (nftSet contractNfts) edges) ∧
      sets.total = collectValues (inSeedScope seed scope primaryChain matrixSecondary)
        (nftSet contractNfts) edges := by
  induction edges using List.reverseRecOn with
  | nil =>
      refine ⟨fun dimension => ?_, rfl⟩
      cases dimension <;> rfl
  | append_singleton edges edge induction =>
      rcases induction with ⟨dimensions, total⟩
      rw [foldl_concat, scanEdge_eq]
      cases admitted : inSeedScope seed scope primaryChain matrixSecondary edge with
      | true =>
          refine ⟨fun dimension => ?_, ?_⟩
          · rw [if_pos rfl, get_addEdge, dimensions, collectValues_concat, collectEntry,
              collectEntry, admitted, Bool.true_and]
          · rw [if_pos rfl, total_addEdge, total, collectValues_concat, collectEntry,
              if_pos admitted]
      | false =>
          refine ⟨fun dimension => ?_, ?_⟩
          · rw [if_neg Bool.false_ne_true, dimensions, collectValues_concat, collectEntry,
              admitted, Bool.false_and, if_neg Bool.false_ne_true]
          · rw [if_neg Bool.false_ne_true, total, collectValues_concat, collectEntry, admitted,
              if_neg Bool.false_ne_true]

end ScopeSets

theorem countScopeNfts_eq :
    countScopeNfts graph seed scope primaryChain matrixSecondary contractNfts =
      let hits := graph.dimensionCandidateNfts seed scope primaryChain matrixSecondary contractNfts
      ⟨(hits .name).card, (hits .tokenUri).card, (hits .imageUri).card, (hits .metadata).card,
        (graph.unionCandidateNfts seed scope primaryChain matrixSecondary contractNfts).card⟩ := by
  rcases ScopeSets.scan_spec seed scope primaryChain matrixSecondary contractNfts graph.edges with
    ⟨scans, total⟩
  simp only [← scanDimension_eq] at scans
  rw [← unionCandidateNfts_eq] at total
  simp only [dimensionCandidateNfts, ← scans, ← total, reduceCtorEq, if_true, if_false]
  rfl

theorem unionCandidateNfts_eq_scans :
    let hits := graph.scanDimension seed scope primaryChain matrixSecondary contractNfts
    graph.unionCandidateNfts seed scope primaryChain matrixSecondary contractNfts =
      hits .tokenUri ∪ hits .imageUri ∪ hits .metadata ∪ hits .name := by
  ext nft
  simp only [unionCandidateNfts_eq, scanDimension_eq, Finset.mem_union,
    mem_collectValues, Bool.and_eq_true, beq_iff_eq]
  constructor
  · rintro ⟨edge, member, admitted, isNft⟩
    cases isDimension : edge.dimension with
    | tokenUri => exact .inl (.inl (.inl ⟨edge, member, ⟨admitted, isDimension⟩, isNft⟩))
    | imageUri => exact .inl (.inl (.inr ⟨edge, member, ⟨admitted, isDimension⟩, isNft⟩))
    | metadata => exact .inl (.inr ⟨edge, member, ⟨admitted, isDimension⟩, isNft⟩)
    | name => exact .inr ⟨edge, member, ⟨admitted, isDimension⟩, isNft⟩
  · rintro (((⟨edge, member, ⟨admitted, _⟩, isNft⟩ | ⟨edge, member, ⟨admitted, _⟩, isNft⟩) |
      ⟨edge, member, ⟨admitted, _⟩, isNft⟩) | ⟨edge, member, ⟨admitted, _⟩, isNft⟩) <;>
      exact ⟨edge, member, admitted, isNft⟩

theorem union_dimensionSets :
    (dimensionSets graph seed scope primaryChain matrixSecondary contractNfts).foldl
        (fun union entry => union ∪ entry.2) ∅ =
      graph.unionCandidateNfts seed scope primaryChain matrixSecondary contractNfts := by
  ext nft
  simp only [dimensionSets, map_cons, map_nil, foldl_cons, foldl_nil,
    dimensionCandidateNfts, reduceCtorEq, if_true, if_false, Finset.empty_union,
    Finset.mem_union, Finset.mem_filter, unionCandidateNfts_eq_scans]
  tauto

theorem numerators_eq (quotient : Nat → Nat → ℚ) (store : ResidentStore) :
    let counts := countScopeNfts graph seed scope primaryChain matrixSecondary contractNfts
    (buildDuplicateScaleRows graph seed scope primaryChain matrixSecondary contractNfts quotient
        store).map DuplicateScaleRow.duplicateNftRatioNumerator =
      [counts.tokenUri, counts.imageUri, counts.metadata, counts.name, counts.total] := by
  intro counts
  simp only [counts, countScopeNfts_eq, buildDuplicateScaleRows, scaleRows, union_dimensionSets]
  rfl

end Counts

def rescannedScale (quotient : Nat → Nat → ℚ) (store : ResidentStore) (graph : HitGraph)
    (seed primary : Nat) (contractNfts : ContractNfts) : SeedDuplicateScale where
  intraChain :=
    buildDuplicateScaleRows graph seed .intraChain primary none contractNfts quotient store
  chainMatrix := ((otherChains store primary).map fun secondary =>
    ChainMatrixBlock.mk (store.chains.getD secondary [])
      (buildDuplicateScaleRows graph seed .chainMatrix primary (some secondary) contractNfts
        quotient store)).insertionSort fun left right => left.secondaryChain ≤ right.secondaryChain
  crossChainSummary :=
    buildDuplicateScaleRows graph seed .crossChainSummary primary none contractNfts quotient store

/-- The one scan makes the sections that the scans of the scopes make. -/
theorem buildSeedDuplicateScale_eq (quotient : Nat → Nat → ℚ) {store : ResidentStore}
    (graph : HitGraph) {seed : Nat} (contractNfts : ContractNfts) {contract : Contract}
    (isSeed : store.contracts[seed]? = some contract)
    (onChain : contract.chainId < store.chains.length) :
    buildSeedDuplicateScale quotient store graph seed contractNfts =
      .ok (rescannedScale quotient store graph seed contract.chainId contractNfts) := by
  rcases @ScopeAccumulators.holds_foldl seed contract.chainId contractNfts store graph.edges with
    ⟨holds, lengths⟩
  rw [buildSeedDuplicateScale, indexed_eq_ok_iff.mpr isSeed, ok_bind]
  simp only
  generalize graph.edges.foldl _ _ = accumulators at holds lengths
  have read : ∀ chain, chain < store.chains.length →
      ∃ sets, accumulators.bySecondary[chain]? = some sets := fun chain inside =>
    ⟨_, List.getElem?_eq_getElem (lengths ▸ inside)⟩
  rcases read contract.chainId onChain with ⟨intra, isIntra⟩
  have intraHolds := holds.bySecondary _ _ isIntra
  rw [← inSeedScope_intraChain seed contract.chainId none] at intraHolds
  have matrix : ∀ secondary ∈ otherChains store contract.chainId,
      (do
        let sets ← indexed accumulators.bySecondary secondary
        let name ← store.chainName secondary
        .ok (ChainMatrixBlock.mk name (rowsFromDimensionSets quotient store [secondary] sets))) =
      Except.ok (ChainMatrixBlock.mk (store.chains.getD secondary [])
        (buildDuplicateScaleRows graph seed .chainMatrix contract.chainId (some secondary)
          contractNfts quotient store)) := by
    intro secondary member
    rcases mem_filter.mp member with ⟨inRange, isOther⟩
    have inside := mem_range.mp inRange
    rcases read secondary inside with ⟨sets, isSets⟩
    have setsHold := holds.bySecondary _ _ isSets
    rw [← inSeedScope_chainMatrix (of_decide_eq_true isOther)] at setsHold
    rw [indexed_eq_ok_iff.mpr isSets, ok_bind, ResidentStore.chainName,
      indexed_eq_ok_iff.mpr (List.getElem?_eq_getElem inside), ok_bind,
      getD_eq_getElem _ _ inside]
    exact congrArg (fun rows => Except.ok (ChainMatrixBlock.mk _ rows))
      (setsHold.rows_eq quotient store)
  rw [indexed_eq_ok_iff.mpr isIntra, ok_bind, mapM_eq_ok matrix, ok_bind, rescannedScale]
  exact congrArg Except.ok (congrArg₂ (fun intraChain crossChainSummary =>
      SeedDuplicateScale.mk intraChain _ crossChainSummary)
    (intraHolds.rows_eq quotient store) (holds.cross.rows_eq quotient store))

/-- A seed on the only chain of its store. -/
def oneSeedStore : ResidentStore :=
  { ResidentStore.withOptions none ∅ with
    chains := ["ethereum".toList]
    contracts := [⟨0, 0, "0xseed".toList, 0, none, []⟩] }

end NftData.Analysis2
