import NftData.Analysis2.Entity.Types
import NftData.Foundation.CollectedSets

namespace NftData.Analysis2

/-! # Hit graphs

A seed query reports its hits as edges from the seed to candidate contracts, or to single
NFTs of them. -/

inductive Dimension where
  | name
  | tokenUri
  | imageUri
  | metadata
  deriving DecidableEq, Repr

/-- One direct seed→candidate hit. Without an NFT it is a hit of the whole contract. -/
structure HitEdge where
  seedContract : Nat
  candidateContract : Nat
  candidateNft : Option Nat
  dimension : Dimension
  score : ℚ
  primaryChain : Nat
  secondaryChain : Nat
  deriving DecidableEq

/-- Accepted hit edges. A seed does not hit itself. -/
structure HitGraph where
  edges : List HitEdge
  noSelfHit : ∀ edge ∈ edges, edge.seedContract ≠ edge.candidateContract

namespace HitGraph

def new : HitGraph := ⟨[], by simp⟩

/-- Push an edge unless it is a self-hit, and say whether it was pushed. -/
def push (graph : HitGraph) (edge : HitEdge) : Bool × HitGraph :=
  if selfHit : edge.seedContract = edge.candidateContract then
    (false, graph)
  else
    (true, ⟨graph.edges ++ [edge], by
      intro other member
      rcases List.mem_append.mp member with known | pushed
      · exact graph.noSelfHit other known
      · rw [List.mem_singleton.mp pushed]
        exact selfHit⟩)

def append (graph other : HitGraph) : HitGraph :=
  ⟨graph.edges ++ other.edges, by
    intro edge member
    rcases List.mem_append.mp member with first | second
    · exact graph.noSelfHit edge first
    · exact other.noSelfHit edge second⟩

end HitGraph

/-- `contract_id → nft_ids`, as far as a contract has NFTs. -/
abbrev ContractNfts := Nat → Option (List Nat)

namespace HitEdge

def nfts (edge : HitEdge) (contractNfts : ContractNfts) : List Nat :=
  match edge.candidateNft with
  | some nft => [nft]
  | none => (contractNfts edge.candidateContract).getD []

def expandInto (edge : HitEdge) (contractNfts : ContractNfts) (out : Finset Nat) :
    Finset Nat :=
  match edge.candidateNft with
  | some nft => insert nft out
  | none =>
      match contractNfts edge.candidateContract with
      | some nfts => out ∪ nfts.toFinset
      | none => out

def nftSet (contractNfts : ContractNfts) (edge : HitEdge) : Finset Nat :=
  (edge.nfts contractNfts).toFinset

theorem expandInto_eq (edge : HitEdge) (contractNfts : ContractNfts) (out : Finset Nat) :
    edge.expandInto contractNfts out = out ∪ edge.nftSet contractNfts := by
  rw [expandInto, nftSet, nfts]
  split
  · simp
  · split <;> simp [*]

end HitEdge

/-- Reporting / counting scope. -/
inductive ScopeKind where
  | intraChain
  | chainMatrix
  | crossChainSummary
  deriving DecidableEq, Repr

namespace HitGraph

def edgeInScope (edge : HitEdge) (scope : ScopeKind) (primaryChain : Nat)
    (matrixSecondary : Option Nat) : Bool :=
  if edge.primaryChain ≠ primaryChain then
    false
  else
    match scope with
    | .intraChain => edge.secondaryChain == primaryChain
    | .chainMatrix => matrixSecondary.any fun secondary =>
        edge.secondaryChain == secondary && edge.secondaryChain != primaryChain
    | .crossChainSummary => edge.secondaryChain != primaryChain

section

variable (graph : HitGraph) (seed : Nat) (scope : ScopeKind) (primaryChain : Nat)
  (matrixSecondary : Option Nat) (contractNfts : ContractNfts)

def unionCandidateNfts : Finset Nat :=
  graph.edges.foldl
    (fun out edge =>
      if edge.seedContract ≠ seed then out
      else if !edgeInScope edge scope primaryChain matrixSecondary then out
      else edge.expandInto contractNfts out) ∅

def scanDimension (dimension : Dimension) : Finset Nat :=
  graph.edges.foldl
    (fun out edge =>
      if edge.seedContract ≠ seed then out
      else if edge.dimension ≠ dimension then out
      else if !edgeInScope edge scope primaryChain matrixSecondary then out
      else edge.expandInto contractNfts out) ∅

/-- NFTs of a single dimension. An image hit of an NFT whose token URI is hit is not counted. -/
def dimensionCandidateNfts (dimension : Dimension) : Finset Nat :=
  let out := scanDimension graph seed scope primaryChain matrixSecondary contractNfts dimension
  if dimension = .imageUri then
    let tokenUri :=
      scanDimension graph seed scope primaryChain matrixSecondary contractNfts .tokenUri
    out.filter fun nft => nft ∉ tokenUri
  else
    out

def inSeedScope (edge : HitEdge) : Bool :=
  edge.seedContract == seed && edgeInScope edge scope primaryChain matrixSecondary

theorem unionCandidateNfts_eq :
    unionCandidateNfts graph seed scope primaryChain matrixSecondary contractNfts =
      collectValues (inSeedScope seed scope primaryChain matrixSecondary)
        (HitEdge.nftSet contractNfts) graph.edges := by
  rw [unionCandidateNfts, collectValues]
  congr 1
  funext out edge
  rw [collectEntry, inSeedScope, HitEdge.expandInto_eq]
  by_cases ofSeed : edge.seedContract = seed <;>
    cases edgeInScope edge scope primaryChain matrixSecondary <;> simp [ofSeed]

theorem scanDimension_eq (dimension : Dimension) :
    scanDimension graph seed scope primaryChain matrixSecondary contractNfts dimension =
      collectValues
        (fun edge => inSeedScope seed scope primaryChain matrixSecondary edge &&
          edge.dimension == dimension)
        (HitEdge.nftSet contractNfts) graph.edges := by
  rw [scanDimension, collectValues]
  congr 1
  funext out edge
  rw [collectEntry, inSeedScope, HitEdge.expandInto_eq]
  by_cases ofSeed : edge.seedContract = seed <;>
    by_cases isDimension : edge.dimension = dimension <;>
    cases edgeInScope edge scope primaryChain matrixSecondary <;> simp [ofSeed, isDimension]

end

end HitGraph

end NftData.Analysis2
