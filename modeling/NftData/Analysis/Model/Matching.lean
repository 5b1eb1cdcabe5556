import NftData.Foundation.Text

namespace NftData.Analysis

/-! # Matches between contracts

What a seed contract has in common with a candidate contract, and which NFTs of the candidate
a match selects. Similarities are read as exact numbers. -/

inductive ChainId where
  | base
  | ethereum
  | polygon
  | solana
  deriving DecidableEq, Ord, Repr

instance lawfulBEqChainIds : LawfulBEq (ChainId × ChainId) := Prod.instLawfulBEq

structure ContractKey where
  chain : ChainId
  contractAddress : Text
  deriving DecidableEq, Ord, Repr

structure NftKey where
  chain : ChainId
  contractAddress : Text
  tokenId : Text
  deriving DecidableEq, Ord, Repr

def NftKey.contractKey (nft : NftKey) : ContractKey := ⟨nft.chain, nft.contractAddress⟩

/-- Dense numbers of seeds and of candidate contracts. -/
abbrev SeedId := Nat

abbrev CandidateId := Nat

theorem ChainId.eq_of_compare {left right : ChainId} (same : compare left right = .eq) :
    left = right := by
  cases left <;> cases right <;> first | rfl | cases same

theorem NftKey.eq_of_compare {left right : NftKey} (same : compare left right = .eq) :
    left = right := by
  rcases left with ⟨leftChain, leftContract, leftToken⟩
  rcases right with ⟨rightChain, rightContract, rightToken⟩
  change (compare leftChain rightChain).then ((compare leftContract rightContract).then
    ((compare leftToken rightToken).then .eq)) = .eq at same
  rw [Ordering.then_eq_eq, Ordering.then_eq_eq, Ordering.then_eq_eq] at same
  rw [ChainId.eq_of_compare same.1, Std.LawfulEqOrd.eq_of_compare same.2.1,
    Std.LawfulEqOrd.eq_of_compare same.2.2.1]

inductive NftSelection where
  | allInContract (contract : ContractKey) (nftCount : Nat)
  | explicit (nfts : List NftKey)
  deriving DecidableEq, Repr

inductive Dimension where
  | name
  | tokenUri
  | imageUri
  | metadata
  deriving DecidableEq, Ord, Repr

inductive MatchEvidence where
  | name (left right : Text) (similarity threshold : ℚ)
  | uri (dimension : Dimension) (uri : Text) (seedNft candidateNft : NftKey)
  | metadata (seedTokenId candidateTokenId seedDigest candidateDigest : Text)
      (similarity threshold : ℚ)
  deriving DecidableEq

structure SeedCandidateRelation where
  seedId : SeedId
  seed : ContractKey
  candidateId : CandidateId
  candidate : ContractKey
  dimensions : Nat
  selection : NftSelection
  evidence : List MatchEvidence
  incomplete : Bool
  deriving DecidableEq

/-- `sort` and then `dedup`, which drops equal neighbours. -/
def sortDedup {α : Type} [DecidableEq α] (order : α → α → Ordering) (values : List α) :
    List α :=
  (values.insertionSort fun left right => (order left right).isLE).destutter (· ≠ ·)

section SortDedup

variable {α : Type} {order : α → α → Ordering} [Std.TransCmp order]

instance totalIsLE : Std.Total fun left right : α => (order left right).isLE = true :=
  ⟨fun left right => by
    have swapped : order right left = (order left right).swap := Std.OrientedCmp.eq_swap
    rw [swapped]
    cases order left right <;> decide⟩

instance transIsLE : IsTrans α fun left right => (order left right).isLE = true :=
  ⟨fun _ _ _ => Std.TransCmp.isLE_trans⟩

variable [Std.LawfulEqCmp order] [DecidableEq α]

instance antisymmIsLE : Std.Antisymm fun left right : α => (order left right).isLE = true :=
  ⟨fun _ _ less greater =>
    Std.LawfulEqCmp.eq_of_compare (Std.OrientedCmp.isLE_antisymm less greater)⟩

theorem sortDedup_eq_dedup (values : List α) :
    sortDedup order values =
      (values.insertionSort fun left right => (order left right).isLE).dedup :=
  List.Pairwise.destutter_eq_dedup (List.pairwise_insertionSort _ values)

theorem mem_sortDedup {values : List α} {value : α} :
    value ∈ sortDedup order values ↔ value ∈ values := by
  rw [sortDedup_eq_dedup, List.mem_dedup, List.mem_insertionSort]

theorem nodup_sortDedup (values : List α) : (sortDedup order values).Nodup := by
  rw [sortDedup_eq_dedup]
  exact List.nodup_dedup _

end SortDedup

namespace NftSelection

def normalize : NftSelection → NftSelection
  | .allInContract contract nftCount => .allInContract contract nftCount
  | .explicit nfts => .explicit (sortDedup compare nfts)

def unionAssign : NftSelection → NftSelection → NftSelection
  | .allInContract contract nftCount, _ => .allInContract contract nftCount
  | .explicit _, .allInContract contract nftCount => .allInContract contract nftCount
  | .explicit nfts, .explicit right => .explicit (nfts ++ right)

def Selects (selection : NftSelection) (nft : NftKey) : Prop :=
  match selection with
  | .allInContract contract _ => nft.contractKey = contract
  | .explicit nfts => nft ∈ nfts

end NftSelection

/-- Names come first, then URIs, then metadata. -/
def compareEvidence : MatchEvidence → MatchEvidence → Ordering
  | .name leftSeed leftCandidate leftSimilarity leftThreshold,
    .name rightSeed rightCandidate rightSimilarity rightThreshold =>
      (compare leftCandidate rightCandidate).then <| (compare leftSeed rightSeed).then <|
        (compare leftSimilarity rightSimilarity).then (compare leftThreshold rightThreshold)
  | .uri leftDimension leftUri leftSeed leftCandidate,
    .uri rightDimension rightUri rightSeed rightCandidate =>
      (compare leftCandidate rightCandidate).then <|
        (compare leftDimension rightDimension).then <|
          (compare leftSeed rightSeed).then (compare leftUri rightUri)
  | .metadata leftSeedToken leftCandidateToken leftSeedDigest leftCandidateDigest
      leftSimilarity leftThreshold,
    .metadata rightSeedToken rightCandidateToken rightSeedDigest rightCandidateDigest
      rightSimilarity rightThreshold =>
      (compare leftCandidateDigest rightCandidateDigest).then <|
        (compare leftCandidateToken rightCandidateToken).then <|
          (compare leftSeedDigest rightSeedDigest).then <|
            (compare leftSeedToken rightSeedToken).then <|
              (compare leftSimilarity rightSimilarity).then
                (compare leftThreshold rightThreshold)
  | .name _ _ _ _, _ => .lt
  | _, .name _ _ _ _ => .gt
  | .uri _ _ _ _, _ => .lt
  | _, .uri _ _ _ _ => .gt

end NftData.Analysis
