import NftData.Analysis2.Dedup.Hits

namespace NftData.Analysis2

/-! # Candidate registry

The edges of all seeds, merged into one relation per seed and candidate. A hit of a whole
contract stays symbolic while the edges are read, and is expanded once per candidate. -/

open List

def pairLe (left right : Nat × Nat) : Prop :=
  left.1 < right.1 ∨ (left.1 = right.1 ∧ left.2 ≤ right.2)

instance : DecidableRel pairLe := fun left right =>
  inferInstanceAs (Decidable (left.1 < right.1 ∨ (left.1 = right.1 ∧ left.2 ≤ right.2)))

instance : Std.Total pairLe := ⟨fun left right => by
  rw [pairLe, pairLe]
  omega⟩

instance : IsTrans (Nat × Nat) pairLe := ⟨fun left middle right first second => by
  rw [pairLe] at first second ⊢
  omega⟩

instance : Std.Antisymm pairLe := ⟨fun left right first second => by
  rw [pairLe] at first second
  apply Prod.ext
  · omega
  · omega⟩

/-- One seed→candidate contract relation with merged dimensions and NFT union. -/
structure SeedCandidateRelation where
  seedContract : Nat
  candidateContract : Nat
  dimensions : List Dimension
  nftIds : List Nat
  deriving DecidableEq

def SeedCandidateRelation.key (relation : SeedCandidateRelation) : Nat × Nat :=
  (relation.seedContract, relation.candidateContract)

inductive PendingNfts where
  | explicit
  | explicitSet (nfts : Finset Nat)
  | wholeContract
  deriving DecidableEq

def PendingNfts.insertExplicit : PendingNfts → Nat → PendingNfts
  | .explicit, nft => .explicitSet {nft}
  | .explicitSet nfts, nft => .explicitSet (insert nft nfts)
  | .wholeContract, _ => .wholeContract

namespace HitEdge

def key (edge : HitEdge) : Nat × Nat := (edge.seedContract, edge.candidateContract)

def pendingAfter (pending : PendingNfts) (edge : HitEdge) : PendingNfts :=
  match edge.candidateNft with
  | some nft => pending.insertExplicit nft
  | none => .wholeContract

end HitEdge

/-- The tables of the fold over the edges. -/
structure PairTables where
  pairs : Finset (Nat × Nat)
  pairDims : Nat × Nat → Finset Dimension
  pairNfts : Nat × Nat → PendingNfts
  candidates : Finset Nat

namespace PairTables

def new : PairTables := ⟨∅, fun _ => ∅, fun _ => .explicit, ∅⟩

def addEdge (tables : PairTables) (edge : HitEdge) : PairTables where
  pairs := insert edge.key tables.pairs
  pairDims := Function.update tables.pairDims edge.key
    (insert edge.dimension (tables.pairDims edge.key))
  pairNfts := Function.update tables.pairNfts edge.key
    (edge.pendingAfter (tables.pairNfts edge.key))
  candidates := insert edge.candidateContract tables.candidates

def addGraphs (graphs : List HitGraph) : PairTables :=
  graphs.foldl (fun tables graph => graph.edges.foldl addEdge tables) new

end PairTables

def dimensionOrd : Dimension → Nat
  | .name => 0
  | .tokenUri => 1
  | .imageUri => 2
  | .metadata => 3

def dimensionLe (left right : Dimension) : Prop := dimensionOrd left ≤ dimensionOrd right

instance : DecidableRel dimensionLe := fun left right =>
  inferInstanceAs (Decidable (dimensionOrd left ≤ dimensionOrd right))

instance : IsTrans Dimension dimensionLe := ⟨fun _ _ _ => Nat.le_trans⟩

instance : Std.Antisymm dimensionLe := ⟨fun left right => by
  cases left <;> cases right <;> simp [dimensionLe, dimensionOrd]⟩

instance : Std.Total dimensionLe := ⟨fun left right =>
  Nat.le_total (dimensionOrd left) (dimensionOrd right)⟩

/-- Unique candidates plus per-seed relations. A seed's relations are kept as indices. -/
structure CandidateRegistry where
  candidateContracts : List Nat
  relations : List SeedCandidateRelation
  relationsBySeed : Nat → List Nat

namespace CandidateRegistry

def new : CandidateRegistry := ⟨[], [], fun _ => []⟩

def pushRelation (registry : CandidateRegistry) (relation : SeedCandidateRelation) :
    CandidateRegistry :=
  { registry with
    relations := registry.relations ++ [relation]
    relationsBySeed := Function.update registry.relationsBySeed relation.seedContract
      (registry.relationsBySeed relation.seedContract ++ [registry.relations.length]) }

def wholeIds (contractNfts : ContractNfts) (candidate : Nat) : List Nat :=
  ((contractNfts candidate).getD []).insertionSort (· ≤ ·)

def pendingIds (contractNfts : ContractNfts) (whole : Nat → Option (List Nat))
    (candidate : Nat) : PendingNfts → List Nat × (Nat → Option (List Nat))
  | .wholeContract =>
      match whole candidate with
      | some ids => (ids, whole)
      | none =>
          let ids := wholeIds contractNfts candidate
          (ids, Function.update whole candidate (some ids))
  | .explicitSet nfts => (nfts.sort (· ≤ ·), whole)
  | .explicit => ([], whole)

def addPair (tables : PairTables) (contractNfts : ContractNfts)
    (building : CandidateRegistry × (Nat → Option (List Nat))) (key : Nat × Nat) :
    CandidateRegistry × (Nat → Option (List Nat)) :=
  let (nftIds, whole) := pendingIds contractNfts building.2 key.2 (tables.pairNfts key)
  (building.1.pushRelation ⟨key.1, key.2, (tables.pairDims key).sort dimensionLe, nftIds⟩, whole)

def fromHitGraphs (graphs : List HitGraph) (contractNfts : ContractNfts) : CandidateRegistry :=
  let tables := PairTables.addGraphs graphs
  let built := (tables.pairs.sort pairLe).foldl (addPair tables contractNfts) (new, fun _ => none)
  { built.1 with candidateContracts := tables.candidates.sort (· ≤ ·) }

def relationsForSeed (registry : CandidateRegistry) (seed : Nat) : List SeedCandidateRelation :=
  (registry.relationsBySeed seed).filterMap fun idx => registry.relations[idx]?

/-- Sub-registry containing only `keep` candidates and their seed relations. -/
def filterCandidates (registry : CandidateRegistry) (keep : Finset Nat) : CandidateRegistry :=
  if keep = ∅ then new
  else
    let kept := registry.relations.foldl
      (fun kept relation =>
        if relation.candidateContract ∈ keep then kept.pushRelation relation else kept) new
    { kept with
      candidateContracts :=
        (registry.candidateContracts.filter (· ∈ keep)).insertionSort (· ≤ ·) }

def ofRelations (candidates : List Nat) (relations : List SeedCandidateRelation) :
    CandidateRegistry :=
  { relations.foldl pushRelation new with candidateContracts := candidates }

theorem relations_foldl_pushRelation (relations : List SeedCandidateRelation) :
    (relations.foldl pushRelation new).relations = relations := by
  induction relations using List.reverseRecOn with
  | nil => rfl
  | append_singleton relations relation induction =>
      rw [foldl_concat, pushRelation, induction]

theorem relationsBySeed_foldl_pushRelation (relations : List SeedCandidateRelation) (seed : Nat) :
    (∀ idx ∈ (relations.foldl pushRelation new).relationsBySeed seed, idx < relations.length) ∧
      ((relations.foldl pushRelation new).relationsBySeed seed).filterMap
        (fun idx => relations[idx]?) =
          relations.filter fun relation => relation.seedContract = seed := by
  induction relations using List.reverseRecOn with
  | nil => exact ⟨by simp [new], rfl⟩
  | append_singleton relations relation induction =>
      obtain ⟨inside, named⟩ := induction
      have namedBefore :
          ((relations.foldl pushRelation new).relationsBySeed seed).filterMap
              (fun idx => (relations ++ [relation])[idx]?) =
            relations.filter fun relation => relation.seedContract = seed := by
        rw [← named]
        apply filterMap_congr
        intro idx member
        exact List.getElem?_append_left (inside idx member)
      rw [foldl_concat, pushRelation, relations_foldl_pushRelation]
      by_cases ofSeed : relation.seedContract = seed
      · subst ofSeed
        simp only [Function.update_self, length_append, length_singleton]
        constructor
        · intro idx member
          rcases mem_append.mp member with known | pushed
          · exact Nat.lt_succ_of_lt (inside idx known)
          · rw [mem_singleton.mp pushed]
            exact Nat.lt_succ_self _
        · rw [filterMap_append, namedBefore, filter_append]
          simp
      · simp only [Function.update_of_ne (Ne.symm ofSeed), length_append,
          length_singleton]
        constructor
        · intro idx member
          exact Nat.lt_succ_of_lt (inside idx member)
        · rw [namedBefore, filter_append]
          simp [ofSeed]

theorem relationsForSeed_ofRelations (candidates : List Nat)
    (relations : List SeedCandidateRelation) (seed : Nat) :
    (ofRelations candidates relations).relationsForSeed seed =
      relations.filter fun relation => relation.seedContract = seed := by
  rw [relationsForSeed, ofRelations]
  simp only [relations_foldl_pushRelation]
  exact (relationsBySeed_foldl_pushRelation relations seed).2

end CandidateRegistry

namespace PairTables

def ofPair (edges : List HitEdge) (key : Nat × Nat) : List HitEdge :=
  edges.filter fun edge => edge.key = key

def pendingOf (edges : List HitEdge) : PendingNfts :=
  edges.foldl (fun pending edge => edge.pendingAfter pending) .explicit

theorem addGraphs_eq (graphs : List HitGraph) :
    addGraphs graphs = (graphs.flatMap HitGraph.edges).foldl addEdge new := by
  rw [addGraphs, foldl_flatMap]

theorem ofPair_concat (edges : List HitEdge) (edge : HitEdge) (key : Nat × Nat) :
    ofPair (edges ++ [edge]) key =
      if edge.key = key then ofPair edges key ++ [edge] else ofPair edges key := by
  rw [ofPair, filter_append]
  split <;> simp [ofPair, *]

theorem foldl_addEdge (edges : List HitEdge) :
    edges.foldl addEdge new =
      { pairs := (edges.map HitEdge.key).toFinset
        pairDims := fun key => ((ofPair edges key).map HitEdge.dimension).toFinset
        pairNfts := fun key => pendingOf (ofPair edges key)
        candidates := (edges.map HitEdge.candidateContract).toFinset } := by
  induction edges using List.reverseRecOn with
  | nil => rfl
  | append_singleton edges edge induction =>
      have insertLast {Value : Type} [DecidableEq Value] (values : List Value) (last : Value) :
          insert last values.toFinset = (values ++ [last]).toFinset := by
        ext value
        rw [Finset.mem_insert, mem_toFinset, mem_toFinset, mem_append,
          mem_singleton, or_comm]
      rw [foldl_concat, induction, addEdge]
      congr 1
      · simp only [map_append, map_cons, map_nil, insertLast]
      · funext key
        by_cases same : edge.key = key
        · subst same
          rw [Function.update_self, ofPair_concat, if_pos rfl, map_append, map_singleton,
            insertLast]
        · rw [Function.update_of_ne (Ne.symm same), ofPair_concat, if_neg same]
      · funext key
        by_cases same : edge.key = key
        · subst same
          rw [Function.update_self, ofPair_concat, if_pos rfl]
          exact foldl_concat .. |>.symm
        · rw [Function.update_of_ne (Ne.symm same), ofPair_concat, if_neg same]
      · simp only [map_append, map_cons, map_nil, insertLast]

def namedNfts (edges : List HitEdge) : Finset Nat :=
  (edges.filterMap HitEdge.candidateNft).toFinset

/-- One whole-contract edge absorbs the explicit ones, whichever comes first. -/
theorem pendingOf_eq (edges : List HitEdge) :
    pendingOf edges =
      if ∃ edge ∈ edges, edge.candidateNft = none then .wholeContract
      else if edges = [] then .explicit
      else .explicitSet (namedNfts edges) := by
  induction edges using List.reverseRecOn with
  | nil => simp [pendingOf]
  | append_singleton edges edge induction =>
      rw [pendingOf, foldl_concat, ← pendingOf, induction, HitEdge.pendingAfter]
      cases named : edge.candidateNft with
      | none => simp [named]
      | some nft =>
          by_cases whole : ∃ edge ∈ edges, edge.candidateNft = none
          · have wholeAfter : ∃ other ∈ edges ++ [edge], other.candidateNft = none := by
              obtain ⟨other, member, isWhole⟩ := whole
              exact ⟨other, mem_append_left _ member, isWhole⟩
            rw [if_pos whole, if_pos wholeAfter]
            rfl
          · have explicitAfter : ¬∃ other ∈ edges ++ [edge], other.candidateNft = none := by
              simpa [or_and_right, exists_or, named] using whole
            have namedAfter : namedNfts (edges ++ [edge]) = insert nft (namedNfts edges) := by
              ext other
              simp [namedNfts, named]
            have notEmpty : edges ++ [edge] ≠ [] := by simp
            rw [if_neg whole, if_neg explicitAfter, if_neg notEmpty, namedAfter]
            by_cases empty : edges = []
            · subst empty
              rfl
            · rw [if_neg empty]
              rfl

end PairTables

namespace CandidateRegistry

open PairTables

variable (contractNfts : ContractNfts)

def relationOf (edges : List HitEdge) (key : Nat × Nat) : SeedCandidateRelation :=
  ⟨key.1, key.2, (((ofPair edges key).map HitEdge.dimension).toFinset).sort dimensionLe,
    (pendingIds contractNfts (fun _ => none) key.2 (pendingOf (ofPair edges key))).1⟩

def Expanded (whole : Nat → Option (List Nat)) : Prop :=
  ∀ candidate ids, whole candidate = some ids → ids = wholeIds contractNfts candidate

theorem pendingIds_expanded {whole : Nat → Option (List Nat)}
    (expanded : Expanded contractNfts whole) (candidate : Nat) (pending : PendingNfts) :
    (pendingIds contractNfts whole candidate pending).1 =
        (pendingIds contractNfts (fun _ => none) candidate pending).1 ∧
      Expanded contractNfts (pendingIds contractNfts whole candidate pending).2 := by
  cases pending with
  | explicit | explicitSet nfts => exact ⟨rfl, expanded⟩
  | wholeContract =>
      cases found : whole candidate with
      | some ids =>
          simp only [pendingIds, found]
          exact ⟨expanded candidate ids found, expanded⟩
      | none =>
          simp only [pendingIds, found]
          refine ⟨trivial, ?_⟩
          intro other ids known
          by_cases same : other = candidate
          · subst same
            simpa using known.symm
          · rw [Function.update_of_ne same] at known
            exact expanded other ids known

/-- Sharing the expansions does not change a relation. -/
theorem foldl_addPair (edges : List HitEdge) (keys : List (Nat × Nat)) :
    (keys.foldl (addPair (edges.foldl addEdge .new) contractNfts) (new, fun _ => none)).1 =
        (keys.map (relationOf contractNfts edges)).foldl pushRelation new ∧
      Expanded contractNfts
        (keys.foldl (addPair (edges.foldl addEdge .new) contractNfts) (new, fun _ => none)).2 := by
  induction keys using List.reverseRecOn with
  | nil => exact ⟨rfl, fun _ _ known => by simp at known⟩
  | append_singleton keys key induction =>
      obtain ⟨built, expanded⟩ := induction
      obtain ⟨ids, expandedAfter⟩ := pendingIds_expanded contractNfts expanded key.2
        (pendingOf (ofPair edges key))
      rw [foldl_addEdge] at built expanded ids expandedAfter ⊢
      rw [foldl_concat, map_append, List.foldl_append, ← built]
      exact ⟨congrArg (fun ids => pushRelation _ ⟨key.1, key.2, _, ids⟩) ids, expandedAfter⟩

/-- The registry of a list of edges, by what it is for: the candidates and the pairs are those of
the edges, and each pair has the relation of its edges. -/
theorem fromHitGraphs_eq (graphs : List HitGraph) :
    fromHitGraphs graphs contractNfts =
      ofRelations
        (((graphs.flatMap HitGraph.edges).map HitEdge.candidateContract).toFinset.sort (· ≤ ·))
        ((((graphs.flatMap HitGraph.edges).map HitEdge.key).toFinset.sort pairLe).map
          (relationOf contractNfts (graphs.flatMap HitGraph.edges))) := by
  rw [fromHitGraphs, addGraphs_eq, ofRelations]
  simp only [(foldl_addPair contractNfts _ _).1]
  rw [foldl_addEdge]

variable {edges others : List HitEdge}

section

variable (same : ∀ edge, edge ∈ others ↔ edge ∈ edges)
include same

theorem ofPair_congr (key : Nat × Nat)
    (edge : HitEdge) : edge ∈ ofPair others key ↔ edge ∈ ofPair edges key := by
  rw [ofPair, ofPair, mem_filter, mem_filter, same]

theorem toFinset_map_congr {Value : Type} [DecidableEq Value] (value : HitEdge → Value) :
    (others.map value).toFinset = (edges.map value).toFinset := by
  ext
  simp only [mem_toFinset, mem_map, same]

theorem pendingOf_congr :
    pendingOf others = pendingOf edges := by
  have named : namedNfts others = namedNfts edges := by
    ext nft
    simp only [namedNfts, mem_toFinset, mem_filterMap, same]
  have empty : others = [] ↔ edges = [] := by
    simp only [eq_nil_iff_forall_not_mem, same]
  rw [pendingOf_eq, pendingOf_eq, named]
  simp only [same, empty]

end

/-- Graphs with the same edges, in any order, have the same registry. -/
theorem fromHitGraphs_congr {graphs others : List HitGraph}
    (same : ∀ edge, edge ∈ others.flatMap HitGraph.edges ↔ edge ∈ graphs.flatMap HitGraph.edges) :
    fromHitGraphs others contractNfts = fromHitGraphs graphs contractNfts := by
  have sameRelation (key : Nat × Nat) :
      relationOf contractNfts (others.flatMap HitGraph.edges) key =
        relationOf contractNfts (graphs.flatMap HitGraph.edges) key := by
    rw [relationOf, relationOf, toFinset_map_congr (ofPair_congr same key),
      pendingOf_congr (ofPair_congr same key)]
  rw [fromHitGraphs_eq, fromHitGraphs_eq, toFinset_map_congr same, toFinset_map_congr same,
    funext sameRelation]

def keepCandidates (keep : Finset Nat) (graph : HitGraph) : HitGraph :=
  ⟨graph.edges.filter fun edge => edge.candidateContract ∈ keep, fun edge member =>
    graph.noSelfHit edge (mem_filter.mp member).1⟩

theorem edges_keepCandidates (keep : Finset Nat) (graphs : List HitGraph) :
    (graphs.map (keepCandidates keep)).flatMap HitGraph.edges =
      (graphs.flatMap HitGraph.edges).filter fun edge => edge.candidateContract ∈ keep := by
  rw [filter_flatMap, flatMap_map]
  rfl

theorem filterCandidates_ofRelations (candidates : List Nat)
    (relations : List SeedCandidateRelation) (keep : Finset Nat) :
    (ofRelations candidates relations).filterCandidates keep =
      ofRelations ((candidates.filter (· ∈ keep)).insertionSort (· ≤ ·))
        (relations.filter fun relation => relation.candidateContract ∈ keep) := by
  rw [filterCandidates]
  split
  · next empty =>
      subst empty
      simp [ofRelations, new]
  · rw [ofRelations]
    simp only [ofRelations, relations_foldl_pushRelation, foldl_filter, decide_eq_true_eq]

theorem filter_sort {Value : Type} [DecidableEq Value] (order : Value → Value → Prop)
    [DecidableRel order] [IsTrans Value order] [Std.Antisymm order] [Std.Total order]
    (values : Finset Value) (holds : Value → Prop) [DecidablePred holds] :
    (values.sort order).filter (fun value => holds value) = (values.filter holds).sort order := by
  have perm : ((values.sort order).filter fun value => holds value).Perm
      ((values.filter holds).sort order) := by
    rw [perm_ext_iff_of_nodup ((values.sort_nodup order).filter _)
      ((values.filter holds).sort_nodup order)]
    simp
  exact perm.eq_of_pairwise' ((values.pairwise_sort order).filter _)
    ((values.filter holds).pairwise_sort order)

theorem toFinset_map_filter {Value : Type} [DecidableEq Value] (edges : List HitEdge)
    (keep : HitEdge → Prop) [DecidablePred keep] (value : HitEdge → Value) (holds : Value → Prop)
    [DecidablePred holds] (same : ∀ edge, keep edge ↔ holds (value edge)) :
    ((edges.filter fun edge => keep edge).map value).toFinset =
      (edges.map value).toFinset.filter holds := by
  ext found
  simp only [mem_toFinset, mem_map, mem_filter, Finset.mem_filter,
    decide_eq_true_eq, same]
  constructor
  · rintro ⟨edge, ⟨member, kept⟩, rfl⟩
    exact ⟨⟨edge, member, rfl⟩, kept⟩
  · rintro ⟨⟨edge, member, rfl⟩, kept⟩
    exact ⟨edge, ⟨member, kept⟩, rfl⟩

theorem filterCandidates_fromHitGraphs (graphs : List HitGraph) (keep : Finset Nat) :
    (fromHitGraphs graphs contractNfts).filterCandidates keep =
      fromHitGraphs (graphs.map (keepCandidates keep)) contractNfts := by
  rw [fromHitGraphs_eq, fromHitGraphs_eq, filterCandidates_ofRelations, edges_keepCandidates]
  generalize graphs.flatMap HitGraph.edges = edges
  have keptRelation (key : Nat × Nat) (kept : key.2 ∈ keep) :
      relationOf contractNfts edges key =
        relationOf contractNfts (edges.filter fun edge => edge.candidateContract ∈ keep) key := by
    have samePair :
        ofPair (edges.filter fun edge => edge.candidateContract ∈ keep) key = ofPair edges key := by
      rw [ofPair, ofPair, filter_filter]
      apply filter_congr
      intro edge _
      by_cases same : edge.key = key
      · subst same
        simp only [decide_true, Bool.true_and]
        exact decide_eq_true kept
      · simp [same]
    rw [relationOf, relationOf, samePair]
  have keptFirst := toFinset_map_filter edges (·.candidateContract ∈ keep)
    HitEdge.candidateContract (· ∈ keep) fun _ => Iff.rfl
  have keptPairs := toFinset_map_filter edges (·.candidateContract ∈ keep)
    HitEdge.key (·.2 ∈ keep) fun _ => Iff.rfl
  rw [keptFirst, keptPairs]
  congr 1
  · rw [filter_sort (· ≤ ·) (edges.map HitEdge.candidateContract).toFinset (· ∈ keep)]
    exact (Finset.pairwise_sort _ _).insertionSort_eq
  · rw [filter_map, ← filter_sort pairLe]
    apply map_congr_left
    intro key member
    exact keptRelation key (decide_eq_true_eq.mp (mem_filter.mp member).2)

/-! ## What a registry says -/

/-- All NFTs of a pair's edges, where a whole-contract edge stands for those of its candidate. -/
def unionNfts (edges : List HitEdge) (key : Nat × Nat) : Finset Nat :=
  collectValues (fun edge => edge.key == key) (HitEdge.nftSet contractNfts) edges

def ListsNfts (edges : List HitEdge) (key : Nat × Nat) : Prop :=
  ((contractNfts key.2).getD []).Nodup ∧
    ∀ edge ∈ edges, edge.key = key → ∀ nft, edge.candidateNft = some nft →
      nft ∈ (contractNfts key.2).getD []

/-- The registry is the summary of the edges. -/
structure Summarises (registry : CandidateRegistry) (edges : List HitEdge) : Prop where
  candidatesOnce : registry.candidateContracts.Pairwise (· < ·)
  candidates : ∀ candidate, candidate ∈ registry.candidateContracts ↔
    ∃ edge ∈ edges, edge.candidateContract = candidate
  pairsOnce : (registry.relations.map SeedCandidateRelation.key).Nodup
  pairs : ∀ key, key ∈ registry.relations.map SeedCandidateRelation.key ↔
    ∃ edge ∈ edges, edge.key = key
  dimensionsOnce : ∀ relation ∈ registry.relations,
    relation.dimensions.Pairwise fun left right => dimensionOrd left < dimensionOrd right
  dimensions : ∀ relation ∈ registry.relations, ∀ dimension, dimension ∈ relation.dimensions ↔
    ∃ edge ∈ edges, edge.key = relation.key ∧ edge.dimension = dimension
  wholeNfts : ∀ relation ∈ registry.relations,
    (∃ edge ∈ edges, edge.key = relation.key ∧ edge.candidateNft = none) →
      relation.nftIds.Pairwise (· ≤ ·) ∧
        relation.nftIds.Perm ((contractNfts relation.candidateContract).getD [])
  namedNfts : ∀ relation ∈ registry.relations,
    (¬∃ edge ∈ edges, edge.key = relation.key ∧ edge.candidateNft = none) →
      relation.nftIds.Pairwise (· < ·) ∧ ∀ nft, nft ∈ relation.nftIds ↔
        ∃ edge ∈ edges, edge.key = relation.key ∧ edge.candidateNft = some nft
  union : ∀ relation ∈ registry.relations, ListsNfts contractNfts edges relation.key →
    relation.nftIds = (unionNfts contractNfts edges relation.key).sort (· ≤ ·)
  relationsForSeed : ∀ seed, registry.relationsForSeed seed =
    registry.relations.filter fun relation => relation.seedContract = seed

variable {key : Nat × Nat}

theorem nftIds_relationOf_whole (whole : ∃ edge ∈ edges, edge.key = key ∧ edge.candidateNft = none)
    :
    (relationOf contractNfts edges key).nftIds = wholeIds contractNfts key.2 := by
  obtain ⟨edge, member, rfl, isWhole⟩ := whole
  have wholeOfPair : ∃ other ∈ ofPair edges edge.key, other.candidateNft = none :=
    ⟨edge, mem_filter.mpr ⟨member, decide_eq_true rfl⟩, isWhole⟩
  rw [relationOf, pendingOf_eq, if_pos wholeOfPair]
  rfl

theorem nftIds_relationOf_named
    (explicit : ¬∃ edge ∈ edges, edge.key = key ∧ edge.candidateNft = none) :
    (relationOf contractNfts edges key).nftIds =
      (PairTables.namedNfts (ofPair edges key)).sort (· ≤ ·) := by
  have explicitOfPair : ¬∃ other ∈ ofPair edges key, other.candidateNft = none := by
    rintro ⟨other, member, isWhole⟩
    rw [ofPair, mem_filter, decide_eq_true_eq] at member
    exact explicit ⟨other, member.1, member.2, isWhole⟩
  rw [relationOf, pendingOf_eq, if_neg explicitOfPair]
  by_cases empty : ofPair edges key = []
  · rw [if_pos empty, empty]
    exact (Finset.sort_empty _).symm
  · rw [if_neg empty]
    rfl

variable {nft : Nat}

theorem mem_namedNfts :
    nft ∈ PairTables.namedNfts (ofPair edges key) ↔
      ∃ edge ∈ edges, edge.key = key ∧ edge.candidateNft = some nft := by
  simp [PairTables.namedNfts, ofPair, and_assoc]

theorem mem_unionNfts :
    nft ∈ unionNfts contractNfts edges key ↔
      (∃ edge ∈ edges, edge.key = key ∧ edge.candidateNft = some nft) ∨
        ((∃ edge ∈ edges, edge.key = key ∧ edge.candidateNft = none) ∧
          nft ∈ (contractNfts key.2).getD []) := by
  rw [unionNfts, mem_collectValues]
  simp only [beq_iff_eq, HitEdge.nftSet, mem_toFinset]
  constructor
  · rintro ⟨edge, member, rfl, isNft⟩
    cases named : edge.candidateNft with
    | some found =>
        simp only [HitEdge.nfts, named, mem_singleton] at isNft
        subst isNft
        exact .inl ⟨edge, member, rfl, named⟩
    | none =>
        simp only [HitEdge.nfts, named] at isNft
        exact .inr ⟨⟨edge, member, rfl, named⟩, isNft⟩
  · rintro (⟨edge, member, rfl, named⟩ | ⟨⟨edge, member, rfl, named⟩, listed⟩)
    · exact ⟨edge, member, rfl, by simp [HitEdge.nfts, named]⟩
    · exact ⟨edge, member, rfl, by
        simp only [HitEdge.nfts, named]
        exact listed⟩

theorem nftIds_relationOf_union (lists : ListsNfts contractNfts edges key) :
    (relationOf contractNfts edges key).nftIds =
      (unionNfts contractNfts edges key).sort (· ≤ ·) := by
  obtain ⟨once, listed⟩ := lists
  by_cases whole : ∃ edge ∈ edges, edge.key = key ∧ edge.candidateNft = none
  · have same : unionNfts contractNfts edges key = ((contractNfts key.2).getD []).toFinset := by
      ext nft
      rw [mem_unionNfts, mem_toFinset]
      constructor
      · rintro (⟨edge, member, isKey, named⟩ | ⟨-, found⟩)
        · exact listed edge member isKey nft named
        · exact found
      · intro found
        exact .inr ⟨whole, found⟩
    rw [nftIds_relationOf_whole contractNfts whole, same, wholeIds]
    have perm := perm_insertionSort (· ≤ ·) ((contractNfts key.2).getD [])
    apply List.Perm.eq_of_pairwise' (pairwise_insertionSort _ _) (Finset.pairwise_sort _ _)
    rw [perm_ext_iff_of_nodup (perm.nodup_iff.mpr once) (Finset.sort_nodup _ _)]
    intro nft
    rw [perm.mem_iff, Finset.mem_sort, mem_toFinset]
  · rw [nftIds_relationOf_named contractNfts whole]
    congr 1
    ext nft
    rw [mem_namedNfts, mem_unionNfts]
    simp only [whole, false_and, or_false]

theorem summarises_fromHitGraphs (graphs : List HitGraph) :
    Summarises contractNfts (fromHitGraphs graphs contractNfts)
      (graphs.flatMap HitGraph.edges) := by
  rw [fromHitGraphs_eq]
  generalize graphs.flatMap HitGraph.edges = edges
  have relations (candidates : List Nat) (list : List SeedCandidateRelation) :
      (ofRelations candidates list).relations = list := relations_foldl_pushRelation list
  have keys : ((edges.map HitEdge.key).toFinset.sort pairLe).map
      (SeedCandidateRelation.key ∘ relationOf contractNfts edges) =
        (edges.map HitEdge.key).toFinset.sort pairLe := by
    exact map_id _
  constructor
  case candidatesOnce =>
    exact (edges.map HitEdge.candidateContract).toFinset.sortedLT_sort.pairwise
  case candidates => simp [ofRelations]
  case pairsOnce =>
    rw [relations, map_map, keys]
    exact Finset.sort_nodup _ _
  case pairs =>
    intro key
    rw [relations, map_map, keys]
    simp
  case relationsForSeed =>
    intro seed
    rw [relationsForSeed_ofRelations, relations]
  all_goals
    intro relation member
    rw [relations] at member
    obtain ⟨key, isKey, rfl⟩ := mem_map.mp member
  case dimensionsOnce =>
    have ordered := ((ofPair edges key).map HitEdge.dimension).toFinset.pairwise_sort dimensionLe
    have once := ((ofPair edges key).map HitEdge.dimension).toFinset.sort_nodup dimensionLe
    apply (ordered.and once).imp
    rintro left right ⟨below, different⟩
    apply lt_of_le_of_ne below
    intro same
    exact different (antisymm_of dimensionLe below same.ge)
  case dimensions =>
    intro dimension
    simp [relationOf, SeedCandidateRelation.key, ofPair, and_assoc]
  case wholeNfts =>
    intro (whole : ∃ edge ∈ edges, edge.key = key ∧ edge.candidateNft = none)
    rw [nftIds_relationOf_whole contractNfts whole]
    exact ⟨pairwise_insertionSort _ _, perm_insertionSort _ _⟩
  case namedNfts =>
    intro (explicit : ¬∃ edge ∈ edges, edge.key = key ∧ edge.candidateNft = none)
    rw [nftIds_relationOf_named contractNfts explicit]
    refine ⟨(Finset.sortedLT_sort _).pairwise, ?_⟩
    intro nft
    rw [Finset.mem_sort, mem_namedNfts]
    rfl
  case union =>
    intro lists
    exact nftIds_relationOf_union contractNfts lists

/-- The registry of any graphs is the summary of their edges, whatever order they come in, and
keeping some candidates is the same before as after. -/
theorem fromHitGraphs_exact (graphs : List HitGraph) :
    Summarises contractNfts (fromHitGraphs graphs contractNfts)
        (graphs.flatMap HitGraph.edges) ∧
      (∀ others : List HitGraph,
        (∀ edge, edge ∈ others.flatMap HitGraph.edges ↔ edge ∈ graphs.flatMap HitGraph.edges) →
          fromHitGraphs others contractNfts = fromHitGraphs graphs contractNfts) ∧
      ∀ keep, (fromHitGraphs graphs contractNfts).filterCandidates keep =
        fromHitGraphs (graphs.map (keepCandidates keep)) contractNfts :=
  ⟨summarises_fromHitGraphs contractNfts graphs,
    fun _ same => fromHitGraphs_congr contractNfts same,
    filterCandidates_fromHitGraphs contractNfts graphs⟩

def wholeAndNamed : HitGraph where
  edges := [⟨1, 10, none, .name, 1, 0, 1⟩, ⟨1, 10, some 5, .tokenUri, 1, 0, 1⟩]
  noSelfHit := by decide

theorem fromHitGraphs_exact_swapped (contractNfts : ContractNfts) :
    fromHitGraphs [wholeAndNamed, .new] contractNfts =
      fromHitGraphs [.new, wholeAndNamed] contractNfts :=
  (fromHitGraphs_exact contractNfts [.new, wholeAndNamed]).2.1 [wholeAndNamed, .new] fun edge => by
    simp [or_comm]

/-- A map that does not list the named NFT loses it. -/
theorem fromHitGraphs_unlisted :
    ¬∀ (graphs : List HitGraph) (contractNfts : ContractNfts),
      ∀ relation ∈ (fromHitGraphs graphs contractNfts).relations,
        relation.nftIds =
          (unionNfts contractNfts (graphs.flatMap HitGraph.edges) relation.key).sort (· ≤ ·) := by
  intro union
  let map : ContractNfts := fun _ => some [100]
  have summary := summarises_fromHitGraphs map [wholeAndNamed]
  obtain ⟨relation, member, isKey⟩ := mem_map.mp ((summary.pairs (1, 10)).mpr
    ⟨⟨1, 10, none, .name, 1, 0, 1⟩, by decide, rfl⟩)
  have listed := (summary.wholeNfts relation member
    ⟨⟨1, 10, none, .name, 1, 0, 1⟩, by decide, isKey.symm, rfl⟩).2
  have named : 5 ∈ relation.nftIds := by
    rw [union [wholeAndNamed] map relation member, Finset.mem_sort, isKey]
    decide
  exact absurd (listed.mem_iff.mp named) (by decide)

end CandidateRegistry

end NftData.Analysis2
