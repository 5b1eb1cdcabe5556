import NftData.Analysis.Resident.NameIndex

namespace NftData.Analysis

/-! # Name query

Candidates of a shard pass the filters by length and by common characters before their
similarity is computed. -/

open List
open NameIndex (build scale)

/-- A similarity below the cutoff is not reported. -/
def similarityWithArgs (left right : Text) (scoreCutoff : ℚ) : Option ℚ :=
  if scoreCutoff ≤ jaroWinkler left right then some (jaroWinkler left right) else none

/-- The score of a candidate name, when it passes all filters. -/
def scoreName (index : NameIndex) (seedName candidateName : NameValueId) (threshold : ℚ) :
    Option ℚ :=
  let left := index.characters.row seedName
  let right := index.characters.row candidateName
  let thresholdPct := threshold * 100
  if scale.lengthsCanReach left.length right.length thresholdPct then
    let required :=
      scale.minimumMultisetOverlap left.length right.length thresholdPct
    if Names.multisetOverlapAtLeast (index.sortedCharacters.row seedName)
        (index.sortedCharacters.row candidateName) required then
      if candidateName = seedName then
        some 1
      else
        similarityWithArgs left right threshold
    else
      none
  else
    none

def nameHit (catalog : ContractCatalog) (features : NameFeatureStore) (seed : SeedRawQuery)
    (seedName candidateName : NameValueId) (score threshold : ℚ) (contractId : ContractId) :
    DedupHit where
  seedId := seed.seedId
  seedContract := seed.contractId
  candidateContract := contractId
  dimension := .name
  selection := .allInContract (catalog.key contractId) (catalog.record contractId).nftCount
  evidence := .name (features.text seedName) (features.text candidateName) score threshold

def visitNameShard (catalog : ContractCatalog) (features : NameFeatureStore)
    (index : NameIndex) (seed : SeedRawQuery) (shard : Nat) (threshold : ℚ)
    (query : PreparedNameQuery) : List DedupHit :=
  match seed.nameValue with
  | none => []
  | some seedName =>
      (index.candidates shard query).flatMap fun candidateName =>
        match scoreName index seedName candidateName threshold with
        | none => []
        | some score =>
            ((index.members.row candidateName).filter (· ≠ seed.contractId)).map
              (nameHit catalog features seed seedName candidateName score threshold)

def queryNameShard (catalog : ContractCatalog) (features : NameFeatureStore)
    (index : NameIndex) (seed : SeedRawQuery) (shard : Nat) (threshold : ℚ) :
    List DedupHit :=
  match seed.nameValue with
  | none => []
  | some seedName =>
      visitNameShard catalog features index seed shard threshold
        (index.prepareQuery seedName threshold)

def SimilarNames (left right : Text) (threshold : ℚ) : Prop :=
  left = right ∨ threshold ≤ jaroWinkler left right

def NameCandidate (features : NameFeatureStore) (seed : SeedRawQuery) (threshold : ℚ)
    (contract : ContractId) : Prop :=
  contract ≠ seed.contractId ∧ ∃ seedName ∈ seed.nameValue, ∃ name,
    features.contractNames[contract]? = some (some name) ∧
      SimilarNames (features.text seedName) (features.text name) threshold

variable {threshold : ℚ} {right left : Text}

theorem similarNames_iff (limited : threshold ≤ 1) :
    SimilarNames left right threshold ↔ threshold ≤ jaroWinkler left right := by
  refine or_iff_right_of_imp fun same => ?_
  rw [same, jaroWinkler_self]
  exact limited

theorem filters_of_similar (limited : threshold ≤ 1) (similar : threshold ≤ jaroWinkler left right)
    :
    scale.lengthsCanReach left.length right.length (threshold * 100) = true ∧
      scale.minimumMultisetOverlap left.length right.length (threshold * 100) ≤
        multisetOverlap left right := by
  apply scale.lossless
  · change threshold * 100 ≤ 100
    linarith
  · rw [Names.BoundScale.reachesThreshold, Bool.or_eq_true, decide_eq_true_eq]
    refine .inl ?_
    change threshold * 100 ≤ jaroWinkler left right * 100
    linarith

variable {contract : ContractId}

section Built

variable {features : NameFeatureStore} {seedNames : List NameValueId} {shardCount : Nat}

theorem sortedOverlap_iff (seedName candidateName : NameValueId) (required : Nat) :
    Names.multisetOverlapAtLeast
        ((build features seedNames shardCount).sortedCharacters.row seedName)
        ((build features seedNames shardCount).sortedCharacters.row candidateName)
        required = true ↔
      required ≤ multisetOverlap (features.text seedName) (features.text candidateName) := by
  have sameOverlap : multisetOverlap ((features.text seedName).insertionSort (· ≤ ·))
      ((features.text candidateName).insertionSort (· ≤ ·)) =
        multisetOverlap (features.text seedName) (features.text candidateName) := by
    have left := Multiset.coe_eq_coe.mpr
      (perm_insertionSort (· ≤ ·) (features.text seedName))
    have right := Multiset.coe_eq_coe.mpr
      (perm_insertionSort (· ≤ ·) (features.text candidateName))
    rw [multisetOverlap, left, right, multisetOverlap]
  rw [NameIndex.sortedCharacters_build, NameIndex.sortedCharacters_build,
    Names.multisetOverlapAtLeast_iff (pairwise_insertionSort _ _)
      (pairwise_insertionSort _ _), sameOverlap]

/-- The similarity itself decides, and the filters change nothing. -/
theorem scoreName_build (seedName candidateName : NameValueId) (limited : threshold ≤ 1) :
    scoreName (build features seedNames shardCount) seedName candidateName threshold =
      similarityWithArgs (features.text seedName) (features.text candidateName) threshold := by
  have sameScore : (if candidateName = seedName then some 1 else
      similarityWithArgs (features.text seedName) (features.text candidateName) threshold) =
        similarityWithArgs (features.text seedName) (features.text candidateName) threshold := by
    split
    · next same =>
        rw [same, similarityWithArgs, jaroWinkler_self, if_pos limited]
    · rfl
  unfold scoreName
  rw [NameIndex.characters_build, NameIndex.characters_build]
  dsimp only
  rw [sameScore]
  by_cases similar : threshold ≤ jaroWinkler (features.text seedName)
      (features.text candidateName)
  · have filters := filters_of_similar limited similar
    rw [if_pos filters.1, if_pos ((sortedOverlap_iff _ _ _).mpr filters.2)]
  · rw [similarityWithArgs, if_neg similar, ite_self, ite_self]

variable {seedName : NameValueId}

theorem queryNameShard_eq (catalog : ContractCatalog) (seed : SeedRawQuery) (shard : Nat)
    (limited : threshold ≤ 1) (named : seed.nameValue = some seedName) :
    queryNameShard catalog features (build features seedNames shardCount) seed shard
        threshold =
      (((build features seedNames shardCount).candidates shard
        ((build features seedNames shardCount).prepareQuery seedName threshold)).filter
          fun name => decide (threshold ≤
            jaroWinkler (features.text seedName) (features.text name))).flatMap fun name =>
        (((build features seedNames shardCount).members.row name).filter
          (· ≠ seed.contractId)).map
            (nameHit catalog features seed seedName name
              (jaroWinkler (features.text seedName) (features.text name)) threshold) := by
  rw [queryNameShard, named]
  dsimp only
  rw [visitNameShard, named]
  dsimp only
  generalize (build features seedNames shardCount).candidates shard _ = names
  induction names with
  | nil => rfl
  | cons name names induction =>
      rw [flatMap_cons, induction, scoreName_build seedName name limited, similarityWithArgs,
        filter_cons]
      by_cases similar : threshold ≤ jaroWinkler (features.text seedName) (features.text name)
      · rw [if_pos similar, if_pos (decide_eq_true similar), flatMap_cons]
      · rw [if_neg similar, if_neg (by rwa [decide_eq_true_eq]), nil_append]

variable {shard : Nat}

/-- The contracts of a shard, name by name. -/
theorem map_queryNameShard (catalog : ContractCatalog) (seed : SeedRawQuery)
    (inside : shard < shardCount) (limited : threshold ≤ 1) (named : seed.nameValue = some seedName)
    :
    (queryNameShard catalog features (build features seedNames shardCount) seed shard
        threshold).map DedupHit.candidateContract =
      (((build features seedNames shardCount).candidates shard
        ((build features seedNames shardCount).prepareQuery seedName threshold)).filter
          fun name => decide (threshold ≤
            jaroWinkler (features.text seedName) (features.text name))).flatMap fun name =>
        (NameIndex.memberRow features name).filter (· ≠ seed.contractId) := by
  rw [queryNameShard_eq catalog seed shard limited named, map_flatMap]
  refine flatMap_congr fun name member => ?_
  have inShard := NameIndex.mem_shardNames_of_candidate inside (mem_of_mem_filter member)
  rw [NameIndex.members_build (NameIndex.mem_shardNames.mp inShard).1, map_map]
  exact map_id _

variable {catalog : ContractCatalog} {seed : SeedRawQuery}

theorem mem_queryNameShard (inside : shard < shardCount) (limited : threshold ≤ 1)
    (named : seed.nameValue = some seedName) :
    contract ∈ (queryNameShard catalog features (build features seedNames shardCount)
        seed shard threshold).map DedupHit.candidateContract ↔
      contract ≠ seed.contractId ∧ ∃ name,
        features.contractNames[contract]? = some (some name) ∧
          ownerShard name shardCount = shard ∧
            SimilarNames (features.text seedName) (features.text name) threshold := by
  rw [map_queryNameShard catalog seed inside limited named, mem_flatMap]
  simp only [mem_filter, decide_eq_true_eq, NameIndex.mem_memberRow,
    similarNames_iff limited]
  constructor
  · intro found
    rcases found with ⟨name, ⟨candidate, similar⟩, ofContract, other⟩
    have inShard := NameIndex.mem_shardNames_of_candidate inside candidate
    exact ⟨other, name, ofContract, (NameIndex.mem_shardNames.mp inShard).2, similar⟩
  · intro found
    rcases found with ⟨other, name, ofContract, owned, similar⟩
    have interned : name < features.values.length :=
      features.interned (some name) (mem_of_getElem? ofContract) name rfl
    have filters := filters_of_similar limited similar
    have percent : min (threshold * 100) 100 = threshold * 100 := min_eq_left (by linarith)
    refine ⟨name, ⟨?_, similar⟩, ofContract, other⟩
    rw [← owned]
    apply NameIndex.mem_candidates_of_similar interned (Nat.zero_lt_of_lt inside)
    · rw [percent]
      exact filters.1
    · rw [percent]
      exact filters.2

theorem nodup_queryNameShard (inside : shard < shardCount) (limited : threshold ≤ 1) :
    ((queryNameShard catalog features (build features seedNames shardCount)
      seed shard threshold).map DedupHit.candidateContract).Nodup := by
  cases named : seed.nameValue with
  | none =>
      rw [queryNameShard, named]
      exact nodup_nil
  | some seedName =>
      rw [map_queryNameShard catalog seed inside limited named, nodup_flatMap]
      constructor
      · exact fun name _ => (NameIndex.nodup_memberRow name).filter _
      · refine ((NameIndex.nodup_candidates inside _).filter _).imp fun different => ?_
        rw [Function.onFun, disjoint_left]
        intro contract ofLeft ofRight
        have left := NameIndex.mem_memberRow.mp (mem_of_mem_filter ofLeft)
        have right := NameIndex.mem_memberRow.mp (mem_of_mem_filter ofRight)
        rw [left] at right
        exact different (Option.some.inj (Option.some.inj right))

end Built

def queryNames (catalog : ContractCatalog) (features : NameFeatureStore) (index : NameIndex)
    (seed : SeedRawQuery) (shardCount : Nat) (threshold : ℚ) : List DedupHit :=
  (List.range shardCount).flatMap fun shard =>
    queryNameShard catalog features index seed shard threshold

section Shards

variable {catalog : ContractCatalog} {features : NameFeatureStore}
  {seedNames : List NameValueId} {seed : SeedRawQuery} {shardCount : Nat} {threshold : ℚ}

theorem queryNames_of_unnamed (index : NameIndex) (unnamed : seed.nameValue = none) :
    queryNames catalog features index seed shardCount threshold = [] := by
  refine flatMap_eq_nil_iff.mpr fun shard _ => ?_
  rw [queryNameShard, unnamed]

/-- The names of two shards differ, and so do their contracts. -/
theorem nodup_queryNames (limited : threshold ≤ 1) :
    ((queryNames catalog features (build features seedNames shardCount) seed
      shardCount threshold).map DedupHit.candidateContract).Nodup := by
  cases named : seed.nameValue with
  | none =>
      rw [queryNames_of_unnamed _ named]
      exact nodup_nil
  | some seedName =>
      rw [queryNames, map_flatMap, nodup_flatMap]
      constructor
      · exact fun shard member => nodup_queryNameShard (mem_range.mp member) limited
      · have shards : (List.range shardCount).Pairwise fun left right =>
            left < shardCount ∧ right < shardCount ∧ left ≠ right :=
          nodup_range.pairwise_of_forall_ne fun left leftMember right rightMember other =>
            ⟨mem_range.mp leftMember, mem_range.mp rightMember, other⟩
        refine shards.imp fun apart => ?_
        rw [Function.onFun, disjoint_left]
        intro contract ofLeft ofRight
        rcases (mem_queryNameShard apart.1 limited named).mp ofLeft with
          ⟨_, name, ofContract, owned, _⟩
        rcases (mem_queryNameShard apart.2.1 limited named).mp ofRight with
          ⟨_, otherName, ofOther, otherOwned, _⟩
        rw [ofContract] at ofOther
        rw [Option.some.inj (Option.some.inj ofOther)] at owned
        exact apart.2.2 (owned.symm.trans otherOwned)

theorem mem_queryNames (positive : 0 < shardCount) (limited : threshold ≤ 1) :
    contract ∈ (queryNames catalog features (build features seedNames shardCount) seed
        shardCount threshold).map DedupHit.candidateContract ↔
      NameCandidate features seed threshold contract := by
  cases named : seed.nameValue with
  | none =>
      rw [queryNames_of_unnamed _ named, NameCandidate, named]
      refine iff_of_false not_mem_nil fun candidate => ?_
      rcases candidate.2 with ⟨_, none, _⟩
      cases none
  | some seedName =>
      rw [queryNames, map_flatMap, mem_flatMap, NameCandidate, named]
      constructor
      · intro found
        rcases found with ⟨shard, member, emitted⟩
        rcases (mem_queryNameShard (mem_range.mp member) limited named).mp emitted with
          ⟨other, name, ofContract, _, similar⟩
        exact ⟨other, seedName, rfl, name, ofContract, similar⟩
      · intro candidate
        rcases candidate with ⟨other, known, same, name, ofContract, similar⟩
        cases same
        have inside := ownerShard_lt name positive
        exact ⟨_, mem_range.mpr inside,
          (mem_queryNameShard inside limited named).mpr ⟨other, name, ofContract, rfl, similar⟩⟩

end Shards

/-- The shards together emit each contract with a name like that of the seed once, and no
other contract. -/
theorem sharded_name_query (catalog : ContractCatalog) (features : NameFeatureStore)
    (seedNames : List NameValueId) (seed : SeedRawQuery) {shardCount : Nat}
    (positive : 0 < shardCount) {threshold : ℚ} (limited : threshold ≤ 1) :
    let emitted := (queryNames catalog features (build features seedNames shardCount)
      seed shardCount threshold).map DedupHit.candidateContract
    emitted.Nodup ∧
      ∀ contract, contract ∈ emitted ↔ NameCandidate features seed threshold contract :=
  ⟨nodup_queryNames limited, fun _ => mem_queryNames positive limited⟩

def smallNames : NameFeatureStore where
  values := ["kitten".toList, "kittens".toList, "dog".toList]
  contractNames := [some 0, some 1, some 2]
  interned := by decide

def smallSeed : SeedRawQuery := ⟨0, 0, some 0, none, []⟩

theorem sharded_name_query_small :
    (1 ∈ (queryNames ⟨[]⟩ smallNames (build smallNames [0] 4) smallSeed 4
        (9 / 10)).map DedupHit.candidateContract) ∧
      2 ∉ (queryNames ⟨[]⟩ smallNames (build smallNames [0] 4) smallSeed 4
        (9 / 10)).map DedupHit.candidateContract := by
  have exact := (sharded_name_query ⟨[]⟩ smallNames [0] smallSeed (by decide : 0 < 4)
    (by norm_num : (9 / 10 : ℚ) ≤ 1)).2
  constructor
  · refine (exact 1).mpr ⟨by decide, 0, rfl, 1, rfl, .inr ?_⟩
    decide +kernel
  · intro emitted
    rcases ((exact 2).mp emitted).2 with ⟨seedName, seedNamed, name, named, similar⟩
    cases seedNamed
    cases named
    rcases similar with same | near
    · exact absurd same (by decide)
    · exact absurd near (by decide +kernel)

end NftData.Analysis
