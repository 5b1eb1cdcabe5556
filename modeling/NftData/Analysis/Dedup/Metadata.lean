import NftData.Analysis.Resident.MetadataIndex

namespace NftData.Analysis

/-! # Metadata query

Two contracts are compared by one document of each: those of the last token that both have an
anchor for, or else those of their last anchors. A first wave finds identical documents, and a
second one similar documents. Profiles stand for all their contracts. -/

open List
open MetadataIndex (analyzeDocument_summarizes emptyDocument interned_of_mem mem_postings mem_probe mem_profilesByShard prepareQuery profilesByShard prunePostings seedTerms)

/-- Leading zeros do not count in the token ids of EVM chains. -/
def tokenMatchKey (chain : ChainId) (token : Text) : Text :=
  if chain.isEvm then
    let trimmed := token.dropWhile (· = '0')
    if trimmed = [] then ['0'] else trimmed
  else
    token

/-- The first anchor of the right with the token of a left anchor. -/
def findAnchor (features : MetadataFeatureStore) (leftChain rightChain : ChainId)
    (right : List MetadataAnchor) (leftAnchor : MetadataAnchor) : Option MetadataAnchor :=
  right.find? fun rightAnchor =>
    tokenMatchKey leftChain (features.token leftAnchor) =
      tokenMatchKey rightChain (features.token rightAnchor)

/-- The last left anchor with a token of the right, or else both last anchors. -/
def selectAnchors (features : MetadataFeatureStore) (left : List MetadataAnchor)
    (leftChain : ChainId) (right : List MetadataAnchor) (rightChain : ChainId) :
    Option (MetadataAnchor × MetadataAnchor) :=
  let selected := left.foldl (fun selected leftAnchor =>
    match findAnchor features leftChain rightChain right leftAnchor with
    | some rightAnchor => some (leftAnchor, rightAnchor)
    | none => selected) none
  match selected with
  | some pair => some pair
  | none => left.getLast?.bind fun leftLast => right.getLast?.map fun rightLast =>
      (leftLast, rightLast)

/-! ## Waves -/

inductive MetadataWave where
  | exact
  | bm25
  deriving DecidableEq, Repr

structure MetadataHit where
  seedId : SeedId
  seedContract : ContractId
  candidateContract : ContractId
  selection : NftSelection
  seedToken : Text
  candidateToken : Text
  seedDigest : Digest
  candidateDigest : Digest
  similarity : ℝ
  threshold : ℝ

/-- All that the query of a seed reads. -/
structure MetadataScoreContext where
  catalog : ContractCatalog
  features : MetadataFeatureStore
  index : MetadataIndex
  seed : SeedRawQuery
  slack : ℝ

namespace MetadataScoreContext

variable (context : MetadataScoreContext)

def prepared (anchor : MetadataAnchor) : PreparedDocument :=
  context.index.documents.getD anchor.metadataId emptyDocument

def chain (contract : ContractId) : ChainId := (context.catalog.record contract).chain

/-- The anchors of the seed and of a profile that are compared. A profile is on the chain of its
first contract. -/
def profileAnchors (seedProfile profile : ProfileId) :
    Option (MetadataAnchor × MetadataAnchor) :=
  selectAnchors context.features (context.features.profileAnchors seedProfile)
    (context.chain context.seed.contractId) (context.features.profileAnchors profile)
    (context.chain ((context.features.profileMembers profile).headD 0))

def identical (anchors : MetadataAnchor × MetadataAnchor) : Bool :=
  (context.prepared anchors.1).digest = (context.prepared anchors.2).digest &&
    context.features.document anchors.1 = context.features.document anchors.2

noncomputable section

def verdict (threshold : ℝ) (wave : MetadataWave)
    (anchors : MetadataAnchor × MetadataAnchor) : Bool × ℝ :=
  match wave with
  | .exact => (context.identical anchors, 1)
  | .bm25 =>
      if context.identical anchors then
        (false, 1)
      else
        bm25Cosine context.slack (context.prepared anchors.1) (context.prepared anchors.2)
          threshold

def hit (threshold : ℝ) (anchors : MetadataAnchor × MetadataAnchor) (score : ℝ)
    (contract : ContractId) : MetadataHit where
  seedId := context.seed.seedId
  seedContract := context.seed.contractId
  candidateContract := contract
  selection := .allInContract (context.catalog.key contract)
    (context.catalog.record contract).nftCount
  seedToken := context.features.token anchors.1
  candidateToken := context.features.token anchors.2
  seedDigest := (context.prepared anchors.1).digest
  candidateDigest := (context.prepared anchors.2).digest
  similarity := score
  threshold := threshold

def scoreMetadataCandidates (seedProfile : ProfileId) (threshold : ℝ) (wave : MetadataWave)
    (candidates : List ProfileId) : List MetadataHit :=
  candidates.flatMap fun profile =>
    let members := context.features.profileMembers profile
    if members.all (· = context.seed.contractId) then
      []
    else
      match context.profileAnchors seedProfile profile with
      | none => []
      | some anchors =>
          let (matched, score) := context.verdict threshold wave anchors
          if matched then
            (members.filter (· ≠ context.seed.contractId)).map
              (context.hit threshold anchors score)
          else
            []

def shardIndex (shard : Nat) : MetadataShardIndex :=
  context.index.shards.getD shard ⟨[], fun _ => [], fun _ => [], fun _ => []⟩

def distinctCandidates (found : List ProfileId) : List ProfileId :=
  (pushKeys [] found).insertionSort (· ≤ ·)

def exactCandidates (shard : Nat) (prepared : PreparedMetadataQuery) : List ProfileId :=
  distinctCandidates (prepared.exactDigests.flatMap (context.shardIndex shard).exactPostings)

def bm25Candidates (shard : Nat) (threshold : ℝ) (prepared : PreparedMetadataQuery) :
    List ProfileId :=
  if threshold ≤ 0 then
    (context.shardIndex shard).profiles.insertionSort (· ≤ ·)
  else
    distinctCandidates <|
      prepared.tokenTermProbes.flatMap (context.shardIndex shard).tokenTermPostings ++
        prepared.termProbes.flatMap (context.shardIndex shard).termPostings

def visitMetadataExactShard (shard : Nat) (prepared : PreparedMetadataQuery) :
    List MetadataHit :=
  match context.seed.metadataProfile with
  | none => []
  | some seedProfile =>
      context.scoreMetadataCandidates seedProfile 1 .exact
        (context.exactCandidates shard prepared)

def visitMetadataBm25Shard (shard : Nat) (threshold : ℝ) (prepared : PreparedMetadataQuery) :
    List MetadataHit :=
  match context.seed.metadataProfile with
  | none => []
  | some seedProfile =>
      context.scoreMetadataCandidates seedProfile threshold .bm25
        (context.bm25Candidates shard threshold prepared)

def emitted (shardCount : Nat) (threshold : ℝ) : List ContractId :=
  let prepared := context.index.prepareQuery context.features context.seed.metadataProfile
  ((List.range shardCount).flatMap fun shard =>
      context.visitMetadataExactShard shard prepared).map MetadataHit.candidateContract ++
    ((List.range shardCount).flatMap fun shard =>
      context.visitMetadataBm25Shard shard threshold prepared).map MetadataHit.candidateContract

end

/-! ## Candidates -/

variable {features : MetadataFeatureStore}

theorem selectAnchors_mem {left right : List MetadataAnchor} {leftChain rightChain : ChainId}
    {anchors : MetadataAnchor × MetadataAnchor}
    (selected : selectAnchors features left leftChain right rightChain = some anchors) :
    anchors.1 ∈ left ∧ anchors.2 ∈ right := by
  have common : ∀ (start : Option (MetadataAnchor × MetadataAnchor)) (rest : List MetadataAnchor),
      (∀ anchor ∈ rest, anchor ∈ left) →
      (∀ pair ∈ start, pair.1 ∈ left ∧ pair.2 ∈ right) →
      ∀ pair ∈ rest.foldl (fun selected leftAnchor =>
        match findAnchor features leftChain rightChain right leftAnchor with
        | some rightAnchor => some (leftAnchor, rightAnchor)
        | none => selected) start, pair.1 ∈ left ∧ pair.2 ∈ right := by
    intro start rest
    induction rest generalizing start with
    | nil => exact fun _ known => known
    | cons anchor rest induction =>
        intro inside known
        refine induction _ (fun other member => inside other (mem_cons_of_mem _ member)) ?_
        dsimp only
        cases found : findAnchor features leftChain rightChain right anchor with
        | none => exact known
        | some rightAnchor =>
            intro pair isPair
            cases isPair
            exact ⟨inside anchor mem_cons_self, List.mem_of_find?_eq_some found⟩
  unfold selectAnchors at selected
  dsimp only at selected
  split at selected
  · next pair isPair =>
      cases selected
      exact common none left (fun _ member => member) (fun _ none => nomatch none) _ isPair
  · rcases Option.bind_eq_some_iff.mp selected with ⟨leftLast, isLeft, rest⟩
    rcases Option.map_eq_some_iff.mp rest with ⟨rightLast, isRight, isPair⟩
    rw [← isPair]
    exact ⟨List.mem_of_getLast? isLeft, List.mem_of_getLast? isRight⟩

variable {profile : ProfileId} {contract : ContractId}

theorem mem_profileMembers :
    contract ∈ features.profileMembers profile ↔
      features.contractProfiles[contract]? = some (some profile) := by
  rw [MetadataFeatureStore.profileMembers]
  cases found : features.profiles[profile]? with
  | none =>
      refine iff_of_false not_mem_nil fun known => ?_
      have inside := features.profilesKnown contract profile known
      rw [List.getElem?_eq_getElem inside] at found
      cases found
  | some record => exact features.profileOfMember profile record found contract

theorem nodup_profileMembers (features : MetadataFeatureStore) (profile : ProfileId) :
    (features.profileMembers profile).Nodup := by
  rw [MetadataFeatureStore.profileMembers]
  cases found : features.profiles[profile]? with
  | none => exact nodup_nil
  | some record => exact features.membersNodup record (mem_of_getElem? found)

noncomputable def matchedContracts (seedProfile : ProfileId) (threshold : ℝ)
    (wave : MetadataWave) (profile : ProfileId) : List ContractId :=
  match context.profileAnchors seedProfile profile with
  | none => []
  | some anchors =>
      if (context.verdict threshold wave anchors).1 then
        (context.features.profileMembers profile).filter (· ≠ context.seed.contractId)
      else
        []

variable {context} {seedProfile : ProfileId} {threshold : ℝ} {wave : MetadataWave}
  {candidates : List ProfileId}

theorem mem_matchedContracts :
    contract ∈ context.matchedContracts seedProfile threshold wave profile ↔
      contract ≠ context.seed.contractId ∧
        context.features.contractProfiles[contract]? = some (some profile) ∧
          ∃ anchors, context.profileAnchors seedProfile profile = some anchors ∧
            (context.verdict threshold wave anchors).1 = true := by
  unfold matchedContracts
  cases selected : context.profileAnchors seedProfile profile with
  | none =>
      refine iff_of_false not_mem_nil fun known => ?_
      rcases known.2.2 with ⟨_, none, _⟩
      cases none
  | some anchors =>
      dsimp only
      split
      · next matched =>
          rw [mem_filter, decide_eq_true_eq, mem_profileMembers]
          exact ⟨fun known => ⟨known.2, known.1, anchors, rfl, matched⟩,
            fun known => ⟨known.2.1, known.1⟩⟩
      · next different =>
          refine iff_of_false not_mem_nil fun known => ?_
          rcases known.2.2 with ⟨others, same, matched⟩
          cases same
          exact different matched

theorem nodup_matchedContracts (profile : ProfileId) :
    (context.matchedContracts seedProfile threshold wave profile).Nodup := by
  unfold matchedContracts
  split
  · exact nodup_nil
  · split
    · exact (nodup_profileMembers _ _).filter _
    · exact nodup_nil

theorem map_scoreMetadataCandidates :
    (context.scoreMetadataCandidates seedProfile threshold wave candidates).map
        MetadataHit.candidateContract =
      candidates.flatMap (context.matchedContracts seedProfile threshold wave) := by
  rw [scoreMetadataCandidates, map_flatMap]
  refine flatMap_congr fun profile _ => ?_
  rw [matchedContracts]
  dsimp only
  split
  · next own =>
      have none : (context.features.profileMembers profile).filter
          (· ≠ context.seed.contractId) = [] := by
        rw [filter_eq_nil_iff]
        intro contract member other
        exact of_decide_eq_true other (of_decide_eq_true (all_eq_true.mp own contract member))
      cases context.profileAnchors seedProfile profile with
      | none => rfl
      | some anchors =>
          dsimp only
          rw [none, ite_self, map_nil]
  · cases context.profileAnchors seedProfile profile with
    | none => rfl
    | some anchors =>
        dsimp only
        split
        · rw [map_map]
          exact map_id _
        · rfl

theorem nodup_flatMap_matchedContracts (nodup : candidates.Nodup) :
    (candidates.flatMap (context.matchedContracts seedProfile threshold wave)).Nodup := by
  rw [nodup_flatMap]
  refine ⟨fun profile _ => nodup_matchedContracts profile, nodup.imp fun apart => ?_⟩
  rw [Function.onFun, disjoint_left]
  intro contract inLeft inRight
  have left := (mem_matchedContracts.mp inLeft).2.1
  rw [(mem_matchedContracts.mp inRight).2.1] at left
  exact apart (Option.some.inj (Option.some.inj left)).symm

theorem mem_distinctCandidates {found : List ProfileId} :
    profile ∈ distinctCandidates found ↔ profile ∈ found := by
  rw [distinctCandidates, mem_insertionSort, mem_pushKeys]
  exact or_iff_right not_mem_nil

theorem nodup_distinctCandidates (found : List ProfileId) : (distinctCandidates found).Nodup :=
  (perm_insertionSort _ _).nodup_iff.mpr (nodup_pushKeys found nodup_nil)

end MetadataScoreContext

/-! ## Built index -/

def metadataDocuments (features : MetadataFeatureStore) : Option ProfileId → List MetadataId
  | none => []
  | some profile => (features.profileAnchors profile).map MetadataAnchor.metadataId

def metadataContext (analysis : TextAnalysis) (catalog : ContractCatalog)
    (features : MetadataFeatureStore) (seeds : List SeedRawQuery) (shardCount : Nat)
    (seed : SeedRawQuery) (slack : ℝ) : MetadataScoreContext where
  catalog := catalog
  features := features
  index := .build analysis features (seeds.flatMap SeedRawQuery.metadataDocuments) shardCount
  seed := seed
  slack := slack

namespace MetadataScoreContext

variable {contract : ContractId} {anchors : MetadataAnchor × MetadataAnchor} {profile : ProfileId}

section Built

variable {analysis : TextAnalysis} {catalog : ContractCatalog} {features : MetadataFeatureStore}
  {seeds : List SeedRawQuery} {shardCount : Nat} {seed : SeedRawQuery} {slack : ℝ} {seedProfile :
  ProfileId} {threshold : ℝ} {anchor : MetadataAnchor}

theorem prepared_metadataContext (interned : anchor.metadataId < features.documents.length) :
    (metadataContext analysis catalog features seeds shardCount seed slack).prepared anchor =
      MetadataIndex.analyzeDocument analysis
        (seedTerms analysis features
          (seeds.flatMap SeedRawQuery.metadataDocuments)) (features.document anchor) :=
  MetadataIndex.documents_build interned

theorem identical_metadataContext (left : anchors.1.metadataId < features.documents.length)
    (right : anchors.2.metadataId < features.documents.length) :
    (metadataContext analysis catalog features seeds shardCount seed slack).identical anchors =
        true ↔ features.document anchors.1 = features.document anchors.2 := by
  rw [identical, prepared_metadataContext left, prepared_metadataContext right,
    Bool.and_eq_true, decide_eq_true_eq, decide_eq_true_eq]
  exact and_iff_right_of_imp fun same => congrArg analysis.digest same

/-- The seed is one of those the index was built for. -/
structure SeedPlanned (features : MetadataFeatureStore) (seeds : List SeedRawQuery)
    (seed : SeedRawQuery) (seedProfile : ProfileId) : Prop where
  member : seed ∈ seeds
  profile : seed.metadataProfile = some seedProfile
  documents : seed.metadataDocuments = metadataDocuments features seed.metadataProfile

theorem SeedPlanned.mem_documents (planned : SeedPlanned features seeds seed seedProfile)
    (member : anchor ∈ features.profileAnchors seedProfile) :
    anchor.metadataId ∈ seeds.flatMap SeedRawQuery.metadataDocuments := by
  refine mem_flatMap.mpr ⟨seed, planned.member, ?_⟩
  rw [planned.documents, planned.profile]
  exact mem_map_of_mem member

/-- The second wave leaves identical documents to the first. -/
theorem verdict_bm25_iff (planned : SeedPlanned features seeds seed seedProfile)
    (left : anchors.1 ∈ features.profileAnchors seedProfile)
    (right : anchors.2.metadataId < features.documents.length) :
    ((metadataContext analysis catalog features seeds shardCount seed slack).verdict threshold
        .bm25 anchors).1 = true ↔
      features.document anchors.1 ≠ features.document anchors.2 ∧
        SimilarTerms slack threshold (tokenize analysis (features.document anchors.1))
          (tokenize analysis (features.document anchors.2)) := by
  have interned := interned_of_mem left
  rw [verdict]
  split
  · next same =>
      rw [identical_metadataContext interned right] at same
      exact iff_of_false Bool.false_ne_true fun similar => similar.1 same
  · next different =>
      rw [identical_metadataContext interned right] at different
      have known : ∀ term ∈ tokenize analysis (features.document anchors.1),
          term ∈ seedTerms analysis features
            (seeds.flatMap SeedRawQuery.metadataDocuments) :=
        fun term => MetadataIndex.mem_seedTerms (planned.mem_documents left)
      rw [prepared_metadataContext interned, prepared_metadataContext right]
      refine (bm25Cosine_iff (analyzeDocument_summarizes _ _)
        (analyzeDocument_summarizes _ _) known slack threshold).trans ?_
      exact (and_iff_right different).symm

variable {shard : Nat}

theorem shardIndex_metadataContext (inside : shard < shardCount) :
    let context := metadataContext analysis catalog features seeds shardCount seed slack
    let raw := MetadataIndex.rawShards analysis features
      (seeds.flatMap SeedRawQuery.metadataDocuments) shardCount
    let unpruned := MetadataIndex.buildMetadataShard
      (profilesByShard features shardCount shard) features context.index.documents
        ((seeds.flatMap SeedRawQuery.metadataDocuments).map fun document =>
          (context.index.documents.getD document emptyDocument).digest)
    context.shardIndex shard =
      { unpruned with
        termPostings := prunePostings
          (raw.map MetadataShardIndex.termPostings) unpruned.termPostings
        tokenTermPostings := prunePostings
          (raw.map MetadataShardIndex.tokenTermPostings) unpruned.tokenTermPostings } :=
  MetadataIndex.shards_build inside _

theorem mem_exactCandidates (planned : SeedPlanned features seeds seed seedProfile)
    (inside : shard < shardCount) :
    let context := metadataContext analysis catalog features seeds shardCount seed slack
    profile ∈ context.exactCandidates shard
        (context.index.prepareQuery features (some seedProfile)) ↔
      profile ∈ profilesByShard features shardCount shard ∧
        ∃ left ∈ features.profileAnchors seedProfile, ∃ right ∈ features.profileAnchors profile,
          (context.prepared left).digest = (context.prepared right).digest := by
  dsimp only
  rw [exactCandidates, mem_distinctCandidates, shardIndex_metadataContext inside,
    mem_flatMap]
  constructor
  · intro found
    rcases found with ⟨digest, probed, posted⟩
    rw [prepareQuery, mem_sortDedup] at probed
    rcases mem_map.mp probed with ⟨left, leftMember, isLeft⟩
    rcases mem_postings.mp posted with ⟨inShard, ofProfile⟩
    rcases mem_map.mp (mem_of_mem_filter ofProfile) with ⟨right, rightMember, isRight⟩
    exact ⟨inShard, left, leftMember, right, rightMember, isLeft.trans isRight.symm⟩
  · intro known
    rcases known with ⟨inShard, left, leftMember, right, rightMember, same⟩
    refine ⟨((metadataContext analysis catalog features seeds shardCount seed slack).prepared
      left).digest, ?_, mem_postings.mpr ⟨inShard, ?_⟩⟩
    · rw [prepareQuery, mem_sortDedup]
      exact mem_map_of_mem leftMember
    · rw [mem_filter, decide_eq_true_eq]
      refine ⟨mem_map.mpr ⟨right, rightMember, same.symm⟩, ?_⟩
      exact mem_map.mpr ⟨left.metadataId, planned.mem_documents leftMember, rfl⟩

theorem mem_bm25Candidates (planned : SeedPlanned features seeds seed seedProfile)
    (positive : 0 < shardCount) (shard : Nat) (inside : shard < shardCount) :
    let context := metadataContext analysis catalog features seeds shardCount seed slack
    let prepared := context.index.prepareQuery features (some seedProfile)
    profile ∈ distinctCandidates
        (prepared.tokenTermProbes.flatMap (context.shardIndex shard).tokenTermPostings ++
          prepared.termProbes.flatMap (context.shardIndex shard).termPostings) ↔
      profile ∈ profilesByShard features shardCount shard ∧
        MetadataIndex.Reached analysis features seedProfile profile := by
  dsimp only
  rw [mem_distinctCandidates, shardIndex_metadataContext inside, mem_append,
    MetadataIndex.tokenTermPostings_rawShards, MetadataIndex.termPostings_rawShards,
    prepareQuery]
  dsimp only [metadataContext]
  rw [MetadataIndex.tokenTermRarity_build, MetadataIndex.termRarity_build]
  refine (or_congr (mem_probe positive)
    (mem_probe positive)).trans ?_
  rw [← and_or_left]
  exact and_congr_right fun _ =>
    MetadataIndex.exists_key_iff fun anchor member => planned.mem_documents member

/-! ## All shards -/

theorem mem_profilesByShard_owner
    (ofContract : features.contractProfiles[contract]? = some (some profile)) :
    profile ∈ profilesByShard features shardCount
      (ownerShard profile shardCount) :=
  mem_profilesByShard.mpr ⟨features.profilesKnown contract profile ofContract, rfl⟩

variable {wave : MetadataWave}

/-- The contracts that a wave emits over all shards, when each shard finds some of its
profiles. -/
theorem mem_wave (positive : 0 < shardCount) (candidates : Nat → List ProfileId)
    (found : ProfileId → Prop)
    (exact : ∀ shard < shardCount, ∀ profile, profile ∈ candidates shard ↔
      profile ∈ profilesByShard features shardCount shard ∧ found profile) :
    let context := metadataContext analysis catalog features seeds shardCount seed slack
    contract ∈ (List.range shardCount).flatMap (fun shard =>
        (candidates shard).flatMap (context.matchedContracts seedProfile threshold wave)) ↔
      ∃ profile, found profile ∧
        contract ∈ context.matchedContracts seedProfile threshold wave profile := by
  dsimp only
  rw [mem_flatMap]
  constructor
  · intro emitted
    rcases emitted with ⟨shard, inside, emitted⟩
    rcases mem_flatMap.mp emitted with ⟨profile, member, matched⟩
    rw [exact shard (mem_range.mp inside)] at member
    exact ⟨profile, member.2, matched⟩
  · intro known
    rcases known with ⟨profile, isFound, matched⟩
    have inside := ownerShard_lt profile positive
    refine ⟨ownerShard profile shardCount, mem_range.mpr inside,
      mem_flatMap.mpr ⟨profile, ?_, matched⟩⟩
    rw [exact _ inside]
    exact ⟨mem_profilesByShard_owner (mem_matchedContracts.mp matched).2.1, isFound⟩

theorem nodup_wave {candidates : Nat → List ProfileId}
    (nodup : ∀ shard < shardCount, (candidates shard).Nodup)
    (owned : ∀ shard < shardCount, ∀ profile ∈ candidates shard,
      profile ∈ profilesByShard features shardCount shard) :
    let context := metadataContext analysis catalog features seeds shardCount seed slack
    ((List.range shardCount).flatMap fun shard =>
      (candidates shard).flatMap
        (context.matchedContracts seedProfile threshold wave)).Nodup := by
  dsimp only
  rw [nodup_flatMap]
  refine ⟨fun shard member =>
    nodup_flatMap_matchedContracts (nodup shard (mem_range.mp member)), ?_⟩
  have shards : (List.range shardCount).Pairwise fun left right =>
      left < shardCount ∧ right < shardCount ∧ left ≠ right :=
    nodup_range.pairwise_of_forall_ne fun left leftMember right rightMember other =>
      ⟨mem_range.mp leftMember, mem_range.mp rightMember, other⟩
  refine shards.imp fun apart => ?_
  rw [Function.onFun, disjoint_left]
  intro contract inLeft inRight
  rcases mem_flatMap.mp inLeft with ⟨left, leftMember, leftMatched⟩
  rcases mem_flatMap.mp inRight with ⟨right, rightMember, rightMatched⟩
  have ofLeft := (mem_matchedContracts.mp leftMatched).2.1
  rw [(mem_matchedContracts.mp rightMatched).2.1] at ofLeft
  have leftShard := mem_profilesByShard.mp (owned _ apart.1 left leftMember)
  have rightShard := mem_profilesByShard.mp (owned _ apart.2.1 right rightMember)
  rw [← Option.some.inj (Option.some.inj ofLeft), rightShard.2] at leftShard
  exact apart.2.2 leftShard.2.symm

theorem mem_bm25Candidates_iff (planned : SeedPlanned features seeds seed seedProfile)
    (positive : 0 < shardCount) (shard : Nat) (inside : shard < shardCount)
    (profile : ProfileId) :
    let context := metadataContext analysis catalog features seeds shardCount seed slack
    profile ∈ context.bm25Candidates shard threshold
        (context.index.prepareQuery features (some seedProfile)) ↔
      profile ∈ profilesByShard features shardCount shard ∧
        (threshold ≤ 0 ∨ MetadataIndex.Reached analysis features seedProfile profile) := by
  dsimp only
  unfold bm25Candidates
  split
  · next low =>
      rw [mem_insertionSort, shardIndex_metadataContext inside]
      exact (and_iff_left (.inl low)).symm
  · next high =>
      rw [or_iff_right high]
      exact mem_bm25Candidates planned positive shard inside

theorem nodup_bm25Candidates (inside : shard < shardCount) (prepared : PreparedMetadataQuery) :
    ((metadataContext analysis catalog features seeds shardCount seed slack).bm25Candidates shard
      threshold prepared).Nodup := by
  unfold bm25Candidates
  split
  · rw [shardIndex_metadataContext inside]
    exact (perm_insertionSort _ _).nodup_iff.mpr (nodup_range.filter _)
  · exact nodup_distinctCandidates _

theorem exactWave_eq (planned : seed.metadataProfile = some seedProfile)
    (prepared : PreparedMetadataQuery) :
    let context := metadataContext analysis catalog features seeds shardCount seed slack
    ((List.range shardCount).flatMap fun shard =>
        context.visitMetadataExactShard shard prepared).map MetadataHit.candidateContract =
      (List.range shardCount).flatMap fun shard =>
        (context.exactCandidates shard prepared).flatMap
          (context.matchedContracts seedProfile 1 .exact) := by
  dsimp only
  rw [map_flatMap]
  refine flatMap_congr fun shard _ => ?_
  unfold visitMetadataExactShard
  dsimp only [metadataContext]
  rw [planned]
  exact map_scoreMetadataCandidates

theorem bm25Wave_eq (planned : seed.metadataProfile = some seedProfile)
    (prepared : PreparedMetadataQuery) :
    let context := metadataContext analysis catalog features seeds shardCount seed slack
    ((List.range shardCount).flatMap fun shard =>
        context.visitMetadataBm25Shard shard threshold prepared).map
          MetadataHit.candidateContract =
      (List.range shardCount).flatMap fun shard =>
        (context.bm25Candidates shard threshold prepared).flatMap
          (context.matchedContracts seedProfile threshold .bm25) := by
  dsimp only
  rw [map_flatMap]
  refine flatMap_congr fun shard _ => ?_
  unfold visitMetadataBm25Shard
  dsimp only [metadataContext]
  rw [planned]
  exact map_scoreMetadataCandidates

theorem profileAnchors_mem
    (selected : (metadataContext analysis catalog features seeds shardCount seed
      slack).profileAnchors seedProfile profile = some anchors) :
    anchors.1 ∈ features.profileAnchors seedProfile ∧
      anchors.2 ∈ features.profileAnchors profile := selectAnchors_mem selected

section

variable (planned : SeedPlanned features seeds seed seedProfile)
include planned

/-- The contracts that the first wave emits. -/
theorem mem_exactWave (positive : 0 < shardCount) :
    let context := metadataContext analysis catalog features seeds shardCount seed slack
    let prepared := context.index.prepareQuery features (some seedProfile)
    contract ∈ ((List.range shardCount).flatMap fun shard =>
        context.visitMetadataExactShard shard prepared).map MetadataHit.candidateContract ↔
      contract ≠ seed.contractId ∧ ∃ profile,
        features.contractProfiles[contract]? = some (some profile) ∧ ∃ anchors,
          context.profileAnchors seedProfile profile = some anchors ∧
            features.document anchors.1 = features.document anchors.2 := by
  dsimp only
  rw [exactWave_eq planned.profile]
  refine (mem_wave positive _ _ fun shard inside profile =>
    mem_exactCandidates planned inside).trans ?_
  simp only [mem_matchedContracts]
  constructor
  · intro found
    rcases found with ⟨profile, _, other, ofContract, anchors, selected, matched⟩
    have members := profileAnchors_mem selected
    refine ⟨other, profile, ofContract, anchors, selected, ?_⟩
    exact (identical_metadataContext (interned_of_mem members.1)
      (interned_of_mem members.2)).mp matched
  · intro found
    rcases found with ⟨other, profile, ofContract, anchors, selected, same⟩
    have members := profileAnchors_mem selected
    have left := interned_of_mem members.1
    have right := interned_of_mem members.2
    refine ⟨profile, ⟨anchors.1, members.1, anchors.2, members.2, ?_⟩, other, ofContract,
      anchors, selected, (identical_metadataContext left right).mpr same⟩
    rw [prepared_metadataContext left, prepared_metadataContext right, same]

/-- The contracts that the second wave emits. -/
theorem mem_bm25Wave (positive : 0 < shardCount) :
    let context := metadataContext analysis catalog features seeds shardCount seed slack
    let prepared := context.index.prepareQuery features (some seedProfile)
    contract ∈ ((List.range shardCount).flatMap fun shard =>
        context.visitMetadataBm25Shard shard threshold prepared).map
          MetadataHit.candidateContract ↔
      contract ≠ seed.contractId ∧ ∃ profile,
        features.contractProfiles[contract]? = some (some profile) ∧ ∃ anchors,
          context.profileAnchors seedProfile profile = some anchors ∧
            (features.document anchors.1 ≠ features.document anchors.2 ∧
              SimilarTerms slack threshold (tokenize analysis (features.document anchors.1))
                (tokenize analysis (features.document anchors.2))) ∧
            (threshold ≤ 0 ∨ MetadataIndex.Reached analysis features seedProfile profile) := by
  dsimp only
  rw [bm25Wave_eq planned.profile]
  refine (mem_wave positive _ _ (mem_bm25Candidates_iff planned positive)).trans ?_
  simp only [mem_matchedContracts]
  constructor
  · intro found
    rcases found with ⟨profile, reached, other, ofContract, anchors, selected, matched⟩
    have members := profileAnchors_mem selected
    refine ⟨other, profile, ofContract, anchors, selected, ?_, reached⟩
    exact (verdict_bm25_iff planned members.1 (interned_of_mem members.2)).mp
      matched
  · intro found
    rcases found with ⟨other, profile, ofContract, anchors, selected, similar, reached⟩
    have members := profileAnchors_mem selected
    exact ⟨profile, reached, other, ofContract, anchors, selected,
      (verdict_bm25_iff planned members.1 (interned_of_mem members.2)).mpr
        similar⟩

theorem nodup_emitted (positive : 0 < shardCount) :
    ((metadataContext analysis catalog features seeds shardCount seed slack).emitted shardCount
      threshold).Nodup := by
  rw [emitted, nodup_append']
  have profile : (metadataContext analysis catalog features seeds shardCount seed
      slack).seed.metadataProfile = some seedProfile := planned.profile
  rw [profile]
  refine ⟨?_, ?_, ?_⟩
  · rw [exactWave_eq planned.profile]
    exact nodup_wave (fun shard _ => nodup_distinctCandidates _) fun shard inside profile member =>
      ((mem_exactCandidates planned inside).mp member).1
  · rw [bm25Wave_eq planned.profile]
    exact nodup_wave (fun shard inside => nodup_bm25Candidates inside _)
      fun shard inside profile member =>
        ((mem_bm25Candidates_iff planned positive shard inside profile).mp member).1
  · rw [disjoint_left]
    intro contract inExact inBm25
    rcases ((mem_exactWave planned positive).mp inExact).2 with
      ⟨profile, ofContract, anchors, selected, same⟩
    rcases ((mem_bm25Wave planned positive).mp inBm25).2 with
      ⟨other, ofOther, others, otherSelected, ⟨different, _⟩, _⟩
    rw [ofContract] at ofOther
    rw [← Option.some.inj (Option.some.inj ofOther), selected] at otherSelected
    rw [Option.some.inj otherSelected] at same
    exact different same

end

def SelectedMatch (analysis : TextAnalysis) (features : MetadataFeatureStore)
    (slack threshold : ℝ) (anchors : MetadataAnchor × MetadataAnchor) : Prop :=
  features.document anchors.1 = features.document anchors.2 ∨
    SimilarTerms slack threshold (tokenize analysis (features.document anchors.1))
      (tokenize analysis (features.document anchors.2))

def MatchesOnChain (context : MetadataScoreContext) (analysis : TextAnalysis) (threshold : ℝ)
    (seedProfile : ProfileId) (contract : ContractId) (profile : ProfileId) : Prop :=
  ∃ anchors, selectAnchors context.features (context.features.profileAnchors seedProfile)
      (context.chain context.seed.contractId) (context.features.profileAnchors profile)
      (context.chain contract) = some anchors ∧
    SelectedMatch analysis context.features context.slack threshold anchors

/-- A profile matches the seed by the anchors selected on the chain of its first contract, and
similar documents are also reached. -/
def MatchesAsProfile (context : MetadataScoreContext) (analysis : TextAnalysis) (threshold : ℝ)
    (seedProfile profile : ProfileId) : Prop :=
  ∃ anchors, context.profileAnchors seedProfile profile = some anchors ∧
    SelectedMatch analysis context.features context.slack threshold anchors ∧
      (context.features.document anchors.1 = context.features.document anchors.2 ∨
        threshold ≤ 0 ∨
          MetadataIndex.Reached analysis context.features seedProfile profile)

theorem mem_emitted (planned : SeedPlanned features seeds seed seedProfile)
    (positive : 0 < shardCount) :
    contract ∈ (metadataContext analysis catalog features seeds shardCount seed slack).emitted
        shardCount threshold ↔
      contract ≠ seed.contractId ∧ ∃ profile,
        features.contractProfiles[contract]? = some (some profile) ∧
          (metadataContext analysis catalog features seeds shardCount seed
            slack).MatchesAsProfile analysis threshold seedProfile profile := by
  have isProfile : (metadataContext analysis catalog features seeds shardCount seed
      slack).seed.metadataProfile = some seedProfile := planned.profile
  rw [emitted, isProfile, mem_append]
  refine (or_congr (mem_exactWave planned positive) (mem_bm25Wave planned positive)).trans ?_
  rw [← and_or_left]
  refine and_congr_right fun _ => ?_
  constructor
  · intro found
    rcases found with ⟨profile, ofContract, anchors, selected, same⟩ |
      ⟨profile, ofContract, anchors, selected, similar, reached⟩
    · exact ⟨profile, ofContract, anchors, selected, .inl same, .inl same⟩
    · exact ⟨profile, ofContract, anchors, selected, .inr similar.2, .inr reached⟩
  · intro found
    rcases found with ⟨profile, ofContract, anchors, selected, matched, reached⟩
    by_cases same : features.document anchors.1 = features.document anchors.2
    · exact .inl ⟨profile, ofContract, anchors, selected, same⟩
    · exact .inr ⟨profile, ofContract, anchors, selected,
        ⟨same, matched.resolve_left same⟩, reached.resolve_left same⟩

end Built

end MetadataScoreContext

/-- The waves emit exactly the contracts that match the seed, each once, when contracts match on
their own chains as their profiles do on the chains of their first contracts, and the index
reaches them. -/
theorem sharded_metadata_query_iff (analysis : TextAnalysis) (catalog : ContractCatalog)
    {features : MetadataFeatureStore} {seeds : List SeedRawQuery} {seed : SeedRawQuery}
    {seedProfile : ProfileId}
    (planned : MetadataScoreContext.SeedPlanned features seeds seed seedProfile)
    {shardCount : Nat} (positive : 0 < shardCount) (slack threshold : ℝ) :
    let context := metadataContext analysis catalog features seeds shardCount seed slack
    ((context.emitted shardCount threshold).Nodup ∧
      ∀ contract, contract ∈ context.emitted shardCount threshold ↔
        contract ≠ seed.contractId ∧ ∃ profile,
          features.contractProfiles[contract]? = some (some profile) ∧
            context.MatchesOnChain analysis threshold seedProfile contract profile) ↔
      ∀ contract profile, contract ≠ seed.contractId →
        features.contractProfiles[contract]? = some (some profile) →
          (context.MatchesOnChain analysis threshold seedProfile contract profile ↔
            context.MatchesAsProfile analysis threshold seedProfile profile) := by
  dsimp only
  rw [and_iff_right (MetadataScoreContext.nodup_emitted planned positive)]
  constructor
  · intro exact contract profile other ofContract
    have emitted := exact contract
    rw [MetadataScoreContext.mem_emitted planned positive] at emitted
    constructor
    · intro matched
      rcases (emitted.mpr ⟨other, profile, ofContract, matched⟩).2 with ⟨found, isFound, known⟩
      rw [ofContract] at isFound
      rwa [Option.some.inj (Option.some.inj isFound)]
    · intro matched
      rcases (emitted.mp ⟨other, profile, ofContract, matched⟩).2 with ⟨found, isFound, known⟩
      rw [ofContract] at isFound
      rwa [Option.some.inj (Option.some.inj isFound)]
  · intro agree contract
    rw [MetadataScoreContext.mem_emitted planned positive]
    refine and_congr_right fun other => exists_congr fun profile => ?_
    exact and_congr_right fun ofContract => (agree contract profile other ofContract).symm


def plainAnalysis : TextAnalysis where
  isAlphanumeric := Char.isAlphanum
  digest := fun text => text.map fun character => UInt8.ofNat character.toNat

/-- A contract with the tokens `a` and `b`, and one with the token `0a`. -/
def paddedTokens : MetadataFeatureStore where
  anchorTokens := ["a".toList, "b".toList, "0a".toList]
  documents := ["[34,12]".toList, "[77]".toList, "[12,34]".toList]
  profiles := [⟨[⟨0, 0⟩, ⟨1, 1⟩], [0]⟩, ⟨[⟨2, 2⟩], [1]⟩]
  contractProfiles := [some 0, some 1]
  anchored := by decide
  interned := by decide
  membersNodup := by decide
  profileOfMember := by
    intro id profile found contract
    match id, found with
    | 0, found =>
        cases found
        match contract with
        | 0 => decide
        | 1 => decide
        | _ + 2 => simp
    | 1, found =>
        cases found
        match contract with
        | 0 => decide
        | 1 => decide
        | _ + 2 => simp
  profilesKnown := by
    intro contract id found
    match contract, found with
    | 0, found => cases found; decide
    | 1, found => cases found; decide

def paddedCatalog : ContractCatalog :=
  ⟨[⟨.base, "0xaa".toList, 2⟩, ⟨.base, "0xbb".toList, 1⟩]⟩

def paddedSeed : SeedRawQuery := ⟨0, 1, none, some 1, [2]⟩

theorem paddedSeed_planned :
    MetadataScoreContext.SeedPlanned paddedTokens [paddedSeed] paddedSeed 1 :=
  ⟨mem_singleton_self _, rfl, rfl⟩

/-- The tokens are the same, but the index posts their terms under different texts. -/
theorem paddedTokens_missed :
    let context := metadataContext plainAnalysis paddedCatalog paddedTokens [paddedSeed] 4
      paddedSeed 0
    ¬((context.emitted 4 (1 / 2)).Nodup ∧
      ∀ contract, contract ∈ context.emitted 4 (1 / 2) ↔
        contract ≠ paddedSeed.contractId ∧ ∃ profile,
          paddedTokens.contractProfiles[contract]? = some (some profile) ∧
            context.MatchesOnChain plainAnalysis (1 / 2) 1 contract profile) := by
  intro context exact
  have seedTokens : tokenize plainAnalysis (paddedTokens.document ⟨2, 2⟩) =
      ["12".toList, "34".toList] := by decide
  have firstTokens : tokenize plainAnalysis (paddedTokens.document ⟨0, 0⟩) =
      ["34".toList, "12".toList] := by decide
  have lastTokens : tokenize plainAnalysis (paddedTokens.document ⟨1, 1⟩) = ["77".toList] := by
    decide
  have matched : context.MatchesOnChain plainAnalysis (1 / 2) 1 0 0 := by
    refine ⟨(⟨2, 2⟩, ⟨0, 0⟩), by decide, .inr (similarTerms_zero_iff.mpr ?_)⟩
    change 1 / 2 ≤ Bm25.cosine (tokenize plainAnalysis (paddedTokens.document ⟨2, 2⟩))
      (tokenize plainAnalysis (paddedTokens.document ⟨0, 0⟩))
    rw [seedTokens, firstTokens, Bm25.cosine_of_perm (List.Perm.swap _ _ _) (by decide)]
    norm_num
  have emitted := (exact.2 0).mpr ⟨by decide, 0, rfl, matched⟩
  rcases ((MetadataScoreContext.mem_emitted paddedSeed_planned (by decide)).mp emitted).2 with
    ⟨profile, isProfile, anchors, selected, _, reached⟩
  cases isProfile
  have selectedIs : context.profileAnchors 1 0 = some (⟨2, 2⟩, ⟨0, 0⟩) := by decide
  rw [selectedIs] at selected
  cases selected
  rcases reached with same | low | ⟨token, term, ofSeed, ofCopy, _⟩
  · exact absurd same (by decide)
  · norm_num at low
  · cases token with
    | some token =>
        rcases ofSeed with ⟨left, leftMember, leftToken, _⟩
        rcases ofCopy with ⟨right, rightMember, rightToken, _⟩
        have apart : ∀ left ∈ paddedTokens.profileAnchors 1,
            ∀ right ∈ paddedTokens.profileAnchors 0, left.tokenIdId ≠ right.tokenIdId := by
          decide
        exact apart left leftMember right rightMember (leftToken.trans rightToken.symm)
    | none =>
        rcases ofSeed with ⟨left, leftLast, inSeed⟩
        rcases ofCopy with ⟨right, rightLast, inCopy⟩
        have isLeft : some left = some ⟨2, 2⟩ := leftLast.symm
        have isRight : some right = some ⟨1, 1⟩ := rightLast.symm
        rw [Option.some.inj isLeft] at inSeed
        rw [Option.some.inj isRight] at inCopy
        change term ∈ tokenize plainAnalysis (paddedTokens.document ⟨2, 2⟩) at inSeed
        change term ∈ tokenize plainAnalysis (paddedTokens.document ⟨1, 1⟩) at inCopy
        rw [seedTokens] at inSeed
        rw [lastTokens] at inCopy
        rw [mem_singleton.mp inCopy] at inSeed
        exact absurd inSeed (by decide)

theorem sharded_metadata_query_padded :
    let context := metadataContext plainAnalysis paddedCatalog paddedTokens [paddedSeed] 4
      paddedSeed 0
    ((context.emitted 4 (1 / 2)).Nodup ∧
      ∀ contract, contract ∈ context.emitted 4 (1 / 2) ↔
        contract ≠ paddedSeed.contractId ∧ ∃ profile,
          paddedTokens.contractProfiles[contract]? = some (some profile) ∧
            context.MatchesOnChain plainAnalysis (1 / 2) 1 contract profile) ↔
      ∀ contract profile, contract ≠ paddedSeed.contractId →
        paddedTokens.contractProfiles[contract]? = some (some profile) →
          (context.MatchesOnChain plainAnalysis (1 / 2) 1 contract profile ↔
            context.MatchesAsProfile plainAnalysis (1 / 2) 1 profile) :=
  sharded_metadata_query_iff plainAnalysis paddedCatalog paddedSeed_planned (by decide) 0 (1 / 2)

end NftData.Analysis
