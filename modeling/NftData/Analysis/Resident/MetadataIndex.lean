import NftData.Analysis.Resident.NameIndex
import NftData.Foundation.KeyedFold
import NftData.Foundation.Sorting

namespace NftData.Analysis

/-! # Metadata index

Contracts with the same anchors share a profile. The index keeps of each document the terms that
also occur in a document of a seed, and posts each profile under the terms of its anchors. -/

open List
open Bm25 (commonNormOnce commonTerms cosine dotOnce idfOnce idfRatioSquared lengthNorm squaredNorm squaredNorm_eq squaredNorm_pos termNorm weight)

abbrev TokenIdId := Nat

abbrev TermId := Nat

abbrev Digest := List UInt8

structure MetadataAnchor where
  tokenIdId : TokenIdId
  metadataId : MetadataId
  deriving DecidableEq, Repr

structure MetadataProfile where
  anchors : List MetadataAnchor
  members : List ContractId
  deriving DecidableEq, Repr

structure MetadataFeatureStore where
  anchorTokens : List Text
  documents : List Text
  profiles : List MetadataProfile
  contractProfiles : List (Option ProfileId)
  anchored : ∀ profile ∈ profiles, profile.anchors ≠ []
  interned : ∀ profile ∈ profiles, ∀ anchor ∈ profile.anchors,
    anchor.metadataId < documents.length
  membersNodup : ∀ profile ∈ profiles, profile.members.Nodup
  profileOfMember : ∀ (id : ProfileId) (profile : MetadataProfile),
    profiles[id]? = some profile → ∀ contract : ContractId,
      contract ∈ profile.members ↔ contractProfiles[contract]? = some (some id)
  profilesKnown : ∀ (contract : ContractId) (id : ProfileId),
    contractProfiles[contract]? = some (some id) → id < profiles.length

namespace MetadataFeatureStore

variable (features : MetadataFeatureStore)

def profileAnchors (profile : ProfileId) : List MetadataAnchor :=
  (features.profiles[profile]?.map MetadataProfile.anchors).getD []

def profileMembers (profile : ProfileId) : List ContractId :=
  (features.profiles[profile]?.map MetadataProfile.members).getD []

def token (anchor : MetadataAnchor) : Text := features.anchorTokens.getD anchor.tokenIdId []

def document (anchor : MetadataAnchor) : Text := features.documents.getD anchor.metadataId []

end MetadataFeatureStore

/-- What the index relies on: the letters and digits of Unicode, and the SHA-256 digest. -/
structure TextAnalysis where
  isAlphanumeric : Char → Bool
  digest : Text → Digest

def tokenize (analysis : TextAnalysis) (canonical : Text) : List Text :=
  (canonical.splitOnP fun character => !analysis.isAlphanumeric character).filter fun token =>
    2 ≤ token.utf8Length

/-! ## Index -/

/-- The terms of a document that seeds have too, and how many of all terms occur how often. -/
structure PreparedDocument where
  terms : List (TermId × Nat)
  histogram : List (Nat × Nat)
  length : Nat
  digest : Digest

/-- The document is a summary of the terms, with the numbers of a vocabulary. -/
structure PreparedDocument.Summarizes (document : PreparedDocument) {Term : Type} [LinearOrder Term]
    (vocabulary allTerms : List Term) : Prop where
  terms : document.terms = termCounts vocabulary allTerms
  histogram : document.histogram = countHistogram allTerms
  length : document.length = allTerms.length

structure MetadataShardIndex where
  profiles : List ProfileId
  exactPostings : Digest → List ProfileId
  termPostings : TermId → List ProfileId
  tokenTermPostings : TokenIdId × TermId → List ProfileId

structure MetadataIndex where
  documents : List PreparedDocument
  shards : List MetadataShardIndex
  termRarity : TermId → Option Nat
  tokenTermRarity : TokenIdId × TermId → Option Nat

structure PreparedMetadataQuery where
  exactDigests : List Digest
  tokenTermProbes : List (TokenIdId × TermId)
  termProbes : List TermId

namespace MetadataIndex

def seedTerms (analysis : TextAnalysis) (features : MetadataFeatureStore)
    (seedDocuments : List MetadataId) : List Text :=
  ((seedDocuments.flatMap fun document =>
    tokenize analysis (features.documents.getD document [])).dedup).insertionSort (· ≤ ·)

def analyzeDocument (analysis : TextAnalysis) (seedTerms : List Text) (canonical : Text) :
    PreparedDocument :=
  let tokens := tokenize analysis canonical
  { terms := termCounts seedTerms tokens
    histogram := countHistogram tokens
    length := ((occurrences tokens).map Prod.snd).sum
    digest := analysis.digest canonical }

def emptyDocument : PreparedDocument := ⟨[], [], 0, []⟩

def postings {Key : Type} [DecidableEq Key] (entries : List (Key × ProfileId)) (key : Key) :
    List ProfileId :=
  sortDedup compare ((entries.filter fun entry => entry.1 = key).map Prod.snd)

def tokenTerms (documents : List PreparedDocument) (anchor : MetadataAnchor) :
    List (TokenIdId × TermId) :=
  (documents.getD anchor.metadataId emptyDocument).terms.map fun term =>
    (anchor.tokenIdId, term.1)

def lastTerms (documents : List PreparedDocument) (anchors : List MetadataAnchor) :
    List TermId :=
  match anchors.getLast? with
  | none => []
  | some anchor => (documents.getD anchor.metadataId emptyDocument).terms.map Prod.fst

def buildMetadataShard (profiles : List ProfileId) (features : MetadataFeatureStore)
    (documents : List PreparedDocument) (seedDigests : List Digest) : MetadataShardIndex where
  profiles := profiles
  exactPostings := postings <| profiles.flatMap fun profile =>
    ((features.profileAnchors profile).map fun anchor =>
      (documents.getD anchor.metadataId emptyDocument).digest).filter (· ∈ seedDigests) |>.map
        (·, profile)
  termPostings := postings <| profiles.flatMap fun profile =>
    (lastTerms documents (features.profileAnchors profile)).map (·, profile)
  tokenTermPostings := postings <| profiles.flatMap fun profile =>
    ((features.profileAnchors profile).flatMap (tokenTerms documents)).map (·, profile)

def totalPostings {Key : Type} (postings : List (Key → List ProfileId)) (key : Key) : Nat :=
  (postings.map fun shard => (shard key).length).sum

def rarity {Key : Type} (postings : List (Key → List ProfileId)) (key : Key) : Option Nat :=
  if 2 ≤ totalPostings postings key then some (totalPostings postings key) else none

/-- Drop the keys that only one profile of all shards has. -/
def prunePostings {Key : Type} (all : List (Key → List ProfileId))
    (postings : Key → List ProfileId) (key : Key) : List ProfileId :=
  if 2 ≤ totalPostings all key then postings key else []

def profilesByShard (features : MetadataFeatureStore) (shardCount shard : Nat) :
    List ProfileId :=
  (List.range features.profiles.length).filter fun profile =>
    ownerShard profile shardCount = shard

def build (analysis : TextAnalysis) (features : MetadataFeatureStore)
    (seedDocuments : List MetadataId) (shardCount : Nat) : MetadataIndex :=
  let seedTerms := seedTerms analysis features seedDocuments
  let documents := features.documents.map (analyzeDocument analysis seedTerms)
  let seedDigests := seedDocuments.map fun document =>
    (documents.getD document emptyDocument).digest
  let shards := (List.range shardCount).map fun shard =>
    buildMetadataShard (profilesByShard features shardCount shard) features documents seedDigests
  let terms := shards.map MetadataShardIndex.termPostings
  let tokenTerms := shards.map MetadataShardIndex.tokenTermPostings
  { documents
    shards := shards.map fun shard =>
      { shard with
        termPostings := prunePostings terms shard.termPostings
        tokenTermPostings := prunePostings tokenTerms shard.tokenTermPostings }
    termRarity := rarity terms
    tokenTermRarity := rarity tokenTerms }

/-- The keys that connect profiles, the rarest first and each once. -/
def rarestFirst {Key : Type} [DecidableEq Key] (order : Key → Key → Ordering)
    (rarity : Key → Option Nat) (keys : List Key) : List Key :=
  (((keys.filterMap fun key => (rarity key).map fun count => (count, key)).insertionSort
    fun left right => ((compare left.1 right.1).then (order left.2 right.2)).isLE).destutter
      fun left right => left.2 ≠ right.2).map Prod.snd

def prepareQuery (index : MetadataIndex) (features : MetadataFeatureStore) :
    Option ProfileId → PreparedMetadataQuery
  | none => ⟨[], [], []⟩
  | some seedProfile =>
      let anchors := features.profileAnchors seedProfile
      { exactDigests := sortDedup compare (anchors.map fun anchor =>
          (index.documents.getD anchor.metadataId emptyDocument).digest)
        tokenTermProbes := rarestFirst
          (fun left right => (compare left.1 right.1).then (compare left.2 right.2))
          index.tokenTermRarity (anchors.flatMap (tokenTerms index.documents))
        termProbes := rarestFirst compare index.termRarity
          (lastTerms index.documents anchors) }

end MetadataIndex

namespace MetadataIndex

variable {profile : ProfileId} {shard : Nat}

section Postings

variable {Key : Type} [DecidableEq Key] {keysOf : ProfileId → List Key} {key : Key}

theorem mem_postings {profiles : List ProfileId} :
    profile ∈ postings (profiles.flatMap fun profile => (keysOf profile).map (·, profile)) key ↔
      profile ∈ profiles ∧ key ∈ keysOf profile := by
  rw [postings, mem_sortDedup]
  simp only [mem_map, mem_filter, mem_flatMap, decide_eq_true_eq]
  constructor
  · intro found
    rcases found with ⟨entry, ⟨⟨owner, member, other, ofOwner, isEntry⟩, isKey⟩, isProfile⟩
    rw [← isProfile, ← isKey, ← isEntry]
    exact ⟨member, ofOwner⟩
  · exact fun known => ⟨(key, profile), ⟨⟨profile, known.1, key, known.2, rfl⟩, rfl⟩, rfl⟩

theorem nodup_postings (entries : List (Key × ProfileId)) (key : Key) :
    (postings entries key).Nodup := nodup_sortDedup _

variable {features : MetadataFeatureStore} {shardCount : Nat}

theorem mem_profilesByShard :
    profile ∈ profilesByShard features shardCount shard ↔
      profile < features.profiles.length ∧ ownerShard profile shardCount = shard := by
  rw [profilesByShard, mem_filter, mem_range, decide_eq_true_eq]

def allPostings (features : MetadataFeatureStore) (shardCount : Nat)
    (keysOf : ProfileId → List Key) : List (Key → List ProfileId) :=
  (List.range shardCount).map fun shard =>
    postings ((profilesByShard features shardCount shard).flatMap fun profile =>
      (keysOf profile).map (·, profile))

/-- A key counts twice when two profiles have it, in whichever shards. -/
theorem two_le_totalPostings_iff (positive : 0 < shardCount) :
    2 ≤ totalPostings (allPostings features shardCount keysOf) key ↔
      ∃ first second, first ≠ second ∧
        (first < features.profiles.length ∧ key ∈ keysOf first) ∧
          second < features.profiles.length ∧ key ∈ keysOf second := by
  let found := (List.range shardCount).flatMap fun shard =>
    postings ((profilesByShard features shardCount shard).flatMap fun profile =>
      (keysOf profile).map (·, profile)) key
  have total : totalPostings (allPostings features shardCount keysOf) key = found.length := by
    rw [totalPostings, allPostings, map_map, length_flatMap]
    rfl
  have member : ∀ profile, profile ∈ found ↔
      profile < features.profiles.length ∧ key ∈ keysOf profile := by
    intro profile
    rw [mem_flatMap]
    constructor
    · intro inShard
      rcases inShard with ⟨shard, _, posted⟩
      rw [mem_postings, mem_profilesByShard] at posted
      exact ⟨posted.1.1, posted.2⟩
    · intro known
      refine ⟨ownerShard profile shardCount, mem_range.mpr (ownerShard_lt _ positive), ?_⟩
      rw [mem_postings, mem_profilesByShard]
      exact ⟨⟨known.1, rfl⟩, known.2⟩
  have nodup : found.Nodup := by
    rw [nodup_flatMap]
    refine ⟨fun shard _ => nodup_postings _ _, nodup_range.imp fun apart => ?_⟩
    rw [Function.onFun, disjoint_left]
    intro profile ofLeft ofRight
    rw [mem_postings, mem_profilesByShard] at ofLeft ofRight
    exact apart (ofLeft.1.2.symm.trans ofRight.1.2)
  rw [total, ← toFinset_card_of_nodup nodup]
  refine Finset.one_lt_card.trans ?_
  simp only [mem_toFinset, member]
  constructor
  · intro two
    rcases two with ⟨first, isFirst, second, isSecond, apart⟩
    exact ⟨first, second, apart, isFirst, isSecond⟩
  · intro two
    rcases two with ⟨first, second, apart, isFirst, isSecond⟩
    exact ⟨first, isFirst, second, isSecond, apart⟩

theorem mem_map_destutter {Entry : Type} (mark : Entry → Key) (entries : List Entry)
    (wanted : Key) :
    wanted ∈ (entries.destutter fun left right => mark left ≠ mark right).map mark ↔
      wanted ∈ entries.map mark := by
  have mapped : (entries.destutter fun left right => mark left ≠ mark right).map mark =
      (entries.map mark).destutter (· ≠ ·) := map_destutter fun _ _ _ _ => Iff.rfl
  rw [mapped, mem_destutter]

variable {order : Key → Key → Ordering} {keys : List Key}

theorem mem_rarestFirst {rarity : Key → Option Nat}
    :
    key ∈ rarestFirst order rarity keys ↔ key ∈ keys ∧ (rarity key).isSome := by
  rw [rarestFirst, mem_map_destutter Prod.snd]
  simp only [mem_map, mem_insertionSort, mem_filterMap, Option.map_eq_some_iff,
    Option.isSome_iff_exists]
  constructor
  · intro found
    rcases found with ⟨entry, ⟨other, member, count, isRare, isEntry⟩, isKey⟩
    rw [← isKey, ← isEntry]
    exact ⟨member, count, isRare⟩
  · intro known
    rcases known with ⟨member, count, isRare⟩
    exact ⟨(count, key), ⟨key, member, count, isRare, rfl⟩, rfl⟩

omit [DecidableEq Key] in
theorem isSome_rarity {all : List (Key → List ProfileId)} :
    (rarity all key).isSome ↔ 2 ≤ totalPostings all key := by
  unfold rarity
  split
  · next enough => exact iff_of_true rfl enough
  · next few => exact iff_of_false Bool.false_ne_true few

theorem mem_probe (positive : 0 < shardCount) :
    profile ∈ (rarestFirst order (rarity (allPostings features shardCount keysOf)) keys).flatMap
        (prunePostings (allPostings features shardCount keysOf)
          (postings ((profilesByShard features shardCount shard).flatMap fun profile =>
            (keysOf profile).map (·, profile)))) ↔
      profile ∈ profilesByShard features shardCount shard ∧
        ∃ key ∈ keys, key ∈ keysOf profile ∧ ∃ other, other ≠ profile ∧
          other < features.profiles.length ∧ key ∈ keysOf other := by
  rw [mem_flatMap]
  constructor
  · intro found
    rcases found with ⟨key, member, posted⟩
    rw [mem_rarestFirst, isSome_rarity] at member
    rw [prunePostings, if_pos member.2, mem_postings] at posted
    rcases (two_le_totalPostings_iff positive).mp member.2 with
      ⟨first, second, apart, isFirst, isSecond⟩
    refine ⟨posted.1, key, member.1, posted.2, ?_⟩
    by_cases same : first = profile
    · exact ⟨second, fun isProfile => apart (same.trans isProfile.symm), isSecond⟩
    · exact ⟨first, same, isFirst⟩
  · intro found
    rcases found with ⟨inShard, key, member, ofProfile, other, apart, inside, ofOther⟩
    have connects : 2 ≤ totalPostings (allPostings features shardCount keysOf) key :=
      (two_le_totalPostings_iff positive).mpr
        ⟨other, profile, apart, ⟨inside, ofOther⟩, (mem_profilesByShard.mp inShard).1, ofProfile⟩
    refine ⟨key, mem_rarestFirst.mpr ⟨member, isSome_rarity.mpr connects⟩, ?_⟩
    rw [prunePostings, if_pos connects, mem_postings]
    exact ⟨inShard, ofProfile⟩

end Postings

/-! ## Built index -/

variable {term : Text} {key : TokenIdId × TermId}

section Built

variable {analysis : TextAnalysis} {features : MetadataFeatureStore}
  {seedDocuments : List MetadataId} {shardCount : Nat}

theorem analyzeDocument_summarizes (vocabulary : List Text) (canonical : Text) :
    (analyzeDocument analysis vocabulary canonical).Summarizes vocabulary
      (tokenize analysis canonical) := ⟨rfl, rfl, sum_counts _⟩

theorem mem_seedTerms {document : MetadataId} (member : document ∈ seedDocuments)
    (inDocument : term ∈ tokenize analysis (features.documents.getD document [])) :
    term ∈ seedTerms analysis features seedDocuments := by
  rw [seedTerms, mem_insertionSort, mem_dedup]
  exact mem_flatMap.mpr ⟨document, member, inDocument⟩

variable {anchor : MetadataAnchor}

theorem documents_build (interned : anchor.metadataId < features.documents.length) :
    (build analysis features seedDocuments shardCount).documents.getD anchor.metadataId
        emptyDocument =
      analyzeDocument analysis (seedTerms analysis features seedDocuments)
        (features.document anchor) := by
  rw [build, MetadataFeatureStore.document,
    getD_eq_getElem _ _ (by rw [length_map]; exact interned), getElem_map,
    getD_eq_getElem _ _ interned]

theorem interned_of_mem (member : anchor ∈ features.profileAnchors profile) :
    anchor.metadataId < features.documents.length := by
  rw [MetadataFeatureStore.profileAnchors] at member
  cases found : features.profiles[profile]? with
  | none =>
      rw [found] at member
      exact absurd member not_mem_nil
  | some record =>
      rw [found] at member
      exact features.interned record (mem_of_getElem? found) anchor member

theorem mem_tokenTerms :
    key ∈ (features.profileAnchors profile).flatMap
        (tokenTerms (build analysis features seedDocuments shardCount).documents) ↔
      ∃ anchor ∈ features.profileAnchors profile, anchor.tokenIdId = key.1 ∧
        ∃ term ∈ tokenize analysis (features.document anchor),
          numberOf (seedTerms analysis features seedDocuments) term = some key.2 := by
  rw [mem_flatMap]
  refine exists_congr fun anchor => and_congr_right fun member => ?_
  rw [tokenTerms, documents_build (interned_of_mem member),
    (analyzeDocument_summarizes _ _).terms, ← mem_keys_termCounts]
  simp only [mem_map]
  constructor
  · intro found
    rcases found with ⟨entry, counted, isKey⟩
    rw [← isKey]
    exact ⟨rfl, entry, counted, rfl⟩
  · intro found
    rcases found with ⟨sameToken, entry, counted, sameTerm⟩
    exact ⟨entry, counted, Prod.ext sameToken sameTerm⟩

theorem mem_lastTerms {key : TermId} :
    key ∈ lastTerms (build analysis features seedDocuments shardCount).documents
        (features.profileAnchors profile) ↔
      ∃ anchor, (features.profileAnchors profile).getLast? = some anchor ∧
        ∃ term ∈ tokenize analysis (features.document anchor),
          numberOf (seedTerms analysis features seedDocuments) term = some key := by
  unfold lastTerms
  split
  · next none =>
      refine iff_of_false not_mem_nil fun found => ?_
      rcases found with ⟨anchor, isLast, _⟩
      rw [none] at isLast
      cases isLast
  · next anchor isLast =>
      rw [documents_build (interned_of_mem (List.mem_of_getLast? isLast)),
        (analyzeDocument_summarizes _ _).terms, mem_keys_termCounts, isLast]
      simp

def tokenTermKeys (features : MetadataFeatureStore) (documents : List PreparedDocument)
    (profile : ProfileId) : List (TokenIdId × TermId) :=
  (features.profileAnchors profile).flatMap (tokenTerms documents)

def termKeys (features : MetadataFeatureStore) (documents : List PreparedDocument)
    (profile : ProfileId) : List TermId :=
  lastTerms documents (features.profileAnchors profile)

def rawShards (analysis : TextAnalysis) (features : MetadataFeatureStore)
    (seedDocuments : List MetadataId) (shardCount : Nat) : List MetadataShardIndex :=
  let documents := (build analysis features seedDocuments shardCount).documents
  (List.range shardCount).map fun shard =>
    buildMetadataShard (profilesByShard features shardCount shard) features documents
      (seedDocuments.map fun document => (documents.getD document emptyDocument).digest)

theorem termPostings_rawShards :
    (rawShards analysis features seedDocuments shardCount).map MetadataShardIndex.termPostings =
      allPostings features shardCount
        (termKeys features (build analysis features seedDocuments shardCount).documents) :=
  map_map

theorem tokenTermPostings_rawShards :
    (rawShards analysis features seedDocuments shardCount).map
        MetadataShardIndex.tokenTermPostings =
      allPostings features shardCount
        (tokenTermKeys features (build analysis features seedDocuments shardCount).documents) :=
  map_map

theorem termRarity_build :
    (build analysis features seedDocuments shardCount).termRarity =
      rarity (allPostings features shardCount
        (termKeys features (build analysis features seedDocuments shardCount).documents)) :=
  congrArg rarity termPostings_rawShards

theorem tokenTermRarity_build :
    (build analysis features seedDocuments shardCount).tokenTermRarity =
      rarity (allPostings features shardCount
        (tokenTermKeys features (build analysis features seedDocuments shardCount).documents)) :=
  congrArg rarity tokenTermPostings_rawShards

theorem shards_build (inside : shard < shardCount) (other : MetadataShardIndex) :
    let raw := rawShards analysis features seedDocuments shardCount
    let documents := (build analysis features seedDocuments shardCount).documents
    let unpruned := buildMetadataShard (profilesByShard features shardCount shard) features
      documents (seedDocuments.map fun document =>
        (documents.getD document emptyDocument).digest)
    (build analysis features seedDocuments shardCount).shards.getD shard other =
      { unpruned with
        termPostings :=
          prunePostings (raw.map MetadataShardIndex.termPostings) unpruned.termPostings
        tokenTermPostings := prunePostings (raw.map MetadataShardIndex.tokenTermPostings)
          unpruned.tokenTermPostings } := by
  dsimp only
  rw [build, getD_eq_getElem _ _ (by
    rw [length_map, length_map, length_range]; exact inside), getElem_map,
    getElem_map, getElem_range]
  rfl

end Built

/-! ## Connections -/

/-- A profile has a term under the token of an anchor, or under its last anchor. -/
def HasProbeKey (analysis : TextAnalysis) (features : MetadataFeatureStore)
    (profile : ProfileId) (token : Option TokenIdId) (term : Text) : Prop :=
  match token with
  | some token => ∃ anchor ∈ features.profileAnchors profile, anchor.tokenIdId = token ∧
      term ∈ tokenize analysis (features.document anchor)
  | none => ∃ anchor, (features.profileAnchors profile).getLast? = some anchor ∧
      term ∈ tokenize analysis (features.document anchor)

/-- The profile has a key in common with the seed, and is not the only one that has it. -/
def Reached (analysis : TextAnalysis) (features : MetadataFeatureStore)
    (seed profile : ProfileId) : Prop :=
  ∃ token term, HasProbeKey analysis features seed token term ∧
    HasProbeKey analysis features profile token term ∧
      ∃ other, other ≠ profile ∧ HasProbeKey analysis features other token term

section Connections

variable {analysis : TextAnalysis} {features : MetadataFeatureStore}
  {seedDocuments : List MetadataId} {shardCount : Nat}

theorem mem_tokenTermKeys :
    key ∈ tokenTermKeys features (build analysis features seedDocuments shardCount).documents
        profile ↔
      ∃ term, HasProbeKey analysis features profile (some key.1) term ∧
        numberOf (seedTerms analysis features seedDocuments) term = some key.2 := by
  rw [tokenTermKeys, mem_tokenTerms]
  constructor
  · intro found
    rcases found with ⟨anchor, member, sameToken, term, inDocument, number⟩
    exact ⟨term, ⟨anchor, member, sameToken, inDocument⟩, number⟩
  · intro found
    rcases found with ⟨term, ⟨anchor, member, sameToken, inDocument⟩, number⟩
    exact ⟨anchor, member, sameToken, term, inDocument, number⟩

theorem mem_termKeys {key : TermId} :
    key ∈ termKeys features (build analysis features seedDocuments shardCount).documents
        profile ↔
      ∃ term, HasProbeKey analysis features profile none term ∧
        numberOf (seedTerms analysis features seedDocuments) term = some key := by
  rw [termKeys, mem_lastTerms]
  constructor
  · intro found
    rcases found with ⟨anchor, isLast, term, inDocument, number⟩
    exact ⟨term, ⟨anchor, isLast, inDocument⟩, number⟩
  · intro found
    rcases found with ⟨term, ⟨anchor, isLast, inDocument⟩, number⟩
    exact ⟨anchor, isLast, term, inDocument, number⟩

variable {token : Option TokenIdId}

theorem HasProbeKey.anchored (has : HasProbeKey analysis features profile token term) :
    ∃ anchor ∈ features.profileAnchors profile,
      term ∈ tokenize analysis (features.document anchor) := by
  cases token with
  | some token =>
      rcases has with ⟨anchor, member, _, inDocument⟩
      exact ⟨anchor, member, inDocument⟩
  | none =>
      rcases has with ⟨anchor, isLast, inDocument⟩
      exact ⟨anchor, List.mem_of_getLast? isLast, inDocument⟩

theorem HasProbeKey.inside (has : HasProbeKey analysis features profile token term) :
    profile < features.profiles.length := by
  rcases has.anchored with ⟨anchor, member, _⟩
  by_contra outside
  rw [MetadataFeatureStore.profileAnchors,
    List.getElem?_eq_none (Nat.le_of_not_lt outside)] at member
  exact not_mem_nil member

variable {seed : ProfileId}

/-- Terms that the seed has are shared by number exactly when they are shared as texts. -/
theorem exists_number_iff {vocabulary : List Text}
    (known : ∀ term, HasProbeKey analysis features seed token term → term ∈ vocabulary) :
    (∃ number,
      (∃ term, HasProbeKey analysis features seed token term ∧
        numberOf vocabulary term = some number) ∧
      (∃ term, HasProbeKey analysis features profile token term ∧
        numberOf vocabulary term = some number) ∧
      ∃ other, other ≠ profile ∧ other < features.profiles.length ∧
        ∃ term, HasProbeKey analysis features other token term ∧
          numberOf vocabulary term = some number) ↔
      ∃ term, HasProbeKey analysis features seed token term ∧
        HasProbeKey analysis features profile token term ∧
          ∃ other, other ≠ profile ∧ HasProbeKey analysis features other token term := by
  constructor
  · intro found
    rcases found with ⟨number, ⟨term, ofSeed, isNumber⟩, ⟨second, ofProfile, secondNumber⟩,
      other, apart, _, third, ofOther, thirdNumber⟩
    rw [eq_of_numberOf secondNumber isNumber] at ofProfile
    rw [eq_of_numberOf thirdNumber isNumber] at ofOther
    exact ⟨term, ofSeed, ofProfile, other, apart, ofOther⟩
  · intro found
    rcases found with ⟨term, ofSeed, ofProfile, other, apart, ofOther⟩
    rcases exists_numberOf (known term ofSeed) with ⟨number, isNumber⟩
    exact ⟨number, ⟨term, ofSeed, isNumber⟩, ⟨term, ofProfile, isNumber⟩, other, apart,
      ofOther.inside, term, ofOther, isNumber⟩

/-- The keys of the two families together reach what the texts reach. -/
theorem exists_key_iff
    (known : ∀ anchor ∈ features.profileAnchors seed, anchor.metadataId ∈ seedDocuments) :
    let documents := (build analysis features seedDocuments shardCount).documents
    ((∃ key ∈ tokenTermKeys features documents seed,
        key ∈ tokenTermKeys features documents profile ∧ ∃ other, other ≠ profile ∧
          other < features.profiles.length ∧ key ∈ tokenTermKeys features documents other) ∨
      (∃ key ∈ termKeys features documents seed,
        key ∈ termKeys features documents profile ∧ ∃ other, other ≠ profile ∧
          other < features.profiles.length ∧ key ∈ termKeys features documents other)) ↔
      Reached analysis features seed profile := by
  have terms : ∀ token term, HasProbeKey analysis features seed token term →
      term ∈ seedTerms analysis features seedDocuments := by
    intro token term has
    rcases has.anchored with ⟨anchor, member, inDocument⟩
    exact mem_seedTerms (known anchor member) inDocument
  dsimp only
  simp only [mem_tokenTermKeys, mem_termKeys, Prod.exists]
  rw [exists_number_iff (terms none)]
  simp only [exists_number_iff (terms (some _))]
  constructor
  · intro reached
    rcases reached with byToken | byTerm
    · rcases byToken with ⟨token, term, has⟩
      exact ⟨some token, term, has⟩
    · rcases byTerm with ⟨term, has⟩
      exact ⟨none, term, has⟩
  · intro reached
    rcases reached with ⟨token, term, has⟩
    cases token with
    | some token => exact .inl ⟨token, term, has⟩
    | none => exact .inr ⟨term, has⟩

end Connections

end MetadataIndex

/-! ## Similarity -/

noncomputable section

def histogramNorm (histogram : List (Nat × Nat)) (norm idf : ℝ) : ℝ :=
  (histogram.map fun entry =>
    weight entry.1 norm idf * weight entry.1 norm idf * (entry.2 : ℝ)).sum

/-- The similarity of two documents, and whether it reaches the threshold. The slack makes up
for rounding: it is `1e-12` in the source, and nothing when numbers are exact. -/
def bm25Cosine (slack : ℝ) (left right : PreparedDocument) (threshold : ℝ) : Bool × ℝ :=
  if threshold ≤ 0 then
    (true, 1)
  else
    let averageLength := ((left.length : ℝ) + right.length) / 2
    let leftNorm := lengthNorm left.length averageLength
    let rightNorm := lengthNorm right.length averageLength
    let leftSquared := histogramNorm left.histogram leftNorm idfOnce
    let rightSquared := histogramNorm right.histogram rightNorm idfOnce
    let shared := (mergeJoin left.terms right.terms).map fun entry =>
      (weight entry.2.1 leftNorm idfOnce,
        weight entry.2.2 rightNorm idfOnce)
    let sharedLeft := (shared.map fun weights => weights.1 * weights.1).sum
    let sharedRight := (shared.map fun weights => weights.2 * weights.2).sum
    let dot := (shared.map fun weights => weights.1 * weights.2).sum
    if dot = 0 then
      (false, 0)
    else
      let reduction := 1 - idfRatioSquared
      let leftSquared := max (leftSquared - reduction * sharedLeft) 0
      let rightSquared := max (rightSquared - reduction * sharedRight) 0
      if leftSquared = 0 ∨ rightSquared = 0 then
        (false, 0)
      else
        let score := idfRatioSquared * dot / (√leftSquared * √rightSquared)
        (decide (threshold ≤ score + slack), score)

section Similar

variable {Term : Type} [LinearOrder Term]

def SimilarTerms (slack threshold : ℝ) (left right : List Term) : Prop :=
  threshold ≤ 0 ∨
    0 < cosine left right ∧ threshold ≤ cosine left right + slack

variable {threshold : ℝ}

theorem similarTerms_zero_iff {left right : List Term} :
    SimilarTerms 0 threshold left right ↔ threshold ≤ cosine left right := by
  have nonneg := Bm25.cosine_nonneg left right
  rw [SimilarTerms, add_zero]
  constructor
  · intro similar
    rcases similar with low | high
    · exact low.trans nonneg
    · exact high.2
  · intro high
    by_cases low : threshold ≤ 0
    · exact .inl low
    · exact .inr ⟨(not_le.mp low).trans_le high, high⟩

theorem histogramNorm_countHistogram (terms other : List Term) :
    histogramNorm (countHistogram terms) (termNorm terms other) idfOnce =
      Bm25.ownNormOnce terms other := by
  refine (sum_countHistogram (fun count =>
    weight count (termNorm terms other) idfOnce *
      weight count (termNorm terms other) idfOnce) terms).trans ?_
  exact Finset.sum_congr rfl fun _ _ => (sq _).symm

variable {right left : PreparedDocument} {vocabulary rightTerms leftTerms : List Term}

/-- The numbers of the seed terms and the histograms give the sums over all terms. -/
theorem bm25Cosine_eq (leftSummary : left.Summarizes vocabulary leftTerms)
    (rightSummary : right.Summarizes vocabulary rightTerms)
    (known : ∀ term ∈ leftTerms, term ∈ vocabulary) (slack : ℝ) (positive : 0 < threshold) :
    bm25Cosine slack left right threshold =
      if dotOnce leftTerms rightTerms = 0 then
        (false, 0)
      else if max (squaredNorm leftTerms rightTerms) 0 = 0 ∨
          max (squaredNorm rightTerms leftTerms) 0 = 0 then
        (false, 0)
      else
        let score := idfRatioSquared * dotOnce leftTerms rightTerms /
          (√(max (squaredNorm leftTerms rightTerms) 0) *
            √(max (squaredNorm rightTerms leftTerms) 0))
        (decide (threshold ≤ score + slack), score) := by
  have leftNorm : lengthNorm leftTerms.length
      (((leftTerms.length : ℝ) + rightTerms.length) / 2) =
        termNorm leftTerms rightTerms := rfl
  have rightNorm : lengthNorm rightTerms.length
      (((leftTerms.length : ℝ) + rightTerms.length) / 2) =
        termNorm rightTerms leftTerms := by
    rw [termNorm, Bm25.averageLength, add_comm]
  have shared : ∀ value : Nat → Nat → ℝ,
      ((mergeJoin (termCounts vocabulary leftTerms) (termCounts vocabulary rightTerms)).map
        fun entry => value entry.2.1 entry.2.2).sum =
          ∑ term ∈ commonTerms leftTerms rightTerms,
            value (leftTerms.count term) (rightTerms.count term) :=
    sum_mergeJoin_termCounts known
  have dot := shared fun leftCount rightCount =>
    weight leftCount (termNorm leftTerms rightTerms) idfOnce *
      weight rightCount (termNorm rightTerms leftTerms) idfOnce
  have sharedLeft := shared fun leftCount _ =>
    weight leftCount (termNorm leftTerms rightTerms) idfOnce *
      weight leftCount (termNorm leftTerms rightTerms) idfOnce
  have sharedRight := shared fun _ rightCount =>
    weight rightCount (termNorm rightTerms leftTerms) idfOnce *
      weight rightCount (termNorm rightTerms leftTerms) idfOnce
  have commonLeft : commonNormOnce leftTerms rightTerms =
      ((mergeJoin left.terms right.terms).map fun entry =>
        weight entry.2.1 (termNorm leftTerms rightTerms) idfOnce *
          weight entry.2.1 (termNorm leftTerms rightTerms) idfOnce).sum := by
    rw [leftSummary.terms, rightSummary.terms, sharedLeft]
    exact Finset.sum_congr rfl fun _ _ => sq _
  have commonRight : commonNormOnce rightTerms leftTerms =
      ((mergeJoin left.terms right.terms).map fun entry =>
        weight entry.2.2 (termNorm rightTerms leftTerms) idfOnce *
          weight entry.2.2 (termNorm rightTerms leftTerms) idfOnce).sum := by
    rw [leftSummary.terms, rightSummary.terms, sharedRight, commonNormOnce,
      Bm25.commonTerms_comm]
    exact Finset.sum_congr rfl fun _ _ => sq _
  have product : dotOnce leftTerms rightTerms =
      ((mergeJoin left.terms right.terms).map fun entry =>
        weight entry.2.1 (termNorm leftTerms rightTerms) idfOnce *
          weight entry.2.2 (termNorm rightTerms leftTerms) idfOnce).sum := by
    rw [leftSummary.terms, rightSummary.terms, dot]
    rfl
  rw [squaredNorm_eq, squaredNorm_eq, commonLeft, commonRight, product, bm25Cosine,
    if_neg (not_le.mpr positive), leftSummary.length, rightSummary.length,
    leftSummary.histogram, rightSummary.histogram]
  dsimp only
  rw [leftNorm, rightNorm, histogramNorm_countHistogram, histogramNorm_countHistogram]
  simp only [map_map, Function.comp_def]

theorem bm25Cosine_iff (leftSummary : left.Summarizes vocabulary leftTerms)
    (rightSummary : right.Summarizes vocabulary rightTerms)
    (known : ∀ term ∈ leftTerms, term ∈ vocabulary) (slack threshold : ℝ) :
    (bm25Cosine slack left right threshold).1 = true ↔
      SimilarTerms slack threshold leftTerms rightTerms := by
  by_cases low : threshold ≤ 0
  · rw [bm25Cosine, if_pos low]
    exact iff_of_true rfl (.inl low)
  · rw [bm25Cosine_eq leftSummary rightSummary known slack (not_le.mp low), SimilarTerms,
      or_iff_right low, Bm25.cosine_pos_iff]
    by_cases common : (commonTerms leftTerms rightTerms).Nonempty
    · rcases common with ⟨term, member⟩
      have inBoth := Bm25.mem_commonTerms.mp member
      have leftPositive : 0 < squaredNorm leftTerms rightTerms :=
        squaredNorm_pos inBoth.1
      have rightPositive : 0 < squaredNorm rightTerms leftTerms :=
        squaredNorm_pos inBoth.2
      have dot : dotOnce leftTerms rightTerms ≠ 0 :=
        (Bm25.dotOnce_pos_iff.mpr ⟨term, member⟩).ne'
      rw [if_neg dot, max_eq_left leftPositive.le, max_eq_left rightPositive.le,
        if_neg (not_or.mpr ⟨leftPositive.ne', rightPositive.ne'⟩), ← Bm25.cosine_eq]
      dsimp only
      rw [decide_eq_true_eq]
      exact (and_iff_right ⟨term, member⟩).symm
    · have dot : dotOnce leftTerms rightTerms = 0 := by
        rw [dotOnce, Finset.not_nonempty_iff_eq_empty.mp common, Finset.sum_empty]
      rw [if_pos dot]
      exact iff_of_false Bool.false_ne_true fun similar => common similar.1

end Similar

end

end NftData.Analysis
