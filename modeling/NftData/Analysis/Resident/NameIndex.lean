import NftData.Analysis.Resident.Store
import NftData.Foundation.Csr
import NftData.Foundation.TermCounts
import NftData.Names.CandidateBounds
import NftData.Names.OccurrenceTokens

namespace NftData.Analysis

/-! # Name index

The names of the contracts, and for each owner shard the names that contain an occurrence token
of a seed name. A query probes the rarest tokens of its seed, as few as are sure to find every
name that is similar enough. -/

open List
open Names (occurrenceTokens)

/-- The pool of names, and the representative name of each contract. -/
structure NameFeatureStore where
  values : List Text
  contractNames : List (Option NameValueId)
  interned : ∀ name ∈ contractNames, ∀ id ∈ name, id < values.length

def NameFeatureStore.text (features : NameFeatureStore) (name : NameValueId) : Text :=
  features.values.getD name []

def stableMix (value : UInt32) : UInt32 :=
  let value := value ^^^ (value >>> 16)
  let value := value * 0x7feb352d
  let value := value ^^^ (value >>> 15)
  let value := value * 0x846ca68b
  value ^^^ (value >>> 16)

def ownerShard (value shardCount : Nat) : Nat :=
  (stableMix (UInt32.ofNat value)).toNat &&& (shardCount - 1)

theorem ownerShard_lt (value : Nat) {shardCount : Nat} (positive : 0 < shardCount) :
    ownerShard value shardCount < shardCount := by
  have bound : ownerShard value shardCount ≤ shardCount - 1 := Nat.and_le_right
  omega

structure PreparedNameQuery where
  prefixTokens : List Nat
  directVerification : Bool

def PreparedNameQuery.direct : PreparedNameQuery := ⟨[], true⟩

structure NameIndex where
  shardPostings : List (Rows NameValueId)
  tokenFrequency : List Nat
  seedTokens : List (NameValueId × List Nat)
  characters : Rows Char
  sortedCharacters : Rows Char
  members : Rows ContractId
  namesByShard : List (List NameValueId)

/-- Tokens are ordered by their character first. -/
def tokenLe (left right : Char × Nat) : Prop :=
  left.1 < right.1 ∨ (left.1 = right.1 ∧ left.2 ≤ right.2)

instance : DecidableRel tokenLe := fun left right =>
  inferInstanceAs (Decidable (left.1 < right.1 ∨ (left.1 = right.1 ∧ left.2 ≤ right.2)))

namespace NameIndex

def vocabulary (features : NameFeatureStore) (seedNames : List NameValueId) :
    List (Char × Nat) :=
  (seedNames.flatMap fun name => occurrenceTokens (features.text name)).dedup.insertionSort
    tokenLe

def denseTokens (vocabulary : List (Char × Nat)) (text : Text) : List Nat :=
  (occurrenceTokens text).filterMap vocabulary.idxOf?

def shardNames (features : NameFeatureStore) (shardCount shard : Nat) : List NameValueId :=
  (List.range features.values.length).filter fun name => ownerShard name shardCount = shard

def postingRow (features : NameFeatureStore) (vocabulary : List (Char × Nat))
    (names : List NameValueId) (token : Nat) : List NameValueId :=
  (names.flatMap fun name =>
    ((denseTokens vocabulary (features.text name)).filter (· = token)).map fun _ => name).insertionSort
      (· ≤ ·)

def memberRow (features : NameFeatureStore) (name : NameValueId) : List ContractId :=
  (List.range features.contractNames.length).filter fun contract =>
    features.contractNames[contract]? = some (some name)

def build (features : NameFeatureStore) (seedNames : List NameValueId) (shardCount : Nat) :
    NameIndex :=
  let vocabulary := vocabulary features seedNames
  let nameCount := features.values.length
  let rows := (List.range shardCount).map fun shard =>
    (List.range vocabulary.length).map
      (postingRow features vocabulary (shardNames features shardCount shard))
  { shardPostings := rows.map Rows.ofLists
    tokenFrequency := (List.range vocabulary.length).map fun token =>
      (rows.map fun shard => (shard.getD token []).length).sum
    seedTokens := seedNames.map fun name =>
      (name, (denseTokens vocabulary (features.text name)).insertionSort (· ≤ ·))
    characters := .ofLists features.values
    sortedCharacters := .ofLists (features.values.map fun text => text.insertionSort (· ≤ ·))
    members := .ofLists ((List.range nameCount).map (memberRow features))
    namesByShard := (List.range shardCount).map (shardNames features shardCount) }

def scale : Names.BoundScale := ⟨100, 0, by norm_num, le_rfl⟩

def maxOverlapScanMargin : Nat := 4096

def scanDown (leftLength : Nat) (thresholdPct : ℚ) : Nat → Nat → Nat
  | rightLength, minimum =>
      if scale.lengthsCanReach leftLength rightLength thresholdPct then
        let minimum := min minimum
          (scale.minimumMultisetOverlap leftLength rightLength thresholdPct)
        match rightLength with
        | 0 => minimum
        | rightLength + 1 => scanDown leftLength thresholdPct rightLength minimum
      else
        minimum

/-- Longer names, until one is too long. Without one within the margin there is no bound. -/
def scanUp (leftLength : Nat) (thresholdPct : ℚ) : Nat → Nat → Nat → Nat
  | 0, _, _ => 0
  | margin + 1, rightLength, minimum =>
      if scale.lengthsCanReach leftLength rightLength thresholdPct then
        scanUp leftLength thresholdPct margin (rightLength + 1)
          (min minimum (scale.minimumMultisetOverlap leftLength rightLength thresholdPct))
      else
        minimum

def minimumRequiredOverlap (leftLength : Nat) (thresholdPct : ℚ) : Nat :=
  if leftLength = 0 ∨ thresholdPct ≤ 0 then
    0
  else
    scanUp leftLength thresholdPct maxOverlapScanMargin (leftLength + 1)
      (scanDown leftLength thresholdPct leftLength leftLength)

def prepareQuery (index : NameIndex) (name : NameValueId) (threshold : ℚ) :
    PreparedNameQuery :=
  match index.seedTokens.lookup name with
  | none => .direct
  | some tokens =>
      let total := tokens.length
      if total = 0 ∨ threshold ≤ 0 then
        .direct
      else
        let requiredOverlap := minimumRequiredOverlap total (min (threshold * 100) 100)
        if requiredOverlap = 0 then
          .direct
        else
          let prefixLength := min (total - requiredOverlap + 1) total
          let rarest := tokens.insertionSort fun left right =>
            index.tokenFrequency.getD left 0 ≤ index.tokenFrequency.getD right 0
          ⟨rarest.take prefixLength, false⟩

def shardPosting (index : NameIndex) (shard token : Nat) : List NameValueId :=
  (index.shardPostings.getD shard (.ofLists [])).row token

def candidates (index : NameIndex) (shard : Nat) (query : PreparedNameQuery) :
    List NameValueId :=
  if query.directVerification then
    index.namesByShard.getD shard []
  else
    sortDedup compare (query.prefixTokens.flatMap (index.shardPosting shard))

variable {thresholdPct : ℚ} {leftLength : Nat} {shorter longer : Nat}

theorem lengthsCanReach_below (less : shorter ≤ longer) (below : longer ≤ leftLength)
    (reached : scale.lengthsCanReach leftLength shorter thresholdPct = true) :
    scale.lengthsCanReach leftLength longer thresholdPct = true :=
  scale.reachesThreshold_mono (scale.upperBound_mono_below less below) reached

theorem lengthsCanReach_above (positive : 0 < leftLength) (above : leftLength ≤ shorter)
    (less : shorter ≤ longer)
    (reached : scale.lengthsCanReach leftLength longer thresholdPct = true) :
    scale.lengthsCanReach leftLength shorter thresholdPct = true :=
  scale.reachesThreshold_mono (scale.upperBound_mono_above positive above less) reached

theorem scanDown_le (leftLength : Nat) (thresholdPct : ℚ) (rightLength minimum : Nat) :
    scanDown leftLength thresholdPct rightLength minimum ≤ minimum := by
  induction rightLength generalizing minimum with
  | zero =>
      rw [scanDown]
      split
      · exact Nat.min_le_left _ _
      · exact le_rfl
  | succ rightLength induction =>
      rw [scanDown]
      split
      · exact (induction _).trans (Nat.min_le_left _ _)
      · exact le_rfl

variable {rightLength : Nat} {wanted : Nat}

theorem scanDown_le_overlap (reached : scale.lengthsCanReach leftLength wanted thresholdPct = true)
    (inside : wanted ≤ rightLength) (below : rightLength ≤ leftLength) (minimum : Nat) :
    scanDown leftLength thresholdPct rightLength minimum ≤
      scale.minimumMultisetOverlap leftLength wanted thresholdPct := by
  induction rightLength generalizing minimum with
  | zero =>
      rw [Nat.le_zero.mp inside] at reached ⊢
      rw [scanDown, if_pos reached]
      exact Nat.min_le_right _ _
  | succ rightLength induction =>
      rw [scanDown, if_pos (lengthsCanReach_below inside below reached)]
      dsimp only
      by_cases same : wanted = rightLength + 1
      · rw [same]
        exact (scanDown_le _ _ _ _).trans (Nat.min_le_right _ _)
      · exact induction (by omega) (by omega) _

theorem scanUp_le (leftLength : Nat) (thresholdPct : ℚ) (margin rightLength minimum : Nat) :
    scanUp leftLength thresholdPct margin rightLength minimum ≤ minimum := by
  induction margin generalizing rightLength minimum with
  | zero => exact Nat.zero_le _
  | succ margin induction =>
      rw [scanUp]
      split
      · exact (induction _ _).trans (Nat.min_le_left _ _)
      · exact le_rfl

/-- The scan stops at the first length that is too long, and all longer ones are too. -/
theorem scanUp_le_overlap (positive : 0 < leftLength)
    (reached : scale.lengthsCanReach leftLength wanted thresholdPct = true) (margin : Nat)
    (above : leftLength ≤ rightLength) (inside : rightLength ≤ wanted) (minimum : Nat) :
    scanUp leftLength thresholdPct margin rightLength minimum ≤
      scale.minimumMultisetOverlap leftLength wanted thresholdPct := by
  induction margin generalizing rightLength minimum with
  | zero => exact Nat.zero_le _
  | succ margin induction =>
      rw [scanUp, if_pos (lengthsCanReach_above positive above inside reached)]
      by_cases same : rightLength = wanted
      · rw [same]
        exact (scanUp_le _ _ _ _ _).trans (Nat.min_le_right _ _)
      · exact induction (by omega) (by omega) _

theorem minimumRequiredOverlap_le_length (leftLength : Nat) (thresholdPct : ℚ) :
    minimumRequiredOverlap leftLength thresholdPct ≤ leftLength := by
  unfold minimumRequiredOverlap
  split
  · exact Nat.zero_le _
  · exact (scanUp_le _ _ _ _ _).trans (scanDown_le _ _ _ _)

theorem minimumRequiredOverlap_le
    (reached : scale.lengthsCanReach leftLength rightLength thresholdPct = true) :
    minimumRequiredOverlap leftLength thresholdPct ≤
      scale.minimumMultisetOverlap leftLength rightLength thresholdPct := by
  unfold minimumRequiredOverlap
  split
  · exact Nat.zero_le _
  · next some =>
      by_cases shorter : rightLength ≤ leftLength
      · exact (scanUp_le _ _ _ _ _).trans (scanDown_le_overlap reached shorter le_rfl _)
      · exact scanUp_le_overlap (by omega) reached _ (by omega) (by omega) _

variable {text : Text} {dense : Nat}

theorem mem_denseTokens {vocabulary : List (Char × Nat)} :
    dense ∈ denseTokens vocabulary text ↔
      ∃ token ∈ occurrenceTokens text, vocabulary.idxOf? token = some dense :=
  mem_filterMap

theorem denseTokens_of_known {vocabulary : List (Char × Nat)}
    (known : ∀ token ∈ occurrenceTokens text, token ∈ vocabulary) :
    denseTokens vocabulary text = (occurrenceTokens text).map vocabulary.idxOf :=
  filterMap_eq_map_iff_forall_eq_some.mpr fun token member =>
    idxOf?_of_mem (known token member)

/-- The numbers of the tokens of a known name are common as often as its characters. -/
theorem length_common_denseTokens {vocabulary : List (Char × Nat)}
    (known : ∀ token ∈ occurrenceTokens text, token ∈ vocabulary) (other : Text) :
    ((denseTokens vocabulary text).filter fun dense =>
      decide (dense ∈ denseTokens vocabulary other)).length = multisetOverlap text other := by
  have common : ∀ token ∈ occurrenceTokens text,
      vocabulary.idxOf token ∈ denseTokens vocabulary other ↔
        token ∈ occurrenceTokens other := by
    intro token member
    rw [mem_denseTokens]
    constructor
    · intro found
      rcases found with ⟨partner, partnerMember, dense⟩
      rwa [eq_of_idxOf? (idxOf?_of_mem (known token member)) dense]
    · exact fun partner => ⟨token, partner, idxOf?_of_mem (known token member)⟩
  rw [denseTokens_of_known known, filter_map, length_map,
    ← Names.length_common_tokens]
  congr 1
  exact filter_congr fun token member => decide_eq_decide.mpr (common token member)

variable {features : NameFeatureStore} {seedNames : List NameValueId} {shardCount : Nat} {name :
  NameValueId}

theorem mem_vocabulary (member : name ∈ seedNames) {token : Char × Nat}
    (ofName : token ∈ occurrenceTokens (features.text name)) :
    token ∈ vocabulary features seedNames := by
  rw [vocabulary, mem_insertionSort, mem_dedup]
  exact mem_flatMap.mpr ⟨name, member, ofName⟩

variable {shard : Nat}

theorem mem_shardNames :
    name ∈ shardNames features shardCount shard ↔
      name < features.values.length ∧ ownerShard name shardCount = shard := by
  rw [shardNames, mem_filter, mem_range, decide_eq_true_eq]

theorem nodup_shardNames (shard : Nat) : (shardNames features shardCount shard).Nodup :=
  nodup_range.filter _

variable {token : Nat}

theorem mem_postingRow {vocabulary : List (Char × Nat)} {names : List NameValueId} :
    name ∈ postingRow features vocabulary names token ↔
      name ∈ names ∧ token ∈ denseTokens vocabulary (features.text name) := by
  simp [postingRow, mem_insertionSort]

theorem characters_build (name : NameValueId) :
    (build features seedNames shardCount).characters.row name = features.text name :=
  Rows.row_ofLists_getD features.values name

theorem sortedCharacters_build (name : NameValueId) :
    (build features seedNames shardCount).sortedCharacters.row name =
      (features.text name).insertionSort (· ≤ ·) := by
  refine (Rows.row_ofLists_getD _ name).trans ?_
  exact getD_map features.values [] fun text => text.insertionSort (· ≤ ·)

theorem members_build (inside : name < features.values.length) :
    (build features seedNames shardCount).members.row name = memberRow features name :=
  Rows.row_ofLists_range (memberRow features) inside

theorem mem_memberRow {contract : ContractId} :
    contract ∈ memberRow features name ↔
      features.contractNames[contract]? = some (some name) := by
  rw [memberRow, mem_filter, mem_range, decide_eq_true_eq]
  refine and_iff_right_of_imp fun named => ?_
  exact (List.getElem?_eq_some_iff.mp named).1

theorem nodup_memberRow (name : NameValueId) : (memberRow features name).Nodup :=
  nodup_range.filter _

theorem namesByShard_build (inside : shard < shardCount) :
    (build features seedNames shardCount).namesByShard.getD shard [] =
      shardNames features shardCount shard := by
  rw [build, getD_eq_getElem _ _ (by rw [length_map, length_range]; exact inside),
    getElem_map, getElem_range]

theorem shardPosting_build (inside : shard < shardCount)
    (known : token < (vocabulary features seedNames).length) :
    (build features seedNames shardCount).shardPosting shard token =
      postingRow features (vocabulary features seedNames)
        (shardNames features shardCount shard) token := by
  rw [shardPosting, build, getD_eq_getElem _ _ (by
    rw [length_map, length_map, length_range]; exact inside), getElem_map,
    getElem_map, getElem_range]
  exact Rows.row_ofLists_range _ known

variable {tokens : List Nat}

/-- An entry of the seed tokens is that of a seed name. -/
theorem lookup_seedTokens
    (found : (build features seedNames shardCount).seedTokens.lookup name = some tokens) :
    name ∈ seedNames ∧
      tokens = (denseTokens (vocabulary features seedNames) (features.text name)).insertionSort
        (· ≤ ·) := by
  rcases lookup_eq_some_iff.mp found with ⟨before, later, whole, _⟩
  have member : (name, tokens) ∈ (build features seedNames shardCount).seedTokens := by
    rw [whole]
    exact mem_append_right _ mem_cons_self
  rcases mem_map.mp member with ⟨seed, seedMember, entry⟩
  rcases Prod.mk.inj entry with ⟨same, sameTokens⟩
  rw [← same]
  exact ⟨seedMember, sameTokens.symm⟩

theorem mem_candidates_direct (inside : shard < shardCount) :
    name ∈ (build features seedNames shardCount).candidates shard .direct ↔
      name ∈ shardNames features shardCount shard := by
  rw [candidates, PreparedNameQuery.direct, if_pos rfl, namesByShard_build inside]

theorem mem_candidates_probe (inside : shard < shardCount)
    (known : ∀ token ∈ tokens, token < (vocabulary features seedNames).length) :
    name ∈ (build features seedNames shardCount).candidates shard ⟨tokens, false⟩ ↔
      name ∈ shardNames features shardCount shard ∧
        ∃ token ∈ tokens,
          token ∈ denseTokens (vocabulary features seedNames) (features.text name) := by
  rw [candidates, if_neg Bool.false_ne_true, mem_sortDedup, mem_flatMap]
  constructor
  · intro found
    rcases found with ⟨token, member, posted⟩
    rw [shardPosting_build inside (known token member), mem_postingRow] at posted
    exact ⟨posted.1, token, member, posted.2⟩
  · intro named
    rcases named with ⟨inShard, token, member, dense⟩
    refine ⟨token, member, ?_⟩
    rw [shardPosting_build inside (known token member), mem_postingRow]
    exact ⟨inShard, dense⟩

theorem nodup_candidates (inside : shard < shardCount) (query : PreparedNameQuery) :
    ((build features seedNames shardCount).candidates shard query).Nodup := by
  unfold candidates
  split
  · rw [namesByShard_build inside]
    exact nodup_shardNames shard
  · exact nodup_sortDedup _

theorem denseTokens_lt {vocabulary : List (Char × Nat)}
    (member : dense ∈ denseTokens vocabulary text) : dense < vocabulary.length := by
  rcases mem_denseTokens.mp member with ⟨token, _, found⟩
  exact (List.idxOf?_eq_some_iff.mp found).1

variable {seed : NameValueId} {threshold : ℚ}

/-- Every candidate of a shard is a name of the shard. -/
theorem mem_shardNames_of_candidate (inside : shard < shardCount)
    (member : name ∈ (build features seedNames shardCount).candidates shard
      ((build features seedNames shardCount).prepareQuery seed threshold)) :
    name ∈ shardNames features shardCount shard := by
  unfold prepareQuery at member
  split at member
  · exact (mem_candidates_direct inside).mp member
  · next tokens found =>
      dsimp only at member
      split at member
      · exact (mem_candidates_direct inside).mp member
      · split at member
        · exact (mem_candidates_direct inside).mp member
        · refine ((mem_candidates_probe inside fun token prefixToken => ?_).mp member).1
          have dense := mem_of_mem_take prefixToken
          rw [mem_insertionSort, (lookup_seedTokens found).2, mem_insertionSort] at dense
          exact denseTokens_lt dense

/-- As many of the rarest tokens as the query probes include one of every name that has enough
in common with the seed name. -/
theorem exists_prefix_token {vocabulary : List (Char × Nat)} {other : Text}
    (known : ∀ token ∈ occurrenceTokens text, token ∈ vocabulary) {rarest : List Nat}
    (sorted : rarest.Perm tokens) (ofText : tokens.Perm (denseTokens vocabulary text))
    {required : Nat} (positive : required ≠ 0) (limited : required ≤ tokens.length)
    (enough : required ≤ multisetOverlap text other) :
    ∃ token ∈ rarest.take (min (tokens.length - required + 1) tokens.length),
      token ∈ denseTokens vocabulary other := by
  have common : (rarest.filter fun dense =>
      decide (dense ∈ denseTokens vocabulary other)).length = multisetOverlap text other := by
    rw [← length_common_denseTokens known]
    exact ((sorted.trans ofText).filter _).length_eq
  have many : rarest.length <
      (rarest.take (min (tokens.length - required + 1) tokens.length)).length +
        (rarest.filter fun dense => decide (dense ∈ denseTokens vocabulary other)).length := by
    rw [common, length_take, sorted.length_eq]
    omega
  rcases Names.exists_mem_of_omitted _ (take_sublist _ rarest).subperm many with
    ⟨token, member, shared⟩
  exact ⟨token, member, of_decide_eq_true shared⟩

/-- A similar name is a candidate of the shard that owns it. -/
theorem mem_candidates_of_similar (inside : name < features.values.length)
    (positive : 0 < shardCount)
    (reached : scale.lengthsCanReach (features.text seed).length (features.text name).length
      (min (threshold * 100) 100) = true)
    (overlap : scale.minimumMultisetOverlap (features.text seed).length
      (features.text name).length (min (threshold * 100) 100) ≤
        multisetOverlap (features.text seed) (features.text name)) :
    name ∈ (build features seedNames shardCount).candidates (ownerShard name shardCount)
      ((build features seedNames shardCount).prepareQuery seed threshold) := by
  have shard := ownerShard_lt name positive
  have inShard : name ∈ shardNames features shardCount (ownerShard name shardCount) :=
    mem_shardNames.mpr ⟨inside, rfl⟩
  have direct : name ∈ (build features seedNames shardCount).candidates
      (ownerShard name shardCount) .direct :=
    (mem_candidates_direct shard).mpr inShard
  unfold prepareQuery
  split
  · exact direct
  · next tokens found =>
      have entry := lookup_seedTokens found
      have known : ∀ token ∈ occurrenceTokens (features.text seed),
          token ∈ vocabulary features seedNames := fun token => mem_vocabulary entry.1
      have ofText : tokens.Perm
          (denseTokens (vocabulary features seedNames) (features.text seed)) := by
        rw [entry.2]
        exact perm_insertionSort _ _
      have total : tokens.length = (features.text seed).length := by
        rw [ofText.length_eq, denseTokens_of_known known, length_map,
          Names.length_occurrenceTokens]
      dsimp only
      split
      · exact direct
      · split
        · exact direct
        · next required =>
            have least := minimumRequiredOverlap_le reached
            rw [← total] at least overlap
            have rarest := perm_insertionSort (fun left right =>
              (build features seedNames shardCount).tokenFrequency.getD left 0 ≤
                (build features seedNames shardCount).tokenFrequency.getD right 0) tokens
            rw [mem_candidates_probe shard fun token prefixToken => denseTokens_lt
              (ofText.mem_iff.mp (rarest.mem_iff.mp (mem_of_mem_take prefixToken)))]
            exact ⟨inShard, exists_prefix_token known rarest ofText required
              (minimumRequiredOverlap_le_length _ _) (least.trans overlap)⟩

end NameIndex

end NftData.Analysis
