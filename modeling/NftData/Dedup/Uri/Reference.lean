import NftData.Dedup.Entity.Reachable
import NftData.Dedup.Uri.Postings
import NftData.Dedup.Uri.Run

namespace NftData.Dedup

/-! # The reference definition of token URI duplicates

An NFT of a chain is a duplicate in a scope when its token URI also occurs at an owner
that counts for the scope: another contract of the chain, any other chain, or one given
other chain. -/

open List
open UriPosting (contractId nftIds uriId)

def IsPeer (kind : ScopeKind) (secondaryChain : Option Nat)
    (chain contract otherChain otherContract : Nat) : Prop :=
  match kind, secondaryChain with
  | .intraChain, none => otherChain = chain ∧ otherContract ≠ contract
  | .crossChainSummary, none => otherChain ≠ chain
  | .chainMatrix, some secondary => secondary ≠ chain ∧ otherChain = secondary
  | _, _ => False

instance (kind : ScopeKind) (secondaryChain : Option Nat)
    (chain contract otherChain otherContract : Nat) :
    Decidable (IsPeer kind secondaryChain chain contract otherChain otherContract) := by
  unfold IsPeer
  split <;> infer_instance

namespace EntityStore

/-- The NFT is a token URI duplicate in the scope. -/
def IsDuplicate (store : EntityStore) (key : ScopeKey) (nft : Nft) : Prop :=
  store.chainOfNft nft = some key.primaryChain ∧
    ∃ uri ∈ nft.tokenUriId, ∃ other ∈ store.nfts, uri ∈ other.tokenUriId ∧
      ∃ chain ∈ store.chainOfNft other,
        IsPeer key.kind key.secondaryChain key.primaryChain nft.contractId chain
          other.contractId

instance (store : EntityStore) (key : ScopeKey) (nft : Nft) :
    Decidable (store.IsDuplicate key nft) := by
  unfold IsDuplicate
  infer_instance

def duplicateNfts (store : EntityStore) (key : ScopeKey) : List Nft :=
  store.nfts.filter fun nft => store.IsDuplicate key nft

def duplicateContracts (store : EntityStore) (key : ScopeKey) : Finset Nat :=
  ((store.duplicateNfts key).map Nft.contractId).toFinset

end EntityStore

/-! ## Peers among postings -/

/-- Another posting of the URI counts in the scope. -/
def HasPeer (postings : List UriPosting) (key : ScopeKey) (posting : UriPosting) : Prop :=
  ∃ other ∈ postings, other.uriId = posting.uriId ∧
    IsPeer key.kind key.secondaryChain posting.chainId posting.contractId other.chainId
      other.contractId

instance (postings : List UriPosting) (key : ScopeKey) (posting : UriPosting) :
    Decidable (HasPeer postings key posting) := by
  unfold HasPeer
  infer_instance

theorem not_isPeer_self (kind : ScopeKind) (secondaryChain : Option Nat)
    (chain contract : Nat) : ¬ IsPeer kind secondaryChain chain contract chain contract := by
  unfold IsPeer
  split
  · exact fun both => both.2 rfl
  · exact fun other => other rfl
  · exact fun both => both.1 both.2.symm
  · exact id

theorem two_le_length_iff {α : Type} [DecidableEq α] {values : List α} (nodup : values.Nodup)
    {value : α} (member : value ∈ values) :
    2 ≤ values.length ↔ ∃ other ∈ values, other ≠ value := by
  rw [← toFinset_card_of_nodup nodup]
  constructor
  · intro several
    rcases Finset.exists_mem_ne several value with ⟨other, inside, different⟩
    exact ⟨other, mem_toFinset.mp inside, different⟩
  · rintro ⟨other, inside, different⟩
    exact Finset.one_lt_card.mpr
      ⟨other, mem_toFinset.mpr inside, value, mem_toFinset.mpr member, different⟩

variable {key : ScopeKey}

section Group

variable {members : List UriPosting} {posting : UriPosting}

theorem several_contracts_iff (distinct : (members.map contractId).Nodup)
    (member : posting ∈ members) :
    (2 ≤ members.countP fun other => other.chainId = posting.chainId) ↔
      ∃ other ∈ members, other.chainId = posting.chainId ∧
        other.contractId ≠ posting.contractId := by
  have ofChain : ((members.filter fun other => other.chainId = posting.chainId).map
      contractId).Nodup := distinct.sublist (filter_sublist.map _)
  have inside : posting.contractId ∈ (members.filter fun other =>
      other.chainId = posting.chainId).map contractId :=
    mem_map.mpr ⟨posting, mem_filter.mpr ⟨member, by simp⟩, rfl⟩
  have several := two_le_length_iff ofChain inside
  rw [length_map, ← countP_eq_length_filter] at several
  rw [several]
  constructor
  · rintro ⟨contract, found, different⟩
    rcases mem_map.mp found with ⟨other, selected, equal⟩
    rcases mem_filter.mp selected with ⟨inMembers, sameChain⟩
    exact ⟨other, inMembers, of_decide_eq_true sameChain, equal ▸ different⟩
  · rintro ⟨other, inMembers, sameChain, different⟩
    exact ⟨other.contractId, mem_map.mpr
      ⟨other, mem_filter.mpr ⟨inMembers, decide_eq_true sameChain⟩, rfl⟩, different⟩

theorem mem_groupChains {chain : Nat} :
    chain ∈ groupChains members ↔ ∃ other ∈ members, other.chainId = chain := by
  rw [groupChains, mem_dedup, mem_map]

theorem nodup_groupChains : (groupChains members).Nodup := nodup_dedup _

theorem several_chains_iff (member : posting ∈ members) :
    2 ≤ (groupChains members).length ↔
      ∃ other ∈ members, other.chainId ≠ posting.chainId := by
  rw [two_le_length_iff nodup_groupChains (mem_groupChains.mpr ⟨posting, member, rfl⟩)]
  constructor
  · rintro ⟨chain, inside, different⟩
    rcases mem_groupChains.mp inside with ⟨other, inMembers, equal⟩
    exact ⟨other, inMembers, equal ▸ different⟩
  · rintro ⟨other, inMembers, different⟩
    exact ⟨other.chainId, mem_groupChains.mpr ⟨other, inMembers, rfl⟩, different⟩

@[simp] theorem fst_tokenScope (posting : UriPosting) (kind : ScopeKind)
    (secondaryChain : Option Nat) :
    (tokenScope posting kind secondaryChain).1 =
      ⟨kind, posting.chainId, secondaryChain, .tokenUri⟩ := rfl

theorem filter_matrixScopes_of_ne (posting : UriPosting) (chains : List Nat)
    (different : ∀ secondary, ⟨.chainMatrix, posting.chainId, some secondary, .tokenUri⟩ ≠ key) :
    (chains.map fun secondary => tokenScope posting .chainMatrix (some secondary)).filter
      (fun entry => entry.1 = key) = [] := by
  rw [filter_eq_nil_iff]
  intro entry member isKey
  rcases mem_map.mp member with ⟨secondary, _, equal⟩
  subst equal
  exact different secondary (of_decide_eq_true isKey)

theorem filter_matrixScopes (posting : UriPosting) (chain : Nat) :
    ((TokenContributions.peers posting (groupChains members)).map fun secondary =>
        tokenScope posting .chainMatrix (some secondary)).filter
        (fun entry => entry.1 = ⟨.chainMatrix, posting.chainId, some chain, .tokenUri⟩) =
      if chain ≠ posting.chainId ∧ ∃ other ∈ members, other.chainId = chain then
        [tokenScope posting .chainMatrix (some chain)] else [] := by
  have selected : ((TokenContributions.peers posting (groupChains members)).filter
      fun secondary => decide (secondary = chain)) =
      if chain ≠ posting.chainId ∧ ∃ other ∈ members, other.chainId = chain then
        [chain] else [] := by
    rw [filter_eq, TokenContributions.peers, List.Nodup.count (nodup_groupChains.filter _)]
    by_cases known : chain ≠ posting.chainId ∧ ∃ other ∈ members, other.chainId = chain
    · rw [if_pos known, if_pos (mem_filter.mpr
        ⟨mem_groupChains.mpr known.2, decide_eq_true known.1⟩)]
      rfl
    · rw [if_neg known, if_neg]
      · rfl
      · intro inside
        rcases mem_filter.mp inside with ⟨inChains, different⟩
        exact known ⟨of_decide_eq_true different, mem_groupChains.mp inChains⟩
  rw [filter_map]
  have sameTest : ((fun entry : ScopeKey × ScopeAggregate =>
        decide (entry.1 = ⟨.chainMatrix, posting.chainId, some chain, .tokenUri⟩)) ∘
      fun secondary => tokenScope posting .chainMatrix (some secondary)) =
      fun secondary => decide (secondary = chain) := by
    funext secondary
    simp [tokenScope, LocalUriAccumulator.contribution, eq_comm]
  rw [sameTest, selected]
  split <;> rfl

/-- All scopes of a posting are token scopes of its chain. -/
theorem key_of_mem_postingScopes {entry : ScopeKey × ScopeAggregate}
    (member : entry ∈ postingScopes members posting) :
    entry.1.dimension = .tokenUri ∧ entry.1.primaryChain = posting.chainId := by
  rcases mem_append.mp member with intra | other
  · split at intra
    · rw [mem_singleton.mp intra]
      exact ⟨rfl, rfl⟩
    · cases intra
  · split at other
    · rcases mem_cons.mp other with isCross | isMatrix
      · rw [isCross]
        exact ⟨rfl, rfl⟩
      · rcases mem_map.mp isMatrix with ⟨chain, _, equal⟩
        rw [← equal]
        exact ⟨rfl, rfl⟩
    · cases other

/-- In each scope of its chain a posting contributes exactly when it has a peer. -/
theorem filter_postingScopes (distinct : (members.map contractId).Nodup)
    (oneUri : ∀ other ∈ members, other.uriId = posting.uriId) (member : posting ∈ members)
    (key : ScopeKey) :
    (postingScopes members posting).filter (fun entry => entry.1 = key) =
      if key.dimension = .tokenUri ∧ posting.chainId = key.primaryChain ∧
          HasPeer members key posting then
        [tokenScope posting key.kind key.secondaryChain] else [] := by
  have peers : HasPeer members key posting ↔ ∃ other ∈ members,
      IsPeer key.kind key.secondaryChain posting.chainId posting.contractId other.chainId
        other.contractId := by
    constructor
    · rintro ⟨other, inside, _, isPeer⟩
      exact ⟨other, inside, isPeer⟩
    · rintro ⟨other, inside, isPeer⟩
      exact ⟨other, inside, oneUri other inside, isPeer⟩
  by_cases ofChain : key.dimension = .tokenUri ∧ posting.chainId = key.primaryChain
  · rcases key with ⟨kind, primary, secondary, dimension⟩
    rcases ofChain with ⟨isToken, isPrimary⟩
    simp only at isToken isPrimary peers
    subst isToken isPrimary
    simp only [peers, postingScopes, filter_append, true_and,
      several_contracts_iff distinct member, several_chains_iff member]
    simp only [apply_ite (List.filter _), filter_cons, filter_nil, fst_tokenScope]
    cases kind with
    | intraChain =>
        rw [filter_matrixScopes_of_ne posting _ (by simp)]
        cases secondary with
        | none =>
            simp only [IsPeer, reduceCtorEq, ScopeKey.mk.injEq, decide_true, decide_false,
              false_and, and_self, if_true, ite_self, append_nil, Bool.false_eq_true,
              if_false]
            exact if_congr Iff.rfl rfl rfl
        | some chain => simp [IsPeer]
    | crossChainSummary =>
        rw [filter_matrixScopes_of_ne posting _ (by simp)]
        cases secondary with
        | none =>
            simp only [IsPeer, reduceCtorEq, ScopeKey.mk.injEq, decide_true, decide_false,
              false_and, and_self, if_true, ite_self, nil_append, Bool.false_eq_true,
              if_false]
            exact if_congr Iff.rfl rfl rfl
        | some chain => simp [IsPeer]
    | chainMatrix =>
        cases secondary with
        | none =>
            rw [filter_matrixScopes_of_ne posting _ (by simp)]
            simp [IsPeer]
        | some chain =>
            rw [filter_matrixScopes]
            simp only [IsPeer, reduceCtorEq, ScopeKey.mk.injEq, decide_false, false_and,
              ite_self, nil_append, Bool.false_eq_true, if_false, ← ite_and]
            apply if_congr _ rfl rfl
            constructor
            · rintro ⟨_, different, other, inside, isChain⟩
              exact ⟨other, inside, different, isChain⟩
            · rintro ⟨other, inside, different, isChain⟩
              exact ⟨⟨other, inside, isChain ▸ different⟩, different, other, inside, isChain⟩
  · rw [if_neg fun both => ofChain ⟨both.1, both.2.1⟩, filter_eq_nil_iff]
    intro entry inside isKey
    have facts := key_of_mem_postingScopes inside
    rw [of_decide_eq_true isKey] at facts
    exact ofChain ⟨facts.1, facts.2.symm⟩

end Group

/-! ## The hits of a run -/

theorem flatMap_if {α β : Type} (condition : α → Prop) [DecidablePred condition]
    (change : α → β) (values : List α) :
    (values.flatMap fun value => if condition value then [change value] else []) =
      (values.filter condition).map change := by
  induction values with
  | nil => rfl
  | cons head tail induction =>
      rw [flatMap_cons, induction, filter_cons]
      by_cases holds : condition head
      · simp [holds]
      · simp [holds]

def scopeHits (postings : List UriPosting) (key : ScopeKey) : List UriPosting :=
  postings.filter fun posting => key.dimension = .tokenUri ∧
    posting.chainId = key.primaryChain ∧ HasPeer postings key posting

section Postings

variable {store : EntityStore} {postings : List UriPosting}
  (isPostings : IsPostings store true postings)

include isPostings

variable {members : List UriPosting}

theorem eq_filter_of_mem_uriGroups (member : members ∈ uriGroups postings) :
    ∃ uri, members = postings.filter fun posting => posting.uriId = uri := by
  have sorted : postings.Pairwise fun left right => left.uriId ≤ right.uriId :=
    pairwise_map.mp isPostings.sorted
  have distinct : ((runs uriId postings).map Prod.fst).Nodup :=
    (keys_runs_sorted sorted).imp fun less => ne_of_lt less
  rcases mem_map.mp member with ⟨run, inRuns, equal⟩
  exact ⟨run.1, equal ▸ run_eq_filter distinct inRuns⟩

/-- What a group contributes to a scope. -/
theorem filter_group (member : members ∈ uriGroups postings) (key : ScopeKey) :
    (groupScopes members).filter (fun entry => entry.1 = key) =
      (members.filter fun posting => key.dimension = .tokenUri ∧
          posting.chainId = key.primaryChain ∧ HasPeer postings key posting).map
        fun posting => tokenScope posting key.kind key.secondaryChain := by
  rcases eq_filter_of_mem_uriGroups isPostings member with ⟨uri, isGroup⟩
  have oneUri : ∀ posting ∈ members, posting.uriId = uri := by
    intro posting inside
    rw [isGroup] at inside
    exact of_decide_eq_true (mem_filter.mp inside).2
  have peers : ∀ posting ∈ members, HasPeer postings key posting ↔
      HasPeer members key posting := by
    intro posting inside
    constructor
    · rintro ⟨other, inPostings, sameUri, isPeer⟩
      refine ⟨other, ?_, sameUri, isPeer⟩
      rw [isGroup]
      exact mem_filter.mpr
        ⟨inPostings, decide_eq_true (sameUri.trans (oneUri posting inside))⟩
    · rintro ⟨other, inMembers, sameUri, isPeer⟩
      rw [isGroup] at inMembers
      exact ⟨other, mem_of_mem_filter inMembers, sameUri, isPeer⟩
  have distinct : (members.map contractId).Nodup := by
    have pairs : (members.map fun posting => (posting.uriId, posting.contractId)).Nodup := by
      rw [isGroup]
      exact isPostings.nodup.sublist (filter_sublist.map _)
    have same : (members.map fun posting => (posting.uriId, posting.contractId)) =
        (members.map contractId).map fun contract => (uri, contract) := by
      rw [map_map]
      apply map_congr_left
      intro posting inside
      rw [oneUri posting inside]
      rfl
    rw [same] at pairs
    exact pairs.of_map _
  by_cases several : 2 ≤ members.length
  · rw [groupScopes, if_pos several, filter_flatMap, ← flatMap_if]
    apply flatMap_congr
    intro posting inside
    have sameUri : ∀ other ∈ members, other.uriId = posting.uriId := fun other inMembers =>
      (oneUri other inMembers).trans (oneUri posting inside).symm
    rw [filter_postingScopes distinct sameUri inside key]
    exact if_congr (by rw [peers posting inside]) rfl rfl
  · rw [groupScopes, if_neg several, filter_nil]
    symm
    rw [map_eq_nil_iff, filter_eq_nil_iff]
    intro posting inside holds
    rcases (peers posting inside).mp (of_decide_eq_true holds).2.2 with
      ⟨other, inMembers, _, isPeer⟩
    have same : other = posting := by
      have positive := length_pos_of_mem inside
      rcases length_eq_one_iff.mp (show members.length = 1 by omega) with ⟨only, isOnly⟩
      rw [isOnly, mem_singleton] at inside inMembers
      rw [inside, inMembers]
    rw [same] at isPeer
    exact not_isPeer_self _ _ _ _ isPeer

theorem filter_groups (key : ScopeKey) :
    ((uriGroups postings).flatMap groupScopes).filter (fun entry => entry.1 = key) =
      (scopeHits postings key).map fun posting =>
        tokenScope posting key.kind key.secondaryChain := by
  rw [filter_flatMap, scopeHits]
  conv_rhs => rw [← runs_flatMap uriId postings]
  rw [filter_flatMap, map_flatMap, uriGroups, flatMap_map]
  apply flatMap_congr
  intro run inRuns
  have group := filter_group isPostings (mem_map.mpr ⟨run, inRuns, rfl⟩) key
  rw [group]
  rw [runs_flatMap]

omit isPostings in
theorem contracts_of_hits (hits : List UriPosting) (kind : ScopeKind)
    (secondaryChain : Option Nat) :
    ((hits.map fun posting => tokenScope posting kind secondaryChain).map
        fun entry => entry.2.contracts).foldr (· ∪ ·) ∅ =
      (hits.map contractId).toFinset := by
  induction hits with
  | nil => rfl
  | cons head tail induction =>
      rw [map_cons, map_cons, foldr_cons, induction, map_cons,
        toFinset_cons]
      rfl

/-- What the token stage counts in a scope. -/
theorem tokenStage_apply (execution : UriExecution)
    (built : store.tokenUriPostings = postings)
    (few : store.chains.length ≤ compactChains →
      ∀ posting ∈ postings, posting.chainId < compactChains) (key : ScopeKey) :
    (tokenStage execution store).uri key =
      if scopeHits postings key = [] then none
      else some
        { contracts := ((scopeHits postings key).map contractId).toFinset
          nftRows := .ofNat _ (((scopeHits postings key).map
            fun posting => posting.nftIds.length).sum) } := by
  have perm : (tokenContributions execution.iteration store).uri.Perm
      ((uriGroups postings).flatMap groupScopes) := by
    rw [tokenContributions, TokenContributions.uri_gather_map, built]
    apply List.Perm.flatMap_left
    intro members isGroup
    apply TokenContributions.uri_ofGroup_perm
    intro compact posting inside
    rcases eq_filter_of_mem_uriGroups isPostings isGroup with ⟨uri, equal⟩
    rw [equal] at inside
    exact few (of_decide_eq_true compact) posting (mem_of_mem_filter inside)
  have collected : (tokenStage execution store).uri =
      .collect ((uriGroups postings).flatMap groupScopes) := by
    rw [tokenStage_eq, TokenWorker.apply, LocalUriAccumulator.collect_perm perm]
    exact LocalUriAccumulator.empty_merge _
  have rows : (((scopeHits postings key).map fun posting => posting.nftIds.length).map
      (Saturating.ofNat u64Max)).sum = _ := Saturating.sum_ofNat _
  rw [collected, LocalUriAccumulator.collect_apply, filter_groups isPostings key,
    contracts_of_hits, map_map, ← rows, map_map]
  exact if_congr map_eq_nil_iff rfl rfl

/-- The NFTs of the hits are the duplicates. -/
theorem mem_hits_iff (key : ScopeKey) (isToken : key.dimension = .tokenUri) (nft : Nft)
    (posting : UriPosting) (inPostings : posting ∈ postings)
    (isUri : nft.tokenUriId = some posting.uriId)
    (isContract : nft.contractId = posting.contractId) :
    posting ∈ scopeHits postings key ↔ store.IsDuplicate key nft := by
  have chainOf : ∀ other : Nft, ∀ peer ∈ postings, other.contractId = peer.contractId →
      store.chainOfNft other = some peer.chainId := by
    intro other peer inside same
    rw [EntityStore.chainOfNft, same]
    exact isPostings.chain peer inside
  rw [scopeHits, mem_filter, decide_eq_true_eq, EntityStore.IsDuplicate,
    chainOf nft posting inPostings isContract, Option.some.injEq]
  constructor
  · rintro ⟨_, _, isPrimary, other, inside, sameUri, isPeer⟩
    rcases exists_mem_of_ne_nil _ (isPostings.nonempty other inside) with ⟨id, inIds⟩
    rcases (isPostings.mem_nftIds other inside id).mp inIds with
      ⟨otherNft, inNfts, _, otherUri, otherContract⟩
    refine ⟨isPrimary, posting.uriId, isUri, otherNft, inNfts, sameUri ▸ otherUri,
      other.chainId, chainOf otherNft other inside otherContract, ?_⟩
    rw [← isPrimary, isContract, otherContract]
    exact isPeer
  · rintro ⟨isPrimary, uri, hasUri, otherNft, inNfts, otherUri, chain, isChain, isPeer⟩
    rcases isPostings.complete otherNft inNfts uri otherUri with
      ⟨other, inside, sameUri, sameContract⟩
    rw [Option.mem_def, chainOf otherNft other inside sameContract.symm] at isChain
    refine ⟨inPostings, isToken, isPrimary, other, inside, ?_, ?_⟩
    · rw [sameUri]
      exact Option.some.inj (hasUri.symm.trans isUri)
    · rw [isPrimary, ← isContract, Option.some.inj isChain, sameContract]
      exact isPeer

theorem nfts_of_hits_perm (valid : store.Valid) (key : ScopeKey)
    (isToken : key.dimension = .tokenUri) :
    ((scopeHits postings key).flatMap nftIds).Perm
      ((store.duplicateNfts key).map Nft.id) := by
  have hitsNodup : ((scopeHits postings key).flatMap nftIds).Nodup :=
    isPostings.ids_nodup.sublist (filter_sublist.flatMap _)
  have idsNodup : (store.nfts.map Nft.id).Nodup := map_id_nfts valid ▸ nodup_range
  apply (perm_ext_iff_of_nodup hitsNodup
    (idsNodup.sublist (filter_sublist.map _))).mpr
  intro id
  rw [mem_flatMap, mem_map]
  constructor
  · rintro ⟨posting, isHit, inIds⟩
    have inPostings := mem_of_mem_filter isHit
    rcases (isPostings.mem_nftIds posting inPostings id).mp inIds with
      ⟨nft, member, isId, isUri, isContract⟩
    refine ⟨nft, mem_filter.mpr ⟨member, decide_eq_true ?_⟩, isId⟩
    exact (mem_hits_iff isPostings key isToken nft posting inPostings isUri
      isContract).mp isHit
  · rintro ⟨nft, isDuplicate, isId⟩
    rcases mem_filter.mp isDuplicate with ⟨member, holds⟩
    have duplicate := of_decide_eq_true holds
    rcases duplicate.2 with ⟨uri, isUri, _⟩
    rcases isPostings.complete nft member uri isUri with
      ⟨posting, inPostings, sameUri, sameContract⟩
    have hasUri : nft.tokenUriId = some posting.uriId := sameUri ▸ isUri
    refine ⟨posting, (mem_hits_iff isPostings key isToken nft posting inPostings hasUri
      sameContract.symm).mpr duplicate, ?_⟩
    exact (isPostings.mem_nftIds posting inPostings id).mpr
      ⟨nft, member, isId, hasUri, sameContract.symm⟩

theorem contracts_of_hits_eq (key : ScopeKey) (isToken : key.dimension = .tokenUri) :
    ((scopeHits postings key).map contractId).toFinset =
      store.duplicateContracts key := by
  ext contract
  rw [EntityStore.duplicateContracts, mem_toFinset, mem_toFinset, mem_map,
    mem_map]
  constructor
  · rintro ⟨posting, isHit, equal⟩
    have inPostings := mem_of_mem_filter isHit
    rcases exists_mem_of_ne_nil _ (isPostings.nonempty posting inPostings) with
      ⟨id, inIds⟩
    rcases (isPostings.mem_nftIds posting inPostings id).mp inIds with
      ⟨nft, member, _, isUri, isContract⟩
    refine ⟨nft, mem_filter.mpr ⟨member, decide_eq_true ?_⟩, isContract.trans equal⟩
    exact (mem_hits_iff isPostings key isToken nft posting inPostings isUri
      isContract).mp isHit
  · rintro ⟨nft, isDuplicate, equal⟩
    rcases mem_filter.mp isDuplicate with ⟨member, holds⟩
    have duplicate := of_decide_eq_true holds
    rcases duplicate.2 with ⟨uri, isUri, _⟩
    rcases isPostings.complete nft member uri isUri with
      ⟨posting, inPostings, sameUri, sameContract⟩
    have hasUri : nft.tokenUriId = some posting.uriId := sameUri ▸ isUri
    exact ⟨posting, (mem_hits_iff isPostings key isToken nft posting inPostings hasUri
      sameContract.symm).mpr duplicate, sameContract.trans equal⟩

end Postings

/-! ## The counts of a run -/

def ScopeCounts.values (counts : ScopeCounts) : Nat × Nat :=
  (counts.duplicateContractCount.1, counts.duplicateNftCount.1)

theorem imageStage_tokenScope (execution : UriExecution) (store : EntityStore) (keep : ScopeFilters)
    (isToken : key.dimension = .tokenUri) :
    imageStage execution store keep key = none := by
  rw [imageStage_eq]
  have adds := LocalUriAccumulator.Adds.foldl
    (fun members => accumulateImageScopeHits_adds execution.iteration store.chains.length keep
      members) (uriGroups store.imageUriPostings)
  exact adds.apply_of_ne .empty (by simp [isToken])

theorem flush_of_none {accumulator : LocalUriAccumulator} (missing : accumulator key = none)
    (summary : SummaryAccumulator) (dimension : Dimension) :
    (accumulator.flush summary dimension).counts key = summary.counts key := by
  rw [LocalUriAccumulator.flush, SummaryAccumulator.mergeCompletedDimensionCounts]
  split
  · rfl
  · simp only [SummaryAccumulator.mergeUniqueContractCounts, missing, Option.map_none]

/-- A fresh summary holds what the token stage has counted. -/
theorem runUri_tokenScope (execution : UriExecution) (store : EntityStore)
    (isToken : key.dimension = .tokenUri) :
    ((runUri execution store .default).counts key).map ScopeCounts.values =
      ((tokenStage execution store).uri key).map fun aggregate =>
        (min aggregate.contracts.card u64Max, aggregate.nftRows.1) := by
  rw [runUri, flush_of_none (imageStage_tokenScope execution store _ isToken),
    LocalUriAccumulator.flush, SummaryAccumulator.mergeCompletedDimensionCounts,
    if_neg (by simp [SummaryAccumulator.default])]
  simp only [SummaryAccumulator.mergeUniqueContractCounts, SummaryAccumulator.default]
  cases counted : (tokenStage execution store).uri key with
  | none => rfl
  | some aggregate =>
      simp only [Option.map_some, Option.getD_none, zero_add]
      rfl

/-- After a run on a fresh summary, every token URI scope counts the duplicates of the
reference definition; a scope without duplicates has no counts. How the run is executed
makes no difference, and another run changes nothing. -/
theorem runUri_reference {canonicalizeJsonStrict : Canonicalizer} {store : EntityStore}
    (reachable : EntityStore.Reachable canonicalizeJsonStrict store) :
    ∃ prepared, store.rebuildUriPostings = .ok prepared ∧
      (∀ execution key, key.dimension = .tokenUri →
        ((runUri execution prepared .default).counts key).map ScopeCounts.values =
          if store.duplicateNfts key = [] then none
          else some ((store.duplicateContracts key).card, (store.duplicateNfts key).length)) ∧
      (∀ first second accumulator,
        runUri first prepared accumulator = runUri second prepared accumulator) ∧
      ∀ first second accumulator,
        runUri second prepared (runUri first prepared accumulator) =
          runUri first prepared accumulator := by
  have valid := EntityStore.valid_of_reachable reachable
  have builds : ∀ tokenDimension, ∃ postings,
      buildUriPostings store.contracts store.nfts tokenDimension = .ok postings :=
    fun tokenDimension => ⟨_, buildUriPostings_eq tokenDimension valid⟩
  rcases builds true with ⟨tokenPostings, tokenBuilt⟩
  rcases builds false with ⟨imagePostings, imageBuilt⟩
  have isPostings := isPostings_buildUriPostings true valid tokenBuilt
  refine ⟨{ store with
      tokenUriPostings := tokenPostings
      imageUriPostings := imagePostings }, ?_, ?_, fun first second => runUri_unique first second _,
    fun first second => runUri_again first second _⟩
  · rw [EntityStore.rebuildUriPostings, tokenBuilt, ok_bind, imageBuilt, ok_bind]
  · intro execution key isToken
    have few : store.chains.length ≤ compactChains →
        ∀ posting ∈ tokenPostings, posting.chainId < compactChains := by
      intro atMost posting member
      rcases Option.map_eq_some_iff.mp (isPostings.chain posting member) with
        ⟨contract, found, isChain⟩
      rw [← isChain]
      exact (valid.contractChains contract (mem_of_getElem? found)).trans_le atMost
    have counted := tokenStage_apply (isPostings.withPostings tokenPostings imagePostings)
      execution rfl few key
    have nfts := nfts_of_hits_perm isPostings valid key isToken
    have count := nfts.length_eq
    rw [length_flatMap, length_map] at count
    rw [runUri_tokenScope execution _ isToken, counted]
    by_cases none : scopeHits tokenPostings key = []
    · rw [if_pos none, if_pos]
      · rfl
      · rw [none] at nfts
        simpa using nfts.symm.eq_nil
    · have fits : (store.duplicateNfts key).length ≤ u64Max := by
        have atMost : (store.duplicateNfts key).length ≤ store.nfts.length :=
          length_filter_le ..
        exact (atMost.trans valid.nftCapacity).trans (by decide)
      have contractsFit : (store.duplicateContracts key).card ≤ u64Max := by
        apply (toFinset_card_le _).trans
        rw [length_map]
        exact fits
      rw [if_neg none, if_neg, contracts_of_hits_eq isPostings key isToken, count]
      · simp only [Option.map_some, Saturating.val_ofNat, Nat.min_eq_left fits,
          Nat.min_eq_left contractsFit]
      · intro noDuplicates
        rw [noDuplicates] at nfts
        have noNfts : (scopeHits tokenPostings key).flatMap nftIds = [] := nfts.eq_nil
        rcases exists_mem_of_ne_nil _ none with ⟨posting, isHit⟩
        exact isPostings.nonempty posting (mem_of_mem_filter isHit)
          (flatMap_eq_nil_iff.mp noNfts posting isHit)

def uriRow (contractAddress : String) (fileRowNumber : Nat) : InputRow :=
  ⟨"ethereum".toList, contractAddress.toList, "1".toList, [], "ipfs://x".toList, [], [],
    ⟨0, fileRowNumber⟩⟩

/-- Two contracts of one chain share a token URI. -/
theorem runUri_reference_two_contracts :
    ∃ store prepared,
      (EntityStore.withOptions none ∅).tryIngestRow some (uriRow "0xa" 0) >>=
          (fun first => first.tryIngestRow some (uriRow "0xb" 1)) = .ok store ∧
        store.rebuildUriPostings = .ok prepared ∧
        ∀ execution, ((runUri execution prepared .default).counts
          ⟨.intraChain, 0, none, .tokenUri⟩).map ScopeCounts.values = some (2, 2) := by
  have loaded : ∃ first store,
      (EntityStore.withOptions none ∅).tryIngestRow some (uriRow "0xa" 0) = .ok first ∧
        first.tryIngestRow some (uriRow "0xb" 1) = .ok store ∧
        (store.duplicateNfts ⟨.intraChain, 0, none, .tokenUri⟩).length = 2 ∧
        (store.duplicateContracts ⟨.intraChain, 0, none, .tokenUri⟩).card = 2 :=
    ⟨_, _, rfl, rfl, by decide, by decide⟩
  rcases loaded with ⟨first, store, firstOk, storeOk, nfts, contracts⟩
  rcases runUri_reference (.ingested (.ingested (.empty _ _) firstOk) storeOk) with
    ⟨prepared, built, counts, _⟩
  refine ⟨store, prepared, ?_, built, ?_⟩
  · rw [firstOk, ok_bind, storeOk]
  · intro execution
    rw [counts execution _ rfl, contracts, nfts, if_neg]
    intro none
    rw [none] at nfts
    cases nfts

end NftData.Dedup
