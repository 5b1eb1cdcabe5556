import NftData.Dedup.Uri.CompactTables

namespace NftData.Dedup

/-! # Compact and wide groups

Up to 64 chains, the hits of a group can be kept as masks or as pairs. Both branches count
the same. -/

open List
open Saturating (ofNat)
open GroupScopeAggregate (ofChain)
open LocalUriAccumulator

section Aggregates

variable {members : List UriPosting} {chain : Nat} {keep : Nat → Bool}

def chainPostings (members : List UriPosting) (chain : Nat) : List UriPosting :=
  members.filter fun posting => posting.chainId = chain

theorem chainPostings_concat (members : List UriPosting) (posting : UriPosting) (chain : Nat) :
    chainPostings (members ++ [posting]) chain =
      chainPostings members chain ++ if posting.chainId = chain then [posting] else [] := by
  rw [chainPostings, filter_append]
  by_cases own : posting.chainId = chain
  · rw [if_pos own, filter_cons_of_pos (by simpa using own), filter_nil]
    rfl
  · rw [if_neg own, filter_cons_of_neg (by simpa using own), filter_nil]
    rfl

theorem filteredPostingCounts_append (first second : List UriPosting) (keep : Nat → Bool) :
    filteredPostingCounts (first ++ second) keep =
      filteredPostingCounts first keep ++ filteredPostingCounts second keep :=
  filterMap_append ..

theorem filteredPostingCounts_singleton (posting : UriPosting) (keep : Nat → Bool) :
    filteredPostingCounts [posting] keep =
      if posting.nftIds.countP keep ≠ 0 then [(posting, posting.nftIds.countP keep)] else [] := by
  rw [filteredPostingCounts, filterMap_cons, filterMap_nil]
  split
  · next none =>
      split at none
      · cases none
      · next zero => rw [if_neg zero]
  · next some =>
      split at some
      · next positive =>
          rw [if_pos positive, ← Option.some.inj some]
      · cases some

theorem mem_filteredPostingCounts {postings : List UriPosting} {entry : UriPosting × Nat} :
    entry ∈ filteredPostingCounts postings keep ↔
      entry.1 ∈ postings ∧ entry.2 = entry.1.nftIds.countP keep ∧ entry.2 ≠ 0 := by
  rw [filteredPostingCounts, mem_filterMap]
  constructor
  · rintro ⟨posting, member, isEntry⟩
    split at isEntry
    · next positive =>
        cases isEntry
        exact ⟨member, rfl, positive⟩
    · cases isEntry
  · rintro ⟨member, count, positive⟩
    rw [count] at positive
    exact ⟨entry.1, member, by rw [if_pos positive, ← count]⟩

/-- The aggregate of a chain gathers its postings with NFTs that count. -/
theorem ofChain_eq (members : List UriPosting) (chain : Nat) (keep : Nat → Bool) :
    ofChain members chain keep =
      { contracts := (filteredPostingCounts (chainPostings members chain) keep).map
          fun entry => entry.1.contractId
        nftRows := ((filteredPostingCounts (chainPostings members chain) keep).map
          fun entry => ofNat u64Max entry.2).sum
        postingCount := (filteredPostingCounts (chainPostings members chain) keep).length } := by
  induction members using List.reverseRecOn with
  | nil => rfl
  | append_singleton members posting induction =>
      rw [CompactTables.ofChain_concat, induction, chainPostings_concat,
        filteredPostingCounts_append]
      by_cases own : posting.chainId = chain
      · rw [if_pos own, if_pos own, filteredPostingCounts_singleton,
          GroupScopeAggregate.addPosting]
        by_cases zero : posting.nftIds.countP keep = 0
        · rw [if_pos zero, if_neg (not_not_intro zero), append_nil]
        · rw [if_neg zero, if_pos zero]
          simp
      · rw [if_neg own, if_neg own]
        simp [filteredPostingCounts]

theorem postingCount_ofChain (members : List UriPosting) (chain : Nat) (keep : Nat → Bool) :
    (ofChain members chain keep).postingCount =
      (filteredPostingCounts (chainPostings members chain) keep).length := by
  rw [ofChain_eq]

/-- A sum of positive counters is not zero. -/
theorem sum_ofNat_eq_zero_iff {counts : List (UriPosting × Nat)}
    (positive : ∀ entry ∈ counts, entry.2 ≠ 0) :
    (counts.map fun entry => ofNat u64Max entry.2).sum = 0 ↔ counts = [] := by
  have sum : (counts.map fun entry => ofNat u64Max entry.2).sum =
      ofNat u64Max (counts.map Prod.snd).sum := by
    rw [← Saturating.sum_ofNat, map_map]
    rfl
  rw [sum]
  constructor
  · intro zero
    cases counts with
    | nil => rfl
    | cons head tail =>
        have headPositive := positive head mem_cons_self
        have value := congrArg (fun rows : Saturating u64Max => rows.1) zero
        simp only [map_cons, sum_cons, Saturating.val_ofNat, Saturating.val_zero,
          u64Max] at value
        omega
  · rintro rfl
    rfl

theorem nftRows_ofChain (members : List UriPosting) (chain : Nat) (keep : Nat → Bool) :
    (ofChain members chain keep).nftRows = 0 ↔
      filteredPostingCounts (chainPostings members chain) keep = [] := by
  rw [ofChain_eq]
  exact sum_ofNat_eq_zero_iff fun entry member => (mem_filteredPostingCounts.mp member).2.2

theorem filteredPostingCounts_eq_nil {postings : List UriPosting} :
    filteredPostingCounts postings keep = [] ↔
      (postings.any fun posting => posting.nftIds.any keep) = false := by
  rw [eq_nil_iff_forall_not_mem, any_eq_false]
  constructor
  · intro none posting member holds
    rcases any_eq_true.mp holds with ⟨nft, inIds, kept⟩
    have positive : posting.nftIds.countP keep ≠ 0 :=
      (countP_pos_iff.mpr ⟨nft, inIds, kept⟩).ne'
    exact none (posting, _) (mem_filteredPostingCounts.mpr ⟨member, rfl, positive⟩)
  · intro none entry member
    have facts := mem_filteredPostingCounts.mp member
    have positive := Nat.pos_of_ne_zero (facts.2.1 ▸ facts.2.2)
    rcases countP_pos_iff.mp positive with ⟨nft, inIds, kept⟩
    exact none entry.1 facts.1 (any_eq_true.mpr ⟨nft, inIds, kept⟩)

theorem entry_self (accumulator : LocalUriAccumulator) (key : ScopeKey)
    (change : ScopeAggregate → ScopeAggregate) :
    accumulator.entry key change key = some (change ((accumulator key).getD .default)) :=
  Function.update_self ..

theorem entry_of_ne (accumulator : LocalUriAccumulator) {key other : ScopeKey}
    (different : other ≠ key) (change : ScopeAggregate → ScopeAggregate) :
    accumulator.entry key change other = accumulator other :=
  Function.update_of_ne different ..

theorem entry_entry (accumulator : LocalUriAccumulator) (key : ScopeKey)
    (first second : ScopeAggregate → ScopeAggregate) :
    (accumulator.entry key first).entry key second =
      accumulator.entry key fun target => second (first target) := by
  funext other
  by_cases same : other = key
  · rw [same, entry_self, entry_self, entry_self, Option.getD_some]
  · rw [entry_of_ne _ same, entry_of_ne _ same, entry_of_ne _ same]

/-- Adding counts of postings of one chain adds their contracts and their sum. -/
theorem addImages_eq_addGroup {counts : List (UriPosting × Nat)}
    (positive : ∀ entry ∈ counts, entry.2 ≠ 0) (own : ∀ entry ∈ counts, entry.1.chainId = chain)
    (kind : ScopeKind) (secondaryChain : Option Nat) (output : LocalUriAccumulator) :
    output.addImages counts kind secondaryChain =
      output.addGroup chain (counts.map fun entry => entry.1.contractId)
        (counts.map fun entry => ofNat u64Max entry.2).sum .imageUri kind
        secondaryChain := by
  induction counts using List.reverseRecOn with
  | nil => exact (if_pos rfl).symm
  | append_singleton counts entry induction =>
      have earlier := induction
        (fun other member => positive other (mem_append_left _ member))
        fun other member => own other (mem_append_left _ member)
      have last : entry ∈ counts ++ [entry] := mem_append_right _ mem_cons_self
      have isOwn := own entry last
      have isPositive := positive entry last
      have notZero : ((counts ++ [entry]).map
          fun entry => ofNat u64Max entry.2).sum ≠ 0 := by
        rw [Ne, sum_ofNat_eq_zero_iff positive]
        simp
      have added : output.addImages (counts ++ [entry]) kind secondaryChain =
          (output.addImages counts kind secondaryChain).add entry.1 entry.2 .imageUri kind
            secondaryChain := by
        rw [addImages, List.foldl_append]
        rfl
      rw [added, earlier, addGroup, addGroup, if_neg notZero, LocalUriAccumulator.add, isOwn]
      by_cases first : counts = []
      · subst first
        have nothing : (([] : List (UriPosting × Nat)).map
            fun entry => ofNat u64Max entry.2).sum = 0 := rfl
        rw [if_pos nothing]
        congr 1
        funext target
        apply ScopeAggregate.ext
        · ext contract
          simp
        · simp
      · rw [if_neg fun zero => first ((sum_ofNat_eq_zero_iff fun other member =>
          positive other (mem_append_left _ member)).mp zero), entry_entry]
        congr 1
        funext target
        apply ScopeAggregate.ext
        · ext contract
          simp
        · simp [add_assoc]

theorem addImageGroup_ofChain (members : List UriPosting) (chain : Nat) (keep : Nat → Bool)
    (kind : ScopeKind) (secondaryChain : Option Nat) (output : LocalUriAccumulator) :
    output.addImageGroup chain (ofChain members chain keep) kind
        secondaryChain =
      output.addImages (filteredPostingCounts (chainPostings members chain) keep) kind
        secondaryChain := by
  rw [addImageGroup, ofChain_eq, @addImages_eq_addGroup chain]
  · exact fun entry member => (mem_filteredPostingCounts.mp member).2.2
  · intro entry member
    have inChain := (mem_filteredPostingCounts.mp member).1
    exact of_decide_eq_true (mem_filter.mp inChain).2

end Aggregates

/-! ## Image groups -/

variable {chain : Nat}

section Image

variable {members : List UriPosting} {keep : ScopeFilters} {chains : List Nat}

def chainEntries (members : List UriPosting) (chains : List Nat) :
    List (Nat × List UriPosting) :=
  chains.map fun chain => (chain, chainPostings members chain)

theorem addIntraScopes_eq (members : List UriPosting) (keep : ScopeFilters)
    (chains : List Nat) (output : LocalUriAccumulator) :
    addIntraScopes members keep chains output =
      chains.foldl
        (fun output chain => addIntraPostings keep (chainPostings members chain) output)
        output := by
  simp only [addIntraScopes, addIntraPostings, postingCount_ofChain, addImageGroup_ofChain]

/-- Two chains count exactly if one counts and has another one. -/
theorem two_le_countP_iff {counts : Nat → Bool} (nodup : chains.Nodup) (member : chain ∈ chains)
    (isCounted : counts chain = true) :
    2 ≤ chains.countP counts ↔ ∃ other ∈ chains, other ≠ chain ∧ counts other = true := by
  have split := perm_cons_erase member
  rw [split.countP_eq, countP_cons_of_pos isCounted]
  constructor
  · intro several
    rcases countP_pos_iff.mp (by omega : 0 < (chains.erase chain).countP counts) with
      ⟨other, inErased, otherCounted⟩
    have facts := (nodup.mem_erase_iff).mp inErased
    exact ⟨other, facts.2, facts.1, otherCounted⟩
  · rintro ⟨other, inChains, different, otherCounted⟩
    have positive : 0 < (chains.erase chain).countP counts :=
      countP_pos_iff.mpr ⟨other, (nodup.mem_erase_iff).mpr ⟨different, inChains⟩,
        otherCounted⟩
    omega

theorem addCrossScopes_eq (members : List UriPosting) (keep : ScopeFilters)
    (nodup : chains.Nodup) (output : LocalUriAccumulator) :
    addCrossScopes members keep chains output =
      chains.foldl
        (fun output chain => addCrossPostings keep (chainEntries members chains)
          (chain, chainPostings members chain) output)
        output := by
  have hasRows : ∀ chain : Nat,
      (decide ((ofChain members chain keep.crossSummary).nftRows ≠ 0)) =
        (chainPostings members chain).any fun posting => posting.nftIds.any keep.crossSummary := by
    intro chain
    rw [Bool.eq_iff_iff, decide_eq_true_eq, Ne, nftRows_ofChain, filteredPostingCounts_eq_nil,
      Bool.not_eq_false]
  have each : ∀ (output : LocalUriAccumulator), ∀ chain ∈ chains,
      addCrossPostings keep (chainEntries members chains) (chain, chainPostings members chain)
          output =
        if 2 ≤ chains.countP (fun chain =>
            (ofChain members chain keep.crossSummary).nftRows ≠ 0) then
          output.addImageGroup chain
            (ofChain members chain keep.crossSummary) .crossChainSummary none
        else output := by
    intro output chain member
    rw [addCrossPostings, addImageGroup_ofChain]
    simp only
    by_cases empty : filteredPostingCounts (chainPostings members chain) keep.crossSummary = []
    · rw [empty]
      simp [addImages]
    · have isCounted : (decide ((ofChain members chain
          keep.crossSummary).nftRows ≠ 0)) = true :=
        decide_eq_true fun zero => empty ((nftRows_ofChain ..).mp zero)
      have hasOther : ((chainEntries members chains).any fun other =>
          other.1 ≠ chain && other.2.any fun posting => posting.nftIds.any keep.crossSummary) =
            decide (2 ≤ chains.countP fun chain =>
              (ofChain members chain keep.crossSummary).nftRows ≠ 0) := by
        rw [decide_eq_decide.mpr (two_le_countP_iff nodup member isCounted), Bool.eq_iff_iff,
          decide_eq_true_eq, any_eq_true]
        simp only [hasRows, chainEntries, mem_map, Bool.and_eq_true, decide_eq_true_eq]
        constructor
        · rintro ⟨_, ⟨other, inChains, rfl⟩, facts⟩
          exact ⟨other, inChains, facts⟩
        · rintro ⟨other, inChains, facts⟩
          exact ⟨_, ⟨other, inChains, rfl⟩, facts⟩
      rw [hasOther]
      simp [empty]
  rw [foldl_ext _ _ _ each, addCrossScopes]
  split
  · rfl
  · exact (foldl_fixed' (fun _ => rfl) _).symm

theorem addMatrixScopes_eq (members : List UriPosting) (keep : ScopeFilters)
    (chains : List Nat) (output : LocalUriAccumulator) :
    addMatrixScopes members keep chains output =
      chains.foldl
        (fun output chain => addMatrixPostings keep (chainEntries members chains)
          (chain, chainPostings members chain) output)
        output := by
  rw [addMatrixScopes]
  apply foldl_ext
  intro output primary _
  rw [addMatrixPostings, chainEntries, foldl_map]
  apply foldl_ext
  intro output secondary _
  simp only [addImageGroup_ofChain, ne_eq, nftRows_ofChain]
  by_cases same : primary = secondary
  · simp [same]
  · have other : secondary ≠ primary := Ne.symm same
    have reciprocal := @filteredPostingCounts_eq_nil (keep.matrix primary)
      (chainPostings members secondary)
    cases hasMatch : (chainPostings members secondary).any fun posting =>
        posting.nftIds.any (keep.matrix primary) with
    | false => simp [reciprocal.mpr hasMatch]
    | true =>
        have nonempty : filteredPostingCounts (chainPostings members secondary)
            (keep.matrix primary) ≠ [] := by
          rw [Ne, reciprocal, hasMatch]
          exact Bool.noConfusion
        simp [same, other, nonempty]

theorem foldl_comp {α : Type} {dimension : Dimension}
    {first second : LocalUriAccumulator → α → LocalUriAccumulator}
    (firstAdds : ∀ value, Adds dimension fun output => first output value)
    (secondAdds : ∀ value, Adds dimension fun output => second output value)
    (values : List α) (output : LocalUriAccumulator) :
    values.foldl (fun output value => second (first output value) value) output =
      values.foldl second (values.foldl first output) := by
  induction values generalizing output with
  | nil => rfl
  | cons head tail induction =>
      rw [foldl_cons, foldl_cons, foldl_cons, induction,
        (Adds.foldl firstAdds tail).comm (secondAdds head)]

theorem addIntraPostings_adds (keep : ScopeFilters) (postings : List UriPosting) :
    Adds .imageUri fun output => addIntraPostings keep postings output :=
  (Adds.addImages ..).ite Adds.nothing

theorem addCrossPostings_adds (keep : ScopeFilters) (byChain : List (Nat × List UriPosting))
    (entry : Nat × List UriPosting) :
    Adds .imageUri fun output => addCrossPostings keep byChain entry output :=
  (Adds.addImages ..).ite Adds.nothing

theorem addMatrixPostings_adds (keep : ScopeFilters) (byChain : List (Nat × List UriPosting))
    (entry : Nat × List UriPosting) :
    Adds .imageUri fun output => addMatrixPostings keep byChain entry output :=
  Adds.foldl (fun _ => (Adds.addImages ..).ite Adds.nothing) byChain

theorem accumulateImageScopeHitsWide_eq (iteration : IterationOrder)
    (members : List UriPosting) (keep : ScopeFilters) (output : LocalUriAccumulator) :
    accumulateImageScopeHitsWide iteration members keep output =
      accumulateImageChains members keep (iteration.order (groupChains members)) output := by
  have nodup : (iteration.order (groupChains members)).Nodup :=
    (iteration.perm _).nodup_iff.mpr (nodup_dedup _)
  have entries : postingsByChain iteration members =
      chainEntries members (iteration.order (groupChains members)) := rfl
  rw [accumulateImageScopeHitsWide, entries, accumulateImageChains, addMatrixScopes_eq,
    addCrossScopes_eq members keep nodup, addIntraScopes_eq]
  conv_lhs => rw [chainEntries, foldl_map, ← chainEntries]
  rw [@foldl_comp _ _
      (fun output chain => addCrossPostings keep
        (chainEntries members (iteration.order (groupChains members)))
        (chain, chainPostings members chain)
        (addIntraPostings keep (chainPostings members chain) output))
      (fun output chain => addMatrixPostings keep
        (chainEntries members (iteration.order (groupChains members)))
        (chain, chainPostings members chain) output)
      (fun _ => (addIntraPostings_adds ..).comp (addCrossPostings_adds ..))
      fun _ => addMatrixPostings_adds ..,
    foldl_comp (fun _ => addIntraPostings_adds ..) fun _ => addCrossPostings_adds ..]

/-- The order of the chains does not matter. -/
theorem accumulateImageChains_perm {first second : List Nat} (perm : first.Perm second)
    (members : List UriPosting) (keep : ScopeFilters) (output : LocalUriAccumulator) :
    accumulateImageChains members keep first output =
      accumulateImageChains members keep second output := by
  have intra : ∀ output, addIntraScopes members keep first output =
      addIntraScopes members keep second output :=
    fun output => Adds.foldl_perm (fun _ => (Adds.addImageGroup ..).ite Adds.nothing) perm output
  have cross : ∀ output, addCrossScopes members keep first output =
      addCrossScopes members keep second output := by
    intro output
    simp only [addCrossScopes, perm.countP_eq]
    rw [Adds.foldl_perm (fun _ => Adds.addImageGroup ..) perm output]
  have matrix : ∀ output, addMatrixScopes members keep first output =
      addMatrixScopes members keep second output := by
    intro output
    have inner : ∀ (primary : Nat) (output : LocalUriAccumulator),
        first.foldl
            (fun output secondary =>
              if primary ≠ secondary ∧
                  (ofChain members primary
                    (keep.matrix secondary)).nftRows ≠ 0 ∧
                  (ofChain members secondary
                    (keep.matrix primary)).nftRows ≠ 0 then
                output.addImageGroup primary
                  (ofChain members primary (keep.matrix secondary))
                  .chainMatrix (some secondary)
              else output)
            output =
          second.foldl _ output :=
      fun _ output =>
        Adds.foldl_perm (fun _ => (Adds.addImageGroup ..).ite Adds.nothing) perm output
    simp only [addMatrixScopes, inner]
    exact Adds.foldl_perm (fun _ => Adds.foldl
      (fun _ => (Adds.addImageGroup ..).ite Adds.nothing) second) perm output
  rw [accumulateImageChains, accumulateImageChains, intra, cross, matrix]

/-- The shortcut for a group of one chain leaves nothing out. -/
theorem accumulateImageScopeHitsCompact_eq
    (few : ∀ posting ∈ members, posting.chainId < compactChains) (keep : ScopeFilters)
    (output : LocalUriAccumulator) :
    accumulateImageScopeHitsCompact members keep output =
      accumulateImageChains members keep (groupChains members) output := by
  have perm := setBits_perm few
  rw [← accumulateImageChains_perm perm, accumulateImageScopeHitsCompact]
  generalize setBits _ = chains at perm ⊢
  simp only
  split
  · next chain =>
      have own : ∀ posting ∈ members, posting.chainId = chain := by
        intro posting member
        have inChains := mem_dedup.mpr (mem_map_of_mem (f := UriPosting.chainId) member)
        exact mem_singleton.mp (perm.mem_iff.mpr inChains)
      have aggregate : members.foldl
            (fun (aggregate : GroupScopeAggregate) posting =>
              aggregate.addPosting posting.contractId (posting.nftIds.countP keep.intra))
            .default =
          ofChain members chain keep.intra := by
        rw [ofChain]
        apply foldl_ext
        intro aggregate posting member
        rw [if_pos (own posting member)]
      have alone : ∀ counted : Nat → Bool, ¬ 2 ≤ [chain].countP counted := by
        intro counted several
        have atMost := countP_le_length (p := counted) (l := [chain])
        rw [length_singleton] at atMost
        omega
      rw [aggregate, accumulateImageChains, addCrossScopes, if_neg (alone _), addIntraScopes,
        addMatrixScopes]
      simp only [foldl_cons, foldl_nil, ne_eq, not_true_eq_false, false_and, if_false]
  · rfl

end Image

/-! ## Token groups -/

def MatrixWorkerHits.Hit : MatrixWorkerHits → Nat → Nat → Prop
  | .compact entries, nftId, chain => ∃ entry ∈ entries, entry.1 = nftId ∧ entry.2.testBit chain
  | .wide entries, nftId, chain => (nftId, chain) ∈ entries

theorem testBit_foldl_masks (entries : List (Nat × Nat)) (masks : Nat → Nat)
    (nftId chain : Nat) :
    (entries.foldl (fun masks entry => Function.update masks entry.1 (masks entry.1 ||| entry.2))
        masks nftId).testBit chain = true ↔
      (masks nftId).testBit chain = true ∨
        ∃ entry ∈ entries, entry.1 = nftId ∧ entry.2.testBit chain = true := by
  induction entries generalizing masks with
  | nil => simp
  | cons head tail induction =>
      rw [foldl_cons, induction]
      by_cases same : nftId = head.1
      · subst same
        simp [Nat.testBit_or, or_assoc]
      · simp [Function.update_of_ne same, Ne.symm same]

theorem TokenWorker.contains_hits (worker : TokenWorker) (nftId chain : Nat) :
    worker.hits.matrix.contains nftId chain = true ↔ worker.matrix.Hit nftId chain := by
  rcases worker with ⟨uri, intra, crossSummary, matrix⟩
  cases matrix with
  | compact entries =>
      simp only [hits, MatrixNftSet.contains, testBit_foldl_masks, Nat.zero_testBit,
        Bool.false_eq_true, false_or, MatrixWorkerHits.Hit]
  | wide entries =>
      simp only [hits, MatrixNftSet.contains, mem_toFinset, decide_eq_true_eq,
        MatrixWorkerHits.Hit]

variable {second first : TokenContributions}

namespace TokenContributions

def ofPosting (compact : Bool) (members : List UriPosting) (chains : List Nat)
    (posting : UriPosting) : TokenContributions :=
  append
    (onlyIf (2 ≤ members.countP fun other => other.chainId = posting.chainId) (ofIntra posting))
    (onlyIf (2 ≤ chains.length)
      (append (ofCrossSummary posting) (ofMatrix compact posting chains)))

theorem gather_append (values : List UriPosting) (first second : UriPosting → TokenContributions) :
    Rearranged ((gather (values.map first)).append (gather (values.map second)))
      (gather (values.map fun value => (first value).append (second value))) := by
  simp only [gather, append, flatMap_map]
  exact ⟨flatMap_append_perm .., flatMap_append_perm .., flatMap_append_perm ..,
    flatMap_append_perm ..⟩

theorem onlyIf_gather (condition : Prop) [Decidable condition] (values : List UriPosting)
    (added : UriPosting → TokenContributions) :
    onlyIf condition (gather (values.map added)) =
      gather (values.map fun value => onlyIf condition (added value)) := by
  by_cases holds : condition
  · simp only [onlyIf, holds, if_true]
  · simp [onlyIf, holds, none, gather]

theorem Rearranged.trans {third : TokenContributions} (left : Rearranged first second)
    (right : Rearranged second third) :
    Rearranged first third :=
  ⟨left.uri.trans right.uri, left.intra.trans right.intra,
    left.crossSummary.trans right.crossSummary, left.matrix.trans right.matrix⟩

theorem onlyIf_append (condition : Prop) [Decidable condition]
    (first second : TokenContributions) :
    (onlyIf condition first).append (onlyIf condition second) =
      onlyIf condition (first.append second) := by
  by_cases holds : condition
  · simp only [onlyIf, holds, if_true]
  · simp [onlyIf, holds, none, append]

theorem append_assoc (first second third : TokenContributions) :
    (first.append second).append third = first.append (second.append third) := by
  simp [append]

theorem gather_map_rearranged {α : Type} {values : List α} {first second : α → TokenContributions}
    (each : ∀ value ∈ values, Rearranged (first value) (second value)) :
    Rearranged (gather (values.map first)) (gather (values.map second)) := by
  simp only [gather, flatMap_map]
  exact ⟨List.Perm.flatMap_left _ fun value member => (each value member).uri,
    List.Perm.flatMap_left _ fun value member => (each value member).intra,
    List.Perm.flatMap_left _ fun value member => (each value member).crossSummary,
    List.Perm.flatMap_left _ fun value member => (each value member).matrix⟩

theorem gather_postingsByChain (iteration : IterationOrder) (members : List UriPosting)
    (added : UriPosting → TokenContributions) :
    Rearranged
      (gather ((postingsByChain iteration members).map fun entry => gather (entry.2.map added)))
      (gather (members.map added)) := by
  simp only [gather, flatMap_map]
  exact ⟨flatMap_postingsByChain_perm .., flatMap_postingsByChain_perm ..,
    flatMap_postingsByChain_perm .., flatMap_postingsByChain_perm ..⟩

/-- The wide branch adds what its postings add, chain by chain. -/
theorem ofGroupWide_rearranged (iteration : IterationOrder) (members : List UriPosting) :
    Rearranged (ofGroupWide iteration members)
      (gather (members.map
        (ofPosting false members (iteration.order (groupChains members))))) := by
  have each : ∀ entry ∈ postingsByChain iteration members,
      Rearranged
        (append
          (append (onlyIf (2 ≤ entry.2.length) (gather (entry.2.map ofIntra)))
            (onlyIf (2 ≤ (iteration.order (groupChains members)).length)
              (gather (entry.2.map ofCrossSummary))))
          (onlyIf (2 ≤ (iteration.order (groupChains members)).length)
            (gather (entry.2.map fun posting =>
              ofMatrix false posting (iteration.order (groupChains members))))))
        (gather (entry.2.map
          (ofPosting false members (iteration.order (groupChains members))))) := by
    intro entry inChains
    rcases mem_map.mp inChains with ⟨chain, _, rfl⟩
    rw [onlyIf_gather, onlyIf_gather, onlyIf_gather]
    apply ((gather_append _ _ _).append (.refl _)).trans
    apply (gather_append _ _ _).trans
    have same : (chainPostings members chain).map (fun posting =>
          ((onlyIf (2 ≤ (chainPostings members chain).length) (ofIntra posting)).append
            (onlyIf (2 ≤ (iteration.order (groupChains members)).length)
              (ofCrossSummary posting))).append
            (onlyIf (2 ≤ (iteration.order (groupChains members)).length)
              (ofMatrix false posting (iteration.order (groupChains members))))) =
        (chainPostings members chain).map
          (ofPosting false members (iteration.order (groupChains members))) := by
      apply map_congr_left
      intro posting member
      have own := of_decide_eq_true (mem_filter.mp member).2
      rw [ofPosting, own, append_assoc, onlyIf_append, countP_eq_length_filter]
      rfl
    rw [← chainPostings, same]
    exact .refl _
  have grouped : Rearranged (ofGroupWide iteration members)
      (gather ((postingsByChain iteration members).map fun entry =>
        gather (entry.2.map
          (ofPosting false members (iteration.order (groupChains members)))))) := by
    rw [ofGroupWide, map_fst_postingsByChain]
    exact gather_map_rearranged each
  exact grouped.trans (gather_postingsByChain ..)

theorem ofGroupCompact_eq (members : List UriPosting) :
    ofGroupCompact members =
      gather (members.map (ofPosting true members
        (setBits (members.foldl (fun mask posting => mask ||| 1 <<< posting.chainId) 0)))) :=
  rfl

theorem intra_ofPosting (compact : Bool) (members : List UriPosting) (chains : List Nat)
    (posting : UriPosting) :
    (ofPosting compact members chains posting).intra =
      if 2 ≤ members.countP fun other => other.chainId = posting.chainId then posting.nftIds
      else [] := by
  simp only [ofPosting, append, onlyIf]
  split <;> split <;> simp [ofIntra, ofCrossSummary, ofMatrix, none]

theorem crossSummary_ofPosting (compact : Bool) (members : List UriPosting) (chains : List Nat)
    (posting : UriPosting) :
    (ofPosting compact members chains posting).crossSummary =
      if 2 ≤ chains.length then posting.nftIds else [] := by
  simp only [ofPosting, append, onlyIf]
  split <;> split <;> simp [ofIntra, ofCrossSummary, ofMatrix, none]

theorem matrix_ofPosting (compact : Bool) (members : List UriPosting) (chains : List Nat)
    (posting : UriPosting) :
    (ofPosting compact members chains posting).matrix =
      if 2 ≤ chains.length then (ofMatrix compact posting chains).matrix else [] := by
  simp only [ofPosting, append, onlyIf]
  split <;> split <;> simp [ofIntra, ofCrossSummary, none]

/-- The peer mask of a posting has the bits of the other chains. -/
theorem testBit_peerMask (posting : UriPosting) (chains : List Nat) (mask chain : Nat) :
    (chains.foldl
        (fun mask chain => if chain = posting.chainId then mask else mask ||| 1 <<< chain)
        mask).testBit chain =
      (mask.testBit chain || decide (chain ∈ peers posting chains)) := by
  induction chains generalizing mask with
  | nil => simp [peers]
  | cons head tail induction =>
      rw [foldl_cons, induction]
      by_cases own : head = posting.chainId
      · rw [if_pos own, peers_cons_self own]
      · rw [if_neg own, peers_cons_of_ne own, Nat.testBit_or, Nat.one_shiftLeft,
          Nat.testBit_two_pow]
        simp [Bool.or_assoc, eq_comm]

theorem hit_ofMatrix_compact (posting : UriPosting) (chains : List Nat) (nftId chain : Nat) :
    (MatrixWorkerHits.compact (ofMatrix true posting chains).matrix).Hit nftId chain ↔
      nftId ∈ posting.nftIds ∧ chain ∈ peers posting chains := by
  simp [MatrixWorkerHits.Hit, ofMatrix, testBit_peerMask]

theorem hit_ofMatrix_wide (posting : UriPosting) (chains : List Nat) (nftId chain : Nat) :
    (MatrixWorkerHits.wide (ofMatrix false posting chains).matrix).Hit nftId chain ↔
      nftId ∈ posting.nftIds ∧ chain ∈ peers posting chains := by
  simp [MatrixWorkerHits.Hit, ofMatrix, and_comm]

end TokenContributions

/-! ## Agreement -/

/-- Two sets of hits that hold the same NFTs, in the cells of the chains with a bit. -/
structure TokenHits.Agree (compact wide : TokenHits) : Prop where
  intra : compact.intra = wide.intra
  crossSummary : compact.crossSummary = wide.crossSummary
  matrix : ∀ nftId chain, chain < compactChains →
    compact.matrix.contains nftId chain = wide.matrix.contains nftId chain

/-- A worker with masks and a worker with pairs that counted and remember the same. -/
structure TokenWorker.Agree (compact wide : TokenWorker) : Prop where
  isCompact : compact.matrix.isCompact = true
  isWide : wide.matrix.isCompact = false
  uri : compact.uri = wide.uri
  hits : compact.hits.Agree wide.hits

section Agreement

variable {members : List UriPosting}

theorem accumulateImageChains_congr {first second : ScopeFilters} {chains : List Nat}
    (intra : first.intra = second.intra) (crossSummary : first.crossSummary = second.crossSummary)
    (matrix : ∀ chain ∈ chains, first.matrix chain = second.matrix chain)
    (members : List UriPosting) (output : LocalUriAccumulator) :
    accumulateImageChains members first chains output =
      accumulateImageChains members second chains output := by
  have cells : ∀ output, addMatrixScopes members first chains output =
      addMatrixScopes members second chains output := by
    intro output
    simp only [addMatrixScopes]
    apply foldl_ext
    intro output primary inChains
    apply foldl_ext
    intro output secondary alsoInChains
    rw [matrix primary inChains, matrix secondary alsoInChains]
  rw [accumulateImageChains, accumulateImageChains, cells]
  simp only [addCrossScopes, addIntraScopes, intra, crossSummary]

theorem mem_groupChains_lt (few : ∀ posting ∈ members, posting.chainId < compactChains)
    (member : chain ∈ groupChains members) : chain < compactChains := by
  rcases mem_map.mp (mem_dedup.mp member) with ⟨posting, inMembers, rfl⟩
  exact few posting inMembers

/-- Both branches count the same image scopes. -/
theorem accumulateImageScopeHitsTables_eq_wide (iteration : IterationOrder)
    (few : ∀ posting ∈ members, posting.chainId < compactChains) {compact wide : TokenHits}
    (agree : compact.Agree wide) (output : LocalUriAccumulator) :
    accumulateImageScopeHitsTables members compact.filters output =
      accumulateImageScopeHitsWide iteration members wide.filters output := by
  rw [accumulateImageScopeHitsTables_eq few, accumulateImageScopeHitsCompact_eq few,
    accumulateImageScopeHitsWide_eq, accumulateImageChains_perm (iteration.perm _)]
  apply accumulateImageChains_congr
  · simp only [TokenHits.filters, agree.intra]
  · simp only [TokenHits.filters, agree.crossSummary]
  · intro chain member
    funext nftId
    simp only [TokenHits.filters, agree.matrix nftId chain (mem_groupChains_lt few member)]

/-- Contributions of the two branches that count the same and hit the same NFTs. -/
structure TokenContributions.Agree (compact wide : TokenContributions) : Prop where
  uri : compact.uri.Perm wide.uri
  intra : ∀ nftId, nftId ∈ compact.intra ↔ nftId ∈ wide.intra
  crossSummary : ∀ nftId, nftId ∈ compact.crossSummary ↔ nftId ∈ wide.crossSummary
  matrix : ∀ nftId chain, (MatrixWorkerHits.compact compact.matrix).Hit nftId chain ↔
    (MatrixWorkerHits.wide wide.matrix).Hit nftId chain

namespace TokenContributions

theorem Agree.rearranged {compact : TokenContributions} (agree : compact.Agree first)
    (rearranged : Rearranged second first) :
    compact.Agree second where
  uri := agree.uri.trans rearranged.uri.symm
  intra nftId := (agree.intra nftId).trans rearranged.intra.symm.mem_iff
  crossSummary nftId := (agree.crossSummary nftId).trans rearranged.crossSummary.symm.mem_iff
  matrix nftId chain := (agree.matrix nftId chain).trans rearranged.matrix.symm.mem_iff

theorem hit_gather_compact (values : List UriPosting) (added : UriPosting → TokenContributions)
    (nftId chain : Nat) :
    (MatrixWorkerHits.compact (gather (values.map added)).matrix).Hit nftId chain ↔
      ∃ value ∈ values, (MatrixWorkerHits.compact (added value).matrix).Hit nftId chain := by
  simp only [MatrixWorkerHits.Hit, gather, flatMap_map, mem_flatMap]
  constructor
  · rintro ⟨entry, ⟨value, member, inValue⟩, isHit⟩
    exact ⟨value, member, entry, inValue, isHit⟩
  · rintro ⟨value, member, entry, inValue, isHit⟩
    exact ⟨entry, ⟨value, member, inValue⟩, isHit⟩

theorem hit_gather_wide (values : List UriPosting) (added : UriPosting → TokenContributions)
    (nftId chain : Nat) :
    (MatrixWorkerHits.wide (gather (values.map added)).matrix).Hit nftId chain ↔
      ∃ value ∈ values, (MatrixWorkerHits.wide (added value).matrix).Hit nftId chain := by
  simp only [MatrixWorkerHits.Hit, gather, flatMap_map, mem_flatMap]

/-- What the postings add agrees as soon as the chains are the same, in any order. -/
theorem gather_ofPosting_agree {first second : List Nat} (perm : first.Perm second)
    (members : List UriPosting) :
    (gather (members.map (ofPosting true members first))).Agree
      (gather (members.map (ofPosting false members second))) where
  uri := by
    simp only [gather, flatMap_map]
    apply List.Perm.flatMap_left
    intro posting _
    simp only [ofPosting, append, onlyIf, perm.length_eq]
    apply List.Perm.append_left
    split
    · exact ((perm.filter _).map _).append_left _
    · exact .refl _
  intra nftId := by
    simp only [gather, flatMap_map, intra_ofPosting]
  crossSummary nftId := by
    simp only [gather, flatMap_map, crossSummary_ofPosting, perm.length_eq]
  matrix nftId chain := by
    rw [hit_gather_compact, hit_gather_wide]
    simp only [matrix_ofPosting, perm.length_eq]
    by_cases several : 2 ≤ second.length
    · simp only [if_pos several, hit_ofMatrix_compact, hit_ofMatrix_wide, peers,
        (perm.filter _).mem_iff]
    · simp [several, MatrixWorkerHits.Hit]

theorem ofGroup_agree (iteration : IterationOrder)
    (few : ∀ posting ∈ members, posting.chainId < compactChains) :
    (ofGroup true iteration members).Agree (ofGroup false iteration members) := by
  have perm := (setBits_perm few).trans (iteration.perm _).symm
  have agree := (gather_ofPosting_agree perm members).rearranged
    (ofGroupWide_rearranged iteration members)
  rw [← ofGroupCompact_eq] at agree
  rw [ofGroup, ofGroup, onlyIf, onlyIf]
  split
  · exact agree
  · exact ⟨.refl _, fun _ => Iff.rfl, fun _ => Iff.rfl, by simp [none, MatrixWorkerHits.Hit]⟩

end TokenContributions

theorem TokenWorker.hits_intra (worker : TokenWorker) :
    worker.hits.intra = worker.intra.toFinset := rfl

theorem TokenWorker.hits_crossSummary (worker : TokenWorker) :
    worker.hits.crossSummary = worker.crossSummary.toFinset := rfl

variable {compact wide : TokenWorker}

/-- Workers that agree still agree after contributions that agree. -/
theorem TokenWorker.Agree.apply (agree : compact.Agree wide) (added : first.Agree second) :
    (compact.apply first).Agree (wide.apply second) where
  isCompact := (isCompact_apply ..).trans agree.isCompact
  isWide := (isCompact_apply ..).trans agree.isWide
  uri := by
    simp only [TokenWorker.apply, agree.uri, LocalUriAccumulator.collect_perm added.uri]
  hits := {
    intra := by
      have before := agree.hits.intra
      rw [hits_intra, hits_intra] at before
      rw [hits_intra, hits_intra, TokenWorker.apply, TokenWorker.apply, toFinset_append,
        toFinset_append, before, List.toFinset.ext added.intra]
    crossSummary := by
      have before := agree.hits.crossSummary
      rw [hits_crossSummary, hits_crossSummary] at before
      rw [hits_crossSummary, hits_crossSummary, TokenWorker.apply, TokenWorker.apply,
        toFinset_append, toFinset_append, before,
        List.toFinset.ext added.crossSummary]
    matrix := by
      intro nftId chain fits
      have before := agree.hits.matrix nftId chain fits
      rw [Bool.eq_iff_iff, contains_hits, contains_hits] at before
      rw [Bool.eq_iff_iff, contains_hits, contains_hits]
      have more := added.matrix nftId chain
      rcases compact with ⟨compactUri, compactIntra, compactCross, compactMatrix⟩
      rcases wide with ⟨wideUri, wideIntra, wideCross, wideMatrix⟩
      cases compactMatrix with
      | wide entries => exact absurd agree.isCompact Bool.false_ne_true
      | compact compactEntries =>
          cases wideMatrix with
          | compact entries => exact absurd agree.isWide.symm Bool.false_ne_true
          | wide wideEntries =>
              simp only [MatrixWorkerHits.Hit] at before more
              simp only [TokenWorker.apply, MatrixWorkerHits.extend, MatrixWorkerHits.Hit,
                mem_append, or_and_right, exists_or, before, more] }

theorem accumulateTokenScopeHits_agree (iteration : IterationOrder)
    (few : ∀ posting ∈ members, posting.chainId < compactChains) (agree : compact.Agree wide) :
    (accumulateTokenScopeHits iteration members compact).Agree
      (accumulateTokenScopeHits iteration members wide) := by
  rw [TokenWorker.accumulateTokenScopeHits_eq agree.isCompact,
    TokenWorker.accumulateTokenScopeHits_eq agree.isWide]
  exact agree.apply (TokenContributions.ofGroup_agree iteration few)

theorem TokenWorker.new_agree {fewChains manyChains : Nat} (few : fewChains ≤ compactChains)
    (many : compactChains < manyChains) : (new fewChains).Agree (new manyChains) := by
  have isMany : ¬ manyChains ≤ compactChains := Nat.not_le.mpr many
  exact {
    isCompact := by simp [new, few, MatrixWorkerHits.isCompact]
    isWide := by simp [new, isMany, MatrixWorkerHits.isCompact]
    uri := rfl
    hits := {
      intra := rfl
      crossSummary := rfl
      matrix := by
        intro nftId chain _
        simp [new, few, isMany, hits, MatrixNftSet.contains] } }

/-- Masks and pairs make no difference: from hits that agree the same image scopes are
counted, and from workers that agree the same token scopes are counted and the same NFTs
are remembered. -/
theorem accumulateScopeHits_compact_wide (iteration : IterationOrder)
    (members : List UriPosting) (few : ∀ posting ∈ members, posting.chainId < compactChains) :
    (∀ (compact wide : TokenHits) (output : LocalUriAccumulator), compact.Agree wide →
      accumulateImageScopeHitsTables members compact.filters output =
        accumulateImageScopeHitsWide iteration members wide.filters output) ∧
    ∀ compact wide : TokenWorker, compact.Agree wide →
      (accumulateTokenScopeHits iteration members compact).Agree
        (accumulateTokenScopeHits iteration members wide) :=
  ⟨fun _ _ output agree => accumulateImageScopeHitsTables_eq_wide iteration few agree output,
    fun _ _ agree => accumulateTokenScopeHits_agree iteration few agree⟩

theorem accumulateScopeHits_compact_wide_pair :
    accumulateImageScopeHitsTables [⟨0, 0, 0, [0, 1]⟩, ⟨1, 1, 0, [2]⟩]
        (TokenWorker.new 2).hits.filters .empty =
      accumulateImageScopeHitsWide ⟨id, .refl⟩ [⟨0, 0, 0, [0, 1]⟩, ⟨1, 1, 0, [2]⟩]
        (TokenWorker.new 65).hits.filters .empty ∧
    (accumulateTokenScopeHits ⟨id, .refl⟩ [⟨0, 0, 0, [0, 1]⟩, ⟨1, 1, 0, [2]⟩] (.new 2)).Agree
      (accumulateTokenScopeHits ⟨id, .refl⟩ [⟨0, 0, 0, [0, 1]⟩, ⟨1, 1, 0, [2]⟩] (.new 65)) := by
  have both := accumulateScopeHits_compact_wide ⟨id, .refl⟩
    [⟨0, 0, 0, [0, 1]⟩, ⟨1, 1, 0, [2]⟩] (by decide)
  have fresh : (TokenWorker.new 2).Agree (.new 65) :=
    TokenWorker.new_agree (by decide) (by decide)
  exact ⟨both.1 _ _ _ fresh.hits, both.2 _ _ fresh⟩

end Agreement

end NftData.Dedup
