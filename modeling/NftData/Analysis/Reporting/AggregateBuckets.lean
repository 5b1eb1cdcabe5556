import NftData.Analysis.Reporting.AggregateRows

namespace NftData.Analysis

/-! # Buckets of many candidates

A bucket holds candidates when its content is the sum of theirs. It does once they were
absorbed one by one, and when buckets of other candidates were merged into it. -/

open List

/-! ## Parts of a content -/

theorem IdUnion.ids_sum_filter {Entry : Type} (keep : Entry → Bool) (id : Entry → Nat)
    (entries : List Entry) :
    (entries.map fun entry => if keep entry then IdUnion.of {id entry} else 0).sum.ids =
      ((entries.filter keep).map id).toFinset := by
  induction entries with
  | nil => rfl
  | cons entry entries induction =>
      rw [map_cons, sum_cons, IdUnion.ids_add, induction]
      by_cases kept : keep entry = true
      · rw [if_pos kept, filter_cons_of_pos kept, map_cons, toFinset_cons]
        rfl
      · rw [if_neg kept, filter_cons_of_neg kept, IdUnion.ids_zero, Finset.empty_union]

theorem IdUnion.ids_sum {Entry : Type} (id : Entry → Nat) (entries : List Entry) :
    (entries.map fun entry => IdUnion.of {id entry}).sum.ids = (entries.map id).toFinset := by
  simpa using IdUnion.ids_sum_filter (fun _ => true) id entries

theorem sum_map_filter {Entry Total : Type} [AddCommMonoid Total] (keep : Entry → Bool)
    (value : Entry → Total) (entries : List Entry) :
    ((entries.filter keep).map value).sum =
      (entries.map fun entry => if keep entry then value entry else 0).sum := by
  induction entries with
  | nil => rfl
  | cons entry entries induction =>
      by_cases kept : keep entry = true
      · rw [filter_cons_of_pos kept, map_cons, sum_cons, map_cons,
          sum_cons, if_pos kept, induction]
      · rw [filter_cons_of_neg kept, map_cons, sum_cons, if_neg kept, zero_add,
          induction]

namespace BucketContent

def attributedPart : BucketContent →+ IdUnion where
  toFun := attributed
  map_zero' := rfl
  map_add' _ _ := rfl

def suspectedPart : BucketContent →+ IdUnion where
  toFun := suspectedCandidates
  map_zero' := rfl
  map_add' _ _ := rfl

def legitPart : BucketContent →+ IdUnion where
  toFun := legitCandidates
  map_zero' := rfl
  map_add' _ _ := rfl

def representativePart : BucketContent →+ Nat where
  toFun := representativeCandidateCount
  map_zero' := rfl
  map_add' _ _ := rfl

def infringingPart : BucketContent →+ Nat where
  toFun := infringingNftCount
  map_zero' := rfl
  map_add' _ _ := rfl

def nativePart : BucketContent →+ (ValueFlow → Int) where
  toFun content := content.economics.native
  map_zero' := rfl
  map_add' _ _ := rfl

/-- The failures by chain and seed, which no candidate adds to. -/
def ofFailures (failures : QualityContent) : BucketContent :=
  { (0 : BucketContent) with quality := failures }

theorem ofFailures_add (left right : QualityContent) :
    ofFailures (left + right) = ofFailures left + ofFailures right := rfl

/-- A part that the evidence about a suspected candidate does not change. -/
structure Counted {Part : Type} [AddCommMonoid Part] (part : BucketContent →+ Part)
    (includeNative : Bool) : Prop where
  amounts : ∀ economics, part (amountsContent includeNative economics) = 0
  role : ∀ entry, part (roleContent entry) = 0
  behaviors : ∀ behaviors, part (behaviorsContent behaviors) = 0
  entities : ∀ entities, part (entitiesContent includeNative entities) = 0

theorem map_sum_eq_zero {Part Entry : Type} [AddCommMonoid Part] (part : BucketContent →+ Part)
    {content : Entry → BucketContent} (isZero : ∀ entry, part (content entry) = 0)
    (entries : List Entry) : part (entries.map content).sum = 0 := by
  rw [map_list_sum, map_map]
  apply sum_eq_zero
  intro value member
  rcases mem_map.mp member with ⟨entry, _, rfl⟩
  exact isZero entry

open ScopeBucket

theorem Counted.apply_content {Part : Type} [AddCommMonoid Part] {part : BucketContent →+ Part}
    (share : CandidateShare) (counted : Counted part share.includeNative) :
    part share.content = part share.countedContent +
      if share.isSuspected then part share.countedSuspectedContent
      else if share.isLegitOnly then part share.legitContent
      else 0 := by
  rw [CandidateShare.content, map_add]
  congr 1
  split
  · rw [CandidateShare.suspectedContent, map_add, map_add, map_add, counted.amounts,
      map_sum_eq_zero part counted.role]
    split
    · rw [map_add, counted.behaviors, map_sum_eq_zero part counted.entities]
      simp
    · simp
  · split
    · rfl
    · exact map_zero part

section Shares

variable (share : CandidateShare)

theorem attributedPart_content :
    attributedPart share.content = .of {share.candidateId} := by
  rw [Counted.apply_content share ⟨fun _ => rfl, fun _ => rfl, fun _ => rfl, fun _ => rfl⟩]
  split_ifs <;> rfl

theorem suspectedPart_content :
    suspectedPart share.content = if share.isSuspected then .of {share.candidateId} else 0 := by
  rw [Counted.apply_content share ⟨fun _ => rfl, fun _ => rfl, fun _ => rfl, fun _ => rfl⟩]
  split_ifs <;> rfl

theorem legitPart_content :
    legitPart share.content =
      if !share.isSuspected && share.isLegitOnly then .of {share.candidateId} else 0 := by
  rw [Counted.apply_content share ⟨fun _ => rfl, fun _ => rfl, fun _ => rfl, fun _ => rfl⟩]
  cases share.isSuspected <;> cases share.isLegitOnly <;> rfl

theorem representativePart_content :
    representativePart share.content = share.representativeNfts := by
  rw [Counted.apply_content share ⟨fun _ => rfl, fun _ => rfl, fun _ => rfl, fun _ => rfl⟩]
  split_ifs <;> exact add_zero _

theorem infringingPart_content :
    infringingPart share.content = if share.isSuspected then share.infringingNfts else 0 := by
  rw [Counted.apply_content share ⟨fun _ => rfl, fun _ => rfl, fun _ => rfl, fun _ => rfl⟩]
  split_ifs
  · exact zero_add _
  · rfl
  · rfl

/-- Amounts in native units are only counted where the scope has one native unit. -/
theorem nativePart_content (noNative : share.includeNative = false) :
    nativePart share.content = 0 := by
  have counted : Counted nativePart share.includeNative := by
    rw [noNative]
    exact ⟨fun _ => rfl, fun _ => rfl, fun _ => rfl, fun _ => rfl⟩
  rw [counted.apply_content share]
  split_ifs <;> rfl

end Shares

end BucketContent

namespace ScopeBucket

open BucketContent
open CandidateShare (candidateId)

structure Holds (bucket : ScopeBucket) (shares : List CandidateShare)
    (failures : QualityContent) : Prop where
  valid : bucket.Valid
  content : bucket.content = (shares.map CandidateShare.content).sum + ofFailures failures

theorem holds_empty : empty.Holds [] 0 := ⟨valid_empty, content_empty⟩

section Holding

variable {bucket other : ScopeBucket} {shares others : List CandidateShare}
  {failures otherFailures : QualityContent}

theorem Holds.perm (holds : bucket.Holds shares failures) (same : shares.Perm others) :
    bucket.Holds others failures where
  valid := holds.valid
  content := by
    rw [holds.content, (same.map CandidateShare.content).sum_eq]

/-- The same candidates give the same row, whatever happened to the bucket. -/
theorem Holds.scopedMetric_eq {Ratio : Type} (divide : Int → Int → Ratio)
    (left : bucket.Holds shares failures) (right : other.Holds others failures)
    (same : shares.Perm others) (scope : AggregateScope)
    (primaryChain candidateChain : Option ChainId) :
    bucket.scopedMetric divide scope primaryChain candidateChain =
      other.scopedMetric divide scope primaryChain candidateChain := by
  apply ScopeBucket.scopedMetric_eq divide left.valid right.valid
  rw [(left.perm same).content, right.content]

section

variable (holds : bucket.Holds shares failures)
include holds

theorem Holds.attributed_ids :
    bucket.attributed.ids = (shares.map candidateId).toFinset := by
  have part := congrArg attributedPart holds.content
  rw [map_add, map_list_sum, map_map] at part
  simp only [Function.comp_def, attributedPart_content] at part
  have ids := congrArg IdUnion.ids part
  rw [IdUnion.ids_add, IdUnion.ids_sum] at ids
  exact ids.trans (Finset.union_empty _)

theorem Holds.absorbCandidate {share : CandidateShare}
    (fresh : share.candidateId ∉ shares.map candidateId) :
    (bucket.absorbCandidate share).Holds (shares ++ [share]) failures where
  valid := holds.valid.absorbCandidate share
  content := by
    have notAttributed : share.candidateId ∉ bucket.attributed.ids := by
      rw [holds.attributed_ids, mem_toFinset]
      exact fresh
    rw [content_absorbCandidate notAttributed, holds.content, map_append, sum_append,
      map_singleton, sum_singleton, add_right_comm]

theorem Holds.native_eq_zero (noNative : ∀ share ∈ shares, share.includeNative = false) :
    bucket.economics.native = 0 := by
  have part := congrArg nativePart holds.content
  rw [map_add, map_list_sum, map_map] at part
  have isZero : (shares.map (nativePart ∘ CandidateShare.content)).sum = 0 := by
    apply sum_eq_zero
    intro value member
    rcases mem_map.mp member with ⟨share, isShare, rfl⟩
    exact nativePart_content share (noNative share isShare)
  rw [isZero] at part
  exact part.trans (zero_add _)

theorem Holds.mergeCrossCell (otherHolds : other.Holds others otherFailures)
    (noNative : ∀ share ∈ others, share.includeNative = false) :
    (bucket.mergeCrossCell other).Holds (shares ++ others) (failures + otherFailures) where
  valid := holds.valid.mergeCrossCell other
  content := by
    rw [content_mergeCrossCell _ _ (otherHolds.native_eq_zero noNative), holds.content,
      otherHolds.content, map_append, sum_append, ofFailures_add, add_add_add_comm]

end

end Holding

/-- A bucket into which candidates were absorbed directly. -/
def absorbAll (shares : List CandidateShare) : ScopeBucket :=
  shares.foldl absorbCandidate empty

variable {shares : List CandidateShare}

theorem Holds.foldl_absorbCandidate {bucket : ScopeBucket} {before : List CandidateShare}
    {failures : QualityContent} (holds : bucket.Holds before failures)
    (distinct : ((before ++ shares).map candidateId).Nodup) :
    (shares.foldl ScopeBucket.absorbCandidate bucket).Holds (before ++ shares) failures := by
  induction shares generalizing bucket before with
  | nil =>
      rw [append_nil]
      exact holds
  | cons share shares induction =>
      have fresh : share.candidateId ∉ before.map candidateId := by
        rw [map_append, map_cons] at distinct
        intro member
        exact (nodup_append.mp distinct).2.2 _ member _ mem_cons_self rfl
      rw [append_cons] at distinct
      rw [append_cons]
      exact induction (holds.absorbCandidate fresh) distinct

theorem holds_absorbAll (distinct : (shares.map candidateId).Nodup) :
    (absorbAll shares).Holds shares 0 :=
  holds_empty.foldl_absorbCandidate distinct

/-- What the bucket says of how many candidates there are, and of which kind. -/
structure CountsOnce (bucket : ScopeBucket) (shares : List CandidateShare) : Prop where
  attributed : bucket.attributed.ids = (shares.map candidateId).toFinset
  attributedLen : bucket.attributed.len = shares.length
  suspectedLen : bucket.suspectedCandidates.len =
    (shares.filter CandidateShare.isSuspected).length
  legitLen : bucket.legitCandidates.len =
    (shares.filter fun share => !share.isSuspected && share.isLegitOnly).length
  representative : bucket.representativeCandidateCount =
    (shares.map CandidateShare.representativeNfts).sum
  infringing : bucket.infringingNftCount =
    ((shares.filter CandidateShare.isSuspected).map CandidateShare.infringingNfts).sum
  lengths : bucket.Valid
  disjoint : Disjoint bucket.suspectedCandidates.ids bucket.legitCandidates.ids

section Counting

variable {bucket : ScopeBucket} {shares : List CandidateShare} {failures : QualityContent}

section

variable (holds : bucket.Holds shares failures)
include holds

theorem Holds.suspected_ids :
    bucket.suspectedCandidates.ids =
      ((shares.filter CandidateShare.isSuspected).map candidateId).toFinset := by
  have part := congrArg suspectedPart holds.content
  rw [map_add, map_list_sum, map_map] at part
  simp only [Function.comp_def, suspectedPart_content] at part
  have ids := congrArg IdUnion.ids part
  rw [IdUnion.ids_add, IdUnion.ids_sum_filter] at ids
  exact ids.trans (Finset.union_empty _)

theorem Holds.legit_ids :
    bucket.legitCandidates.ids =
      ((shares.filter fun share => !share.isSuspected && share.isLegitOnly).map
        candidateId).toFinset := by
  have part := congrArg legitPart holds.content
  rw [map_add, map_list_sum, map_map] at part
  simp only [Function.comp_def, legitPart_content] at part
  have ids := congrArg IdUnion.ids part
  rw [IdUnion.ids_add, IdUnion.ids_sum_filter] at ids
  exact ids.trans (Finset.union_empty _)

theorem Holds.representative_eq :
    bucket.representativeCandidateCount =
      (shares.map CandidateShare.representativeNfts).sum := by
  have part := congrArg representativePart holds.content
  rw [map_add, map_list_sum, map_map] at part
  simp only [Function.comp_def, representativePart_content] at part
  exact part

theorem Holds.infringing_eq :
    bucket.infringingNftCount =
      ((shares.filter CandidateShare.isSuspected).map CandidateShare.infringingNfts).sum := by
  have part := congrArg infringingPart holds.content
  rw [map_add, map_list_sum, map_map] at part
  simp only [Function.comp_def, infringingPart_content] at part
  rw [sum_map_filter]
  exact part

end

theorem card_ids (keep : CandidateShare → Bool)
    (distinct : (shares.map candidateId).Nodup) :
    ((shares.filter keep).map candidateId).toFinset.card =
      (shares.filter keep).length := by
  have kept : ((shares.filter keep).map candidateId).Nodup :=
    distinct.sublist (filter_sublist.map _)
  rw [toFinset_card_of_nodup kept, length_map]

theorem Holds.countsOnce (holds : bucket.Holds shares failures)
    (distinct : (shares.map candidateId).Nodup) : bucket.CountsOnce shares where
  attributed := holds.attributed_ids
  attributedLen := by
    rw [holds.valid.attributed, holds.attributed_ids, toFinset_card_of_nodup distinct,
      length_map]
  suspectedLen := by
    rw [holds.valid.suspectedCandidates, holds.suspected_ids, card_ids _ distinct]
  legitLen := by
    rw [holds.valid.legitCandidates, holds.legit_ids, card_ids _ distinct]
  representative := holds.representative_eq
  infringing := holds.infringing_eq
  lengths := holds.valid
  disjoint := by
    rw [holds.suspected_ids, holds.legit_ids, Finset.disjoint_left]
    intro id isSuspected isLegit
    rcases mem_map.mp (mem_toFinset.mp isSuspected) with ⟨share, member, rfl⟩
    rcases mem_map.mp (mem_toFinset.mp isLegit) with ⟨other, otherMember, same⟩
    have members := mem_filter.mp member
    have otherMembers := mem_filter.mp otherMember
    have equal : other = share :=
      inj_on_of_nodup_map distinct otherMembers.1 members.1 same
    rw [equal, members.2] at otherMembers
    exact absurd otherMembers.2 (by simp)

end Counting

end ScopeBucket

end NftData.Analysis
