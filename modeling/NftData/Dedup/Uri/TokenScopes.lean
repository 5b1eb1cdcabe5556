import NftData.Foundation.Runs
import NftData.Dedup.Uri.TokenContributions

namespace NftData.Dedup

/-! # Token scopes

Both kinds of worker contribute the same for a group, up to the order. -/

open List

def groupChains (members : List UriPosting) : List Nat :=
  (members.map UriPosting.chainId).dedup

/-- The contributions of a posting of a group. -/
def postingScopes (members : List UriPosting) (posting : UriPosting) :
    List (ScopeKey × ScopeAggregate) :=
  (if 2 ≤ members.countP fun other => other.chainId = posting.chainId then
      [tokenScope posting .intraChain none] else []) ++
    if 2 ≤ (groupChains members).length then
      tokenScope posting .crossChainSummary none ::
        (TokenContributions.peers posting (groupChains members)).map fun chain =>
          tokenScope posting .chainMatrix (some chain)
    else []

def groupScopes (members : List UriPosting) : List (ScopeKey × ScopeAggregate) :=
  if 2 ≤ members.length then members.flatMap (postingScopes members) else []

theorem testBit_foldl_mask (members : List UriPosting) (mask chain : Nat) :
    (members.foldl (fun mask posting => mask ||| 1 <<< posting.chainId) mask).testBit chain =
      (mask.testBit chain || decide (∃ posting ∈ members, posting.chainId = chain)) := by
  induction members generalizing mask with
  | nil => simp
  | cons head tail induction =>
      rw [foldl_cons, induction, Nat.testBit_or, Nat.one_shiftLeft, Nat.testBit_two_pow]
      simp [Bool.or_assoc]

variable {members : List UriPosting}

theorem setBits_perm (few : ∀ posting ∈ members, posting.chainId < compactChains) :
    (setBits (members.foldl (fun mask posting => mask ||| 1 <<< posting.chainId) 0)).Perm
      (groupChains members) := by
  apply (perm_ext_iff_of_nodup (nodup_range.filter _) (nodup_dedup _)).mpr
  intro chain
  rw [mem_filter, testBit_foldl_mask, mem_dedup, mem_map]
  constructor
  · rintro ⟨_, present⟩
    simpa using present
  · rintro ⟨posting, member, equal⟩
    refine ⟨mem_range.mpr (equal ▸ few posting member), ?_⟩
    simpa using ⟨posting, member, equal⟩

namespace TokenContributions

theorem uri_gather_map {α : Type} (values : List α) (added : α → TokenContributions) :
    (gather (values.map added)).uri = values.flatMap fun value => (added value).uri :=
  flatMap_map ..

theorem uri_onlyIf (condition : Prop) [Decidable condition] {α : Type} (values : List α)
    (added : α → TokenContributions) :
    (onlyIf condition (gather (values.map added))).uri =
      values.flatMap fun value => if condition then (added value).uri else [] := by
  by_cases holds : condition
  · simp only [onlyIf, holds, if_true, uri_gather_map]
  · simp [onlyIf, holds, none]

theorem uri_ofGroupCompact_perm (few : ∀ posting ∈ members, posting.chainId < compactChains) :
    (ofGroupCompact members).uri.Perm (members.flatMap (postingScopes members)) := by
  have chains := setBits_perm few
  rw [ofGroupCompact, uri_gather_map]
  apply List.Perm.flatMap_left
  intro posting _
  simp only [append, onlyIf, postingScopes, chains.length_eq]
  apply List.Perm.append
  · split <;> exact List.Perm.refl _
  · split
    · exact ((chains.filter _).map _).cons _
    · exact List.Perm.refl _

section

variable (iteration : IterationOrder)

theorem map_fst_postingsByChain (members : List UriPosting) :
    (postingsByChain iteration members).map Prod.fst =
      iteration.order (groupChains members) := by
  rw [postingsByChain, map_map]
  exact map_id _

/-- What the chains of a group contribute is what its postings contribute. -/
theorem flatMap_postingsByChain_perm {β : Type}
    (members : List UriPosting) (change : UriPosting → List β) :
    ((postingsByChain iteration members).flatMap fun entry => entry.2.flatMap change).Perm
      (members.flatMap change) := by
  have order := iteration.perm (groupChains members)
  have covers : ∀ posting ∈ members,
      posting.chainId ∈ iteration.order (groupChains members) := by
    intro posting member
    rw [order.mem_iff]
    exact mem_dedup.mpr (mem_map.mpr ⟨posting, member, rfl⟩)
  have grouped := flatMap_filter_perm (order.nodup_iff.mpr (nodup_dedup _)) covers
  rw [postingsByChain, flatMap_map, ← flatMap_assoc]
  exact grouped.flatMap_right change

theorem uri_ofGroupWide_perm (members : List UriPosting) :
    (ofGroupWide iteration members).uri.Perm (members.flatMap (postingScopes members)) := by
  have chains : ((postingsByChain iteration members).map Prod.fst).Perm
      (groupChains members) := map_fst_postingsByChain iteration members ▸ iteration.perm _
  apply List.Perm.trans _
    (flatMap_postingsByChain_perm iteration members (postingScopes members))
  rw [ofGroupWide, uri_gather_map]
  apply List.Perm.flatMap_left
  intro entry inChains
  rcases mem_map.mp inChains with ⟨chain, _, equal⟩
  have count : ∀ posting ∈ entry.2,
      entry.2.length = members.countP fun other => other.chainId = posting.chainId := by
    intro posting member
    subst equal
    rw [countP_eq_length_filter, of_decide_eq_true (mem_filter.mp member).2]
  simp only [append, uri_onlyIf]
  apply ((flatMap_append_perm _ _ _).append_right _).trans
  apply (flatMap_append_perm _ _ _).trans
  apply List.Perm.flatMap_left
  intro posting member
  rw [postingScopes, ← count posting member, chains.length_eq, List.append_assoc]
  apply List.Perm.append
  · split <;> exact List.Perm.refl _
  · split
    · exact ((chains.filter _).map _).cons _
    · exact List.Perm.refl _

theorem uri_ofGroup_perm {compact : Bool}
    (few : compact = true → ∀ posting ∈ members, posting.chainId < compactChains) :
    (ofGroup compact iteration members).uri.Perm (groupScopes members) := by
  rw [ofGroup, onlyIf, groupScopes]
  split
  · cases compact with
    | true => exact uri_ofGroupCompact_perm (few rfl)
    | false => exact uri_ofGroupWide_perm iteration members
  · exact List.Perm.refl _

end

/-- The same additions in another order. -/
structure Rearranged (first second : TokenContributions) : Prop where
  uri : first.uri.Perm second.uri
  intra : first.intra.Perm second.intra
  crossSummary : first.crossSummary.Perm second.crossSummary
  matrix : first.matrix.Perm second.matrix

namespace Rearranged

theorem refl (added : TokenContributions) : Rearranged added added :=
  ⟨.refl _, .refl _, .refl _, .refl _⟩

variable {second first : TokenContributions}

theorem append {firstNext secondNext : TokenContributions} (left : Rearranged first second)
    (right : Rearranged firstNext secondNext) :
    Rearranged (first.append firstNext) (second.append secondNext) :=
  ⟨left.uri.append right.uri, left.intra.append right.intra,
    left.crossSummary.append right.crossSummary, left.matrix.append right.matrix⟩

theorem gather {α : Type} {firstValues secondValues : List α}
    {first second : α → TokenContributions} (perm : firstValues.Perm secondValues)
    (each : ∀ value, Rearranged (first value) (second value)) :
    Rearranged (.gather (firstValues.map first)) (.gather (secondValues.map second)) := by
  simp only [TokenContributions.gather, flatMap_map]
  exact ⟨perm.flatMap fun value _ => (each value).uri,
    perm.flatMap fun value _ => (each value).intra,
    perm.flatMap fun value _ => (each value).crossSummary,
    perm.flatMap fun value _ => (each value).matrix⟩

theorem onlyIf (condition : Prop) [Decidable condition] (rearranged : Rearranged first second) :
    Rearranged (.onlyIf condition first) (.onlyIf condition second) := by
  rw [TokenContributions.onlyIf, TokenContributions.onlyIf]
  split
  · exact rearranged
  · exact refl _

theorem ofMatrix (posting : UriPosting) {first second : List Nat} (perm : first.Perm second) :
    Rearranged (.ofMatrix false posting first) (.ofMatrix false posting second) :=
  ⟨(perm.filter _).map _, .refl _, .refl _, (perm.filter _).flatMap_right _⟩

end Rearranged

theorem ofGroup_rearranged (compact : Bool) (first second : IterationOrder)
    (members : List UriPosting) :
    Rearranged (ofGroup compact first members) (ofGroup compact second members) := by
  apply Rearranged.onlyIf
  cases compact with
  | true => exact .refl _
  | false =>
      have perm : (postingsByChain first members).Perm (postingsByChain second members) :=
        ((first.perm _).trans (second.perm _).symm).map _
      have chains := perm.map Prod.fst
      rw [if_neg Bool.false_ne_true, if_neg Bool.false_ne_true, ofGroupWide, ofGroupWide,
        chains.length_eq]
      apply Rearranged.gather perm
      intro entry
      apply Rearranged.append (.refl _)
      apply Rearranged.onlyIf
      exact Rearranged.gather (.refl _) fun posting => .ofMatrix posting chains

end TokenContributions

end NftData.Dedup
