import NftData.Foundation.Saturating
import NftData.Dedup.Entity.Types

namespace NftData.Dedup

open Finset

/-! # Scope counts

Every scope counts the duplicate contracts and the duplicate NFTs of a primary chain.
Workers count on their own and their tables are merged. -/

def u64Max : Nat := 2 ^ 64 - 1

inductive Dimension
  | name
  | tokenUri
  | imageUri
  | metadata
  deriving DecidableEq, Repr

inductive ScopeKind
  | intraChain
  | crossChainSummary
  | chainMatrix
  deriving DecidableEq, Repr

structure ScopeKey where
  kind : ScopeKind
  primaryChain : Nat
  secondaryChain : Option Nat
  dimension : Dimension
  deriving DecidableEq, Repr

structure ScopeCounts where
  duplicateContractCount : Saturating u64Max
  duplicateNftCount : Saturating u64Max
  deriving DecidableEq

@[ext] structure ScopeAggregate where
  contracts : Finset Nat
  nftRows : Saturating u64Max

/-- `ScopeAggregate::default()`. -/
def ScopeAggregate.default : ScopeAggregate := ⟨∅, 0⟩

def LocalUriAccumulator : Type := ScopeKey → Option ScopeAggregate

namespace LocalUriAccumulator

def empty : LocalUriAccumulator := fun _ => none

/-- `scopes.entry(key).or_default()`, changed in place. -/
def entry (accumulator : LocalUriAccumulator) (key : ScopeKey)
    (change : ScopeAggregate → ScopeAggregate) : LocalUriAccumulator :=
  Function.update accumulator key (some (change ((accumulator key).getD .default)))

def add (accumulator : LocalUriAccumulator) (posting : UriPosting) (nftCount : Nat)
    (dimension : Dimension) (kind : ScopeKind) (secondaryChain : Option Nat) :
    LocalUriAccumulator :=
  accumulator.entry ⟨kind, posting.chainId, secondaryChain, dimension⟩ fun aggregate =>
    { contracts := insert posting.contractId aggregate.contracts
      nftRows := aggregate.nftRows + .ofNat _ nftCount }

def merge (accumulator other : LocalUriAccumulator) : LocalUriAccumulator := fun key =>
  match other key with
  | none => accumulator key
  | some source =>
      let target := (accumulator key).getD .default
      some
        { contracts := target.contracts ∪ source.contracts
          nftRows := target.nftRows + source.nftRows }

def addGroup (accumulator : LocalUriAccumulator) (primaryChain : Nat) (contracts : List Nat)
    (nftRows : Saturating u64Max) (dimension : Dimension) (kind : ScopeKind)
    (secondaryChain : Option Nat) : LocalUriAccumulator :=
  if nftRows = 0 then
    accumulator
  else
    accumulator.entry ⟨kind, primaryChain, secondaryChain, dimension⟩ fun aggregate =>
      { contracts := aggregate.contracts ∪ contracts.toFinset
        nftRows := aggregate.nftRows + nftRows }

end LocalUriAccumulator

/-- The summary. Of its deduplication state only the completed dimensions matter to the
URI stage. -/
structure SummaryAccumulator where
  counts : ScopeKey → Option ScopeCounts
  completedBulkDimensions : Finset Dimension

namespace SummaryAccumulator

/-- `SummaryAccumulator::default()`. -/
def default : SummaryAccumulator := ⟨fun _ => none, ∅⟩

def mergeUniqueContractCounts (accumulator : SummaryAccumulator)
    (totals : ScopeKey → Option ScopeCounts) : SummaryAccumulator :=
  { accumulator with
    counts := fun key =>
      match totals key with
      | none => accumulator.counts key
      | some value =>
          let target := (accumulator.counts key).getD ⟨0, 0⟩
          some
            { duplicateContractCount :=
                target.duplicateContractCount + value.duplicateContractCount
              duplicateNftCount := target.duplicateNftCount + value.duplicateNftCount } }

def mergeCompletedDimensionCounts (accumulator : SummaryAccumulator) (dimension : Dimension)
    (totals : ScopeKey → Option ScopeCounts) : SummaryAccumulator :=
  if dimension ∈ accumulator.completedBulkDimensions then
    accumulator
  else
    { accumulator with
      completedBulkDimensions := insert dimension accumulator.completedBulkDimensions
    }.mergeUniqueContractCounts totals

end SummaryAccumulator

/-- `contracts.len() as u64`, for at most 2^32 contracts. -/
def ScopeAggregate.counts (aggregate : ScopeAggregate) : ScopeCounts where
  duplicateContractCount := .ofNat _ aggregate.contracts.card
  duplicateNftCount := aggregate.nftRows

def LocalUriAccumulator.flush (accumulator : LocalUriAccumulator)
    (summary : SummaryAccumulator) (dimension : Dimension) : SummaryAccumulator :=
  summary.mergeCompletedDimensionCounts dimension fun key =>
    (accumulator key).map ScopeAggregate.counts

namespace LocalUriAccumulator

@[simp] theorem merge_empty (accumulator : LocalUriAccumulator) :
    accumulator.merge empty = accumulator := rfl

@[simp] theorem empty_merge (accumulator : LocalUriAccumulator) :
    empty.merge accumulator = accumulator := by
  funext key
  simp only [merge]
  cases found : accumulator key with
  | none => rfl
  | some source =>
      simp [empty, ScopeAggregate.default]

theorem merge_assoc (first second third : LocalUriAccumulator) :
    (first.merge second).merge third = first.merge (second.merge third) := by
  funext key
  cases thirdAt : third key with
  | none => simp only [merge, thirdAt]
  | some source =>
      cases secondAt : second key with
      | none => simp [merge, thirdAt, secondAt, ScopeAggregate.default]
      | some middle =>
          simp [merge, thirdAt, secondAt, union_assoc, add_assoc]

theorem merge_comm (first second : LocalUriAccumulator) :
    first.merge second = second.merge first := by
  funext key
  cases firstAt : first key with
  | none =>
      cases secondAt : second key with
      | none => simp [merge, firstAt, secondAt]
      | some right => simp [merge, firstAt, secondAt, ScopeAggregate.default]
  | some left =>
      cases secondAt : second key with
      | none => simp [merge, firstAt, secondAt, ScopeAggregate.default]
      | some right =>
          simp [merge, firstAt, secondAt, union_comm, add_comm]

def single (key : ScopeKey) (aggregate : ScopeAggregate) : LocalUriAccumulator :=
  Function.update empty key (some aggregate)

@[simp] theorem single_self (key : ScopeKey) (aggregate : ScopeAggregate) :
    single key aggregate key = some aggregate :=
  Function.update_self ..

theorem single_ne {key other : ScopeKey} (different : other ≠ key)
    (aggregate : ScopeAggregate) : single key aggregate other = none :=
  Function.update_of_ne different ..

theorem entry_eq_merge (accumulator : LocalUriAccumulator) (key : ScopeKey)
    (aggregate : ScopeAggregate) (change : ScopeAggregate → ScopeAggregate)
    (changes : ∀ target, change target =
      ⟨target.contracts ∪ aggregate.contracts, target.nftRows + aggregate.nftRows⟩) :
    accumulator.entry key change = accumulator.merge (single key aggregate) := by
  funext other
  by_cases same : other = key
  · subst same
    rw [merge, single_self]
    exact (Function.update_self ..).trans (congrArg some (changes _))
  · rw [merge, single_ne same]
    exact Function.update_of_ne same ..

def collect (contributions : List (ScopeKey × ScopeAggregate)) : LocalUriAccumulator :=
  contributions.foldl (fun accumulator entry => accumulator.merge (single entry.1 entry.2))
    empty

def contribution (posting : UriPosting) (nftCount : Nat) (dimension : Dimension)
    (kind : ScopeKind) (secondaryChain : Option Nat) : ScopeKey × ScopeAggregate :=
  (⟨kind, posting.chainId, secondaryChain, dimension⟩,
    ⟨{posting.contractId}, .ofNat _ nftCount⟩)

theorem add_eq_merge (accumulator : LocalUriAccumulator) (posting : UriPosting)
    (nftCount : Nat) (dimension : Dimension) (kind : ScopeKind)
    (secondaryChain : Option Nat) :
    accumulator.add posting nftCount dimension kind secondaryChain =
      accumulator.merge
        (collect [contribution posting nftCount dimension kind secondaryChain]) := by
  have alone : collect [contribution posting nftCount dimension kind secondaryChain] =
      single _ _ := empty_merge _
  rw [alone]
  apply entry_eq_merge
  intro target
  simp only [contribution, insert_eq, union_comm]

theorem foldl_merge_single (accumulator : LocalUriAccumulator)
    (contributions : List (ScopeKey × ScopeAggregate)) :
    contributions.foldl (fun accumulator entry => accumulator.merge (single entry.1 entry.2))
        accumulator = accumulator.merge (collect contributions) := by
  induction contributions generalizing accumulator with
  | nil => rfl
  | cons head tail induction =>
      rw [collect, List.foldl_cons, List.foldl_cons, induction, induction (empty.merge _),
        empty_merge, merge_assoc]

theorem collect_append (first second : List (ScopeKey × ScopeAggregate)) :
    collect (first ++ second) = (collect first).merge (collect second) := by
  rw [collect, List.foldl_append, foldl_merge_single]
  rfl

theorem collect_cons (head : ScopeKey × ScopeAggregate)
    (tail : List (ScopeKey × ScopeAggregate)) :
    collect (head :: tail) = (single head.1 head.2).merge (collect tail) := by
  rw [← List.singleton_append, collect_append]
  exact congrArg (fun table => merge table (collect tail)) (empty_merge _)

theorem collect_perm {first second : List (ScopeKey × ScopeAggregate)}
    (perm : first.Perm second) : collect first = collect second := by
  induction perm with
  | nil => rfl
  | cons head _ induction => rw [collect_cons, collect_cons, induction]
  | swap left right tail =>
      simp only [collect_cons, ← merge_assoc]
      rw [merge_comm (single right.1 right.2)]
  | trans _ _ firstInduction secondInduction => exact firstInduction.trans secondInduction

theorem collect_apply (contributions : List (ScopeKey × ScopeAggregate)) (key : ScopeKey) :
    collect contributions key =
      if contributions.filter (fun entry => entry.1 = key) = [] then none
      else some
        { contracts := ((contributions.filter fun entry => entry.1 = key).map
            fun entry => entry.2.contracts).foldr (· ∪ ·) ∅
          nftRows := ((contributions.filter fun entry => entry.1 = key).map
            fun entry => entry.2.nftRows).sum } := by
  induction contributions with
  | nil => rfl
  | cons head tail induction =>
      rw [collect_cons]
      by_cases same : head.1 = key
      · rw [List.filter_cons_of_pos (by simpa using same), if_neg (List.cons_ne_nil _ _)]
        subst same
        rw [merge_comm, merge, single_self]
        simp only [induction]
        split
        · next none =>
            simp [none, ScopeAggregate.default]
        · simp [union_comm, add_comm]
      · rw [List.filter_cons_of_neg (by simpa using same), ← induction, merge_comm, merge,
          single_ne (Ne.symm same)]

end LocalUriAccumulator

end NftData.Dedup
