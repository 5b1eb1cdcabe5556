import NftData.Foundation.Runs

namespace NftData

/-! # Occurrences

The values of a list with how often each occurs, and what two such lists have in common. -/

open List

section Occurrences

variable {Key : Type*} [LinearOrder Key]

/-- Sort the values, and count the runs of equal ones. -/
def occurrences (values : List Key) : List (Key × Nat) :=
  (runs id (values.insertionSort (· ≤ ·))).map fun run => (run.1, run.2.length)

theorem keys_occurrences (values : List Key) :
    (occurrences values).map Prod.fst =
      (runs id (values.insertionSort (· ≤ ·))).map Prod.fst := by
  rw [occurrences, map_map]
  rfl

theorem keys_occurrences_sorted (values : List Key) :
    ((occurrences values).map Prod.fst).Pairwise (· < ·) := by
  rw [keys_occurrences]
  exact keys_runs_sorted (pairwise_insertionSort (· ≤ ·) values)

theorem nodup_keys_occurrences (values : List Key) :
    ((occurrences values).map Prod.fst).Nodup :=
  (keys_occurrences_sorted values).imp ne_of_lt

variable {values : List Key}

theorem mem_keys_occurrences {value : Key} :
    value ∈ (occurrences values).map Prod.fst ↔ value ∈ values := by
  rw [keys_occurrences, mem_keys_runs]
  simp

theorem mem_occurrences {entry : Key × Nat} :
    entry ∈ occurrences values ↔ entry.1 ∈ values ∧ entry.2 = values.count entry.1 := by
  have counted : ∀ other ∈ occurrences values, other.2 = values.count other.1 := by
    intro other member
    rcases mem_map.mp member with ⟨run, inRuns, isEntry⟩
    have nodup := nodup_keys_occurrences values
    rw [keys_occurrences] at nodup
    have whole := run_eq_filter nodup inRuns
    rw [← isEntry]
    dsimp only
    rw [whole, ← countP_eq_length_filter,
      ← (perm_insertionSort (· ≤ ·) values).count_eq, List.count]
    exact countP_congr fun value _ => by rw [decide_eq_true_eq, beq_iff_eq]; rfl
  constructor
  · exact fun member =>
      ⟨mem_keys_occurrences.mp (mem_map_of_mem member), counted entry member⟩
  · intro known
    rcases mem_map.mp (mem_keys_occurrences.mpr known.1) with ⟨other, member, sameKey⟩
    have same : other = entry := by
      apply Prod.ext sameKey
      rw [counted other member, sameKey, known.2]
    rwa [← same]

theorem nodup_occurrences (values : List Key) : (occurrences values).Nodup :=
  (nodup_keys_occurrences values).of_map

theorem sum_occurrences {M : Type*} [AddCommMonoid M] (term : Key → Nat → M)
    (values : List Key) :
    ((occurrences values).map fun entry => term entry.1 entry.2).sum =
      ∑ value ∈ values.toFinset, term value (values.count value) := by
  rw [← sum_toFinset _ (nodup_occurrences values)]
  refine Finset.sum_bij' (fun entry _ => entry.1) (fun value _ => (value, values.count value))
    ?_ ?_ ?_ ?_ ?_
  · exact fun entry member =>
      mem_toFinset.mpr (mem_occurrences.mp (mem_toFinset.mp member)).1
  · exact fun value member =>
      mem_toFinset.mpr (mem_occurrences.mpr ⟨mem_toFinset.mp member, rfl⟩)
  · exact fun entry member =>
      Prod.ext rfl (mem_occurrences.mp (mem_toFinset.mp member)).2.symm
  · exact fun value _ => rfl
  · intro entry member
    rw [(mem_occurrences.mp (mem_toFinset.mp member)).2]

/-- A sum over a list is a sum over its occurrences. -/
theorem sum_histogram (term : Key → ℝ) (values : List Key) :
    ((occurrences values).map fun entry => term entry.1 * (entry.2 : ℝ)).sum =
      (values.map term).sum := by
  rw [sum_occurrences (fun value count => term value * (count : ℝ)), Finset.sum_list_map_count]
  refine Finset.sum_congr rfl fun value _ => ?_
  rw [nsmul_eq_mul, mul_comm]

theorem sum_counts (values : List Key) :
    ((occurrences values).map Prod.snd).sum = values.length := by
  have entries := sum_occurrences (fun _ count => count) values
  rw [entries]
  exact sum_toFinset_count_eq_length values

end Occurrences

section MergeJoin

variable {Key Left Right : Type*} [LinearOrder Key]

/-- Walk two lists sorted by their keys, and pair the entries with a common key. -/
def mergeJoin : List (Key × Left) → List (Key × Right) → List (Key × Left × Right)
  | (leftKey, leftValue) :: left, (rightKey, rightValue) :: right =>
      if leftKey = rightKey then
        (leftKey, leftValue, rightValue) :: mergeJoin left right
      else if leftKey < rightKey then
        mergeJoin left ((rightKey, rightValue) :: right)
      else
        mergeJoin ((leftKey, leftValue) :: left) right
  | _, _ => []
termination_by left right => left.length + right.length

@[simp] theorem mergeJoin_nil_left (right : List (Key × Right)) :
    mergeJoin ([] : List (Key × Left)) right = [] := by
  rw [mergeJoin.eq_def]

@[simp] theorem mergeJoin_nil_right (left : List (Key × Left)) :
    mergeJoin left ([] : List (Key × Right)) = [] := by
  rw [mergeJoin.eq_def]
  cases left <;> rfl

variable {key : Key}

/-- Entries before the next key on the other side are passed. -/
theorem mergeJoin_skip_right {value : Left} (left : List (Key × Left))
    {skipped : List (Key × Right)} (below : ∀ entry ∈ skipped, entry.1 < key)
    (right : List (Key × Right)) :
    mergeJoin ((key, value) :: left) (skipped ++ right) = mergeJoin ((key, value) :: left) right := by
  induction skipped with
  | nil => rfl
  | cons head tail induction =>
      have less := below head mem_cons_self
      rw [cons_append, mergeJoin, if_neg less.ne', if_neg less.not_gt]
      exact induction fun entry member => below entry (mem_cons_of_mem _ member)

theorem mergeJoin_swap (left : List (Key × Left)) (right : List (Key × Right)) :
    (mergeJoin right left).map (fun entry => (entry.1, entry.2.swap)) = mergeJoin left right := by
  fun_induction mergeJoin left right with
  | case1 leftValue left leftKey rightValue right induction =>
      rw [mergeJoin, if_pos rfl, map_cons, induction]
      rfl
  | case2 leftKey leftValue left rightKey rightValue right different less induction =>
      rw [mergeJoin, if_neg (Ne.symm different), if_neg less.not_gt, induction]
  | case3 leftKey leftValue left rightKey rightValue right different notLess induction =>
      have greater : rightKey < leftKey :=
        lt_of_le_of_ne (not_lt.mp notLess) (Ne.symm different)
      rw [mergeJoin, if_neg greater.ne, if_pos greater, induction]
  | case4 left right empty =>
      cases left with
      | nil => rw [mergeJoin_nil_right, map_nil]
      | cons leftHead left =>
          cases right with
          | nil => rw [mergeJoin_nil_left, map_nil]
          | cons rightHead right =>
              exact absurd rfl (empty leftHead.1 leftHead.2 left rightHead.1 rightHead.2 right rfl)

def KeySorted {Value : Type*} (entries : List (Key × Value)) : Prop :=
  entries.Pairwise fun left right => left.1 < right.1

theorem KeySorted.not_mem {Value : Type*} {value : Value} {rest : List (Key × Value)}
    (sorted : KeySorted ((key, value) :: rest)) (other : Value) :
    (key, other) ∉ rest :=
  fun member => lt_irrefl key (rel_of_pairwise_cons sorted member)

theorem KeySorted.nodup {Value : Type*} {entries : List (Key × Value)}
    (sorted : KeySorted entries) : entries.Nodup := by
  rw [List.Nodup]
  exact sorted.imp fun less same => less.ne (congrArg Prod.fst same)

variable {right : List (Key × Right)} {left : List (Key × Left)}

theorem mem_mergeJoin (leftSorted : KeySorted left) (rightSorted : KeySorted right)
    {entry : Key × Left × Right} :
    entry ∈ mergeJoin left right ↔
      (entry.1, entry.2.1) ∈ left ∧ (entry.1, entry.2.2) ∈ right := by
  fun_induction mergeJoin left right with
  | case1 leftValue left leftKey rightValue right induction =>
      rw [mem_cons, induction leftSorted.of_cons rightSorted.of_cons]
      rcases entry with ⟨key, inLeft, inRight⟩
      by_cases same : key = leftKey
      · rw [same]
        have notLeft := leftSorted.not_mem inLeft
        have notRight := rightSorted.not_mem inRight
        simp [notLeft, notRight]
      · simp [same]
  | case2 leftKey leftValue left rightKey rightValue right different less induction =>
      rw [induction leftSorted.of_cons rightSorted, mem_cons (a := (entry.1, entry.2.1))]
      constructor
      · exact fun both => ⟨.inr both.1, both.2⟩
      · intro both
        refine ⟨both.1.resolve_left fun isHead => ?_, both.2⟩
        have key : entry.1 = leftKey := congrArg Prod.fst isHead
        rcases mem_cons.mp both.2 with isRight | inRest
        · exact different (key.symm.trans (congrArg Prod.fst isRight))
        · have above := rel_of_pairwise_cons rightSorted inRest
          exact lt_irrefl _ ((key ▸ less).trans above)
  | case3 leftKey leftValue left rightKey rightValue right different notLess induction =>
      have greater : rightKey < leftKey :=
        lt_of_le_of_ne (not_lt.mp notLess) (Ne.symm different)
      rw [induction leftSorted rightSorted.of_cons, mem_cons (b := (rightKey, rightValue))]
      constructor
      · exact fun both => ⟨both.1, .inr both.2⟩
      · intro both
        refine ⟨both.1, both.2.resolve_left fun isHead => ?_⟩
        have key : entry.1 = rightKey := congrArg Prod.fst isHead
        rcases mem_cons.mp both.1 with isLeft | inRest
        · exact different ((congrArg Prod.fst isLeft).symm.trans key)
        · have above := rel_of_pairwise_cons leftSorted inRest
          exact lt_irrefl _ ((key ▸ greater).trans above)
  | case4 left right empty =>
      refine iff_of_false not_mem_nil fun both => ?_
      cases left with
      | nil => exact not_mem_nil both.1
      | cons leftHead left =>
          cases right with
          | nil => exact not_mem_nil both.2
          | cons rightHead right =>
              exact empty leftHead.1 leftHead.2 left rightHead.1 rightHead.2 right rfl rfl

theorem nodup_mergeJoin (leftSorted : KeySorted left) (rightSorted : KeySorted right) :
    (mergeJoin left right).Nodup := by
  fun_induction mergeJoin left right with
  | case1 leftValue left leftKey rightValue right induction =>
      rw [nodup_cons, mem_mergeJoin leftSorted.of_cons rightSorted.of_cons]
      refine ⟨fun both => ?_, induction leftSorted.of_cons rightSorted.of_cons⟩
      exact lt_irrefl _ (rel_of_pairwise_cons leftSorted both.1)
  | case2 leftKey leftValue left rightKey rightValue right different less induction =>
      exact induction leftSorted.of_cons rightSorted
  | case3 leftKey leftValue left rightKey rightValue right different notLess induction =>
      exact induction leftSorted rightSorted.of_cons
  | case4 => exact nodup_nil

theorem mergeJoin_self (entries : List (Key × Left)) :
    mergeJoin entries entries = entries.map fun entry => (entry.1, entry.2, entry.2) := by
  induction entries with
  | nil => rw [mergeJoin.eq_def, map_nil]
  | cons head tail induction =>
      rcases head with ⟨key, value⟩
      rw [mergeJoin, if_pos rfl, induction, map_cons]

theorem mergeJoin_left_sublist (left : List (Key × Left)) (right : List (Key × Right)) :
    ((mergeJoin left right).map fun entry => (entry.1, entry.2.1)).Sublist left := by
  fun_induction mergeJoin left right with
  | case1 leftValue left leftKey rightValue right induction => exact induction.cons_cons _
  | case2 leftKey leftValue left rightKey rightValue right different less induction =>
      exact induction.cons _
  | case3 leftKey leftValue left rightKey rightValue right different notLess induction =>
      exact induction
  | case4 => exact nil_sublist _

theorem mergeJoin_right_sublist (left : List (Key × Left)) (right : List (Key × Right)) :
    ((mergeJoin left right).map fun entry => (entry.1, entry.2.2)).Sublist right := by
  fun_induction mergeJoin left right with
  | case1 leftValue left leftKey rightValue right induction => exact induction.cons_cons _
  | case2 leftKey leftValue left rightKey rightValue right different less induction =>
      exact induction
  | case3 leftKey leftValue left rightKey rightValue right different notLess induction =>
      exact induction.cons _
  | case4 => exact nil_sublist _

end MergeJoin

end NftData
