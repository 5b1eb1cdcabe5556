import Mathlib

namespace NftData

/-! # Sorted tables

Sorting forgets the order in which a hash table hands out its entries. -/

open List

/-- Rearranged lists sort to the same list when no two of their entries tie. -/
theorem insertionSort_eq_of_perm {α : Type*} {order : α → α → Prop} [DecidableRel order]
    [Std.Total order] [IsTrans α order] {first second : List α} (same : first.Perm second)
    (noTies : ∀ left ∈ first, ∀ right ∈ first, order left right → order right left →
      left = right) :
    first.insertionSort order = second.insertionSort order := by
  have sameSorted : (first.insertionSort order).Perm (second.insertionSort order) :=
    (perm_insertionSort order first).trans
      (same.trans (perm_insertionSort order second).symm)
  apply sameSorted.eq_of_pairwise
  · intro left right leftMember rightMember
    apply noTies left ((mem_insertionSort order).mp leftMember) right
    exact same.mem_iff.mpr ((mem_insertionSort order).mp rightMember)
  · exact pairwise_insertionSort order first
  · exact pairwise_insertionSort order second

section Neighbours

variable {α : Type*} [DecidableEq α] {values : List α}

theorem mem_destutter' {wanted head : α} :
    wanted ∈ values.destutter' (· ≠ ·) head ↔ wanted = head ∨ wanted ∈ values := by
  induction values generalizing head with
  | nil => simp
  | cons value values induction =>
      by_cases same : head = value
      · rw [destutter'_cons_neg _ (not_not.mpr same), induction, mem_cons, same]
        simp
      · rw [destutter'_cons_pos _ same, mem_cons, induction, mem_cons]

theorem mem_destutter {wanted : α} :
    wanted ∈ values.destutter (· ≠ ·) ↔ wanted ∈ values := by
  cases values with
  | nil => exact Iff.rfl
  | cons head values => rw [destutter_cons', mem_destutter', mem_cons]

/-- A sorted list without equal neighbours has no equal entries. -/
theorem pairwise_destutter {order : α → α → Prop} [IsTrans α order] [Std.Antisymm order]
    (sorted : values.Pairwise order) :
    (values.destutter (· ≠ ·)).Pairwise fun left right => order left right ∧ left ≠ right := by
  have trans : IsTrans α fun left right => order left right ∧ left ≠ right := by
    refine ⟨fun first second third => ?_⟩
    rintro ⟨firstSecond, different⟩ ⟨secondThird, _⟩
    refine ⟨IsTrans.trans _ _ _ firstSecond secondThird, ?_⟩
    rintro rfl
    exact different (antisymm firstSecond secondThird)
  rw [← isChain_iff_pairwise]
  have chain := (sorted.sublist (destutter_sublist (· ≠ ·) values)).isChain
  have apart := isChain_destutter (fun left right : α => left ≠ right) values
  generalize values.destutter (· ≠ ·) = kept at chain apart ⊢
  induction kept with
  | nil => exact .nil
  | cons head tail induction =>
      cases tail with
      | nil => exact .singleton head
      | cons next rest =>
          rw [isChain_cons_cons] at chain apart ⊢
          exact ⟨⟨chain.1, apart.1⟩, induction chain.2 apart.2⟩

end Neighbours

section StableSort

variable {α Key Other : Type*} [LinearOrder Key] [LinearOrder Other] {key : α → Key}
  {input middle output : List α}

/-- The output is in order, and the entries of one key stand as in the input. -/
structure StableSort (key : α → Key) (input output : List α) : Prop where
  sorted : output.Pairwise fun left right => key left ≤ key right
  stable : ∀ value, output.filter (key · = key value) = input.filter (key · = key value)

namespace StableSort

theorem perm (sort : StableSort key input output) : output.Perm input := by
  classical
  rw [perm_iff_count]
  intro value
  have counted : ∀ values : List α, (values.filter (key · = key value)).count value =
      values.count value := fun values => count_filter (by simp)
  rw [← counted output, sort.stable, counted]

theorem eq (first : StableSort key input middle) (second : StableSort key input output) :
    middle = output := by
  have same : ∀ value, middle.filter (key · = key value) = output.filter (key · = key value) :=
    fun value => (first.stable value).trans (second.stable value).symm
  have sorted := first.sorted
  have otherSorted := second.sorted
  clear first second
  induction middle generalizing output with
  | nil =>
      cases output with
      | nil => rfl
      | cons head tail => simpa using same head
  | cons value middle induction =>
      cases output with
      | nil => simpa using same value
      | cons other output =>
          have otherInside : other ∈ value :: middle :=
            mem_of_mem_filter ((same other).symm ▸ mem_filter.mpr ⟨mem_cons_self, by simp⟩)
          have inside : value ∈ other :: output :=
            mem_of_mem_filter (same value ▸ mem_filter.mpr ⟨mem_cons_self, by simp⟩)
          have sameKey : key value = key other := by
            apply le_antisymm
            · rcases mem_cons.mp otherInside with rfl | member
              · exact le_rfl
              · exact (pairwise_cons.mp sorted).1 other member
            · rcases mem_cons.mp inside with rfl | member
              · exact le_rfl
              · exact (pairwise_cons.mp otherSorted).1 value member
          have heads := same value
          simp only [filter_cons, sameKey, decide_true, if_true, cons.injEq] at heads
          obtain ⟨rfl, tails⟩ := heads
          congr 1
          apply induction _ sorted.of_cons otherSorted.of_cons
          intro wanted
          by_cases here : key value = key wanted
          · rw [← here]
            exact tails
          · simpa [filter_cons, here] using same wanted

theorem of_key {other : α → Other} (sort : StableSort key input output)
    (same : ∀ left right, key left ≤ key right ↔ other left ≤ other right) :
    StableSort other input output := by
  have sameKey : ∀ left right, key left = key right ↔ other left = other right := by
    intro left right
    rw [le_antisymm_iff, le_antisymm_iff, same, same]
  refine ⟨sort.sorted.imp fun atMost => (same _ _).mp atMost, fun value => ?_⟩
  simp only [← sameKey]
  exact sort.stable value

theorem lex {second : α → Other} (first : StableSort key input middle)
    (again : StableSort second middle output) :
    StableSort (fun value => toLex (second value, key value)) input output := by
  constructor
  · rw [pairwise_iff_forall_sublist]
    intro left right sublist
    rw [Prod.Lex.toLex_le_toLex]
    rcases (pairwise_iff_forall_sublist.mp again.sorted sublist).lt_or_eq with less | same
    · exact .inl less
    · refine .inr ⟨same, pairwise_iff_forall_sublist.mp first.sorted ?_⟩
      have kept := sublist.filter (second · = second left)
      rw [again.stable] at kept
      simpa [same] using kept.trans filter_sublist
  · intro value
    have split : (fun other => decide (toLex (second other, key other) =
        toLex (second value, key value))) =
        fun other => decide (key other = key value) && decide (second other = second value) := by
      funext other
      simp [and_comm]
    rw [split, ← filter_filter, again.stable, filter_comm, first.stable, filter_filter]
    simp only [Bool.and_comm]

end StableSort

def buckets (digit : α → Nat) (size : Nat) (values : List α) : List α :=
  (List.range size).flatMap fun bucket => values.filter (digit · = bucket)

variable {digit : α → Nat}

theorem buckets_succ (size : Nat) (values : List α) :
    buckets digit (size + 1) values = buckets digit size values ++ values.filter (digit · = size) := by
  simp [buckets, range_succ]

theorem filter_buckets (size : Nat) (values : List α) (wanted : Nat) :
    (buckets digit size values).filter (digit · = wanted) =
      if wanted < size then values.filter (digit · = wanted) else [] := by
  induction size with
  | zero => rfl
  | succ size induction =>
      rw [buckets_succ, filter_append, induction, filter_filter]
      by_cases here : wanted = size
      · simp [here]
      · have apart : ∀ value, (decide (digit value = wanted) && decide (digit value = size)) = false := by
          intro value
          simp only [Bool.and_eq_false_iff, decide_eq_false_iff_not]
          omega
        simp only [apart, filter_false, append_nil, Nat.lt_succ_iff_lt_or_eq, here, or_false]

theorem stableSort_buckets {size : Nat} (bounded : ∀ value, digit value < size)
    (values : List α) : StableSort digit values (buckets digit size values) := by
  constructor
  · rw [buckets, pairwise_flatMap]
    constructor
    · intro bucket _
      apply pairwise_of_forall_mem_list
      intro left inLeft right inRight
      simp only [mem_filter, decide_eq_true_eq] at inLeft inRight
      omega
    · refine pairwise_lt_range.imp fun less left inLeft right inRight => ?_
      simp only [mem_filter, decide_eq_true_eq] at inLeft inRight
      omega
  · intro value
    rw [filter_buckets, if_pos (bounded value)]

end StableSort

section Writes

variable {α : Type*}

def writeAll (slots : List (Option α)) (writes : List (α × Nat)) : List (Option α) :=
  writes.foldl (fun slots write => slots.set write.2 (some write.1)) slots

theorem writeAll_zipIdx (before slots : List (Option α)) {result : List α}
    (length : slots.length = result.length) :
    writeAll (before ++ slots) (result.zipIdx before.length) = before ++ result.map some := by
  induction result generalizing before slots with
  | nil =>
      rw [length_eq_zero_iff.mp length]
      rfl
  | cons value result induction =>
      cases slots with
      | nil => cases length
      | cons slot slots =>
          have written := induction (before ++ [some value]) slots (Nat.succ.inj length)
          rw [length_append, length_singleton, append_assoc, append_assoc] at written
          rw [zipIdx_cons, writeAll, foldl_cons, set_append_right _ _ le_rfl, Nat.sub_self]
          exact written

/-- Every slot has one write, so the order of the writes does not matter. -/
theorem writeAll_eq {slots : List (Option α)} {result : List α} {writes : List (α × Nat)}
    (length : slots.length = result.length) (each : writes.Perm result.zipIdx) :
    writeAll slots writes = result.map some := by
  have sameOrder : writeAll slots writes = writeAll slots result.zipIdx := by
    apply each.foldl_eq'
    intro first inFirst second inSecond slots
    by_cases here : first.2 = second.2
    · have firstAt := mem_zipIdx_iff_getElem?.mp (each.mem_iff.mp inFirst)
      have secondAt := mem_zipIdx_iff_getElem?.mp (each.mem_iff.mp inSecond)
      rw [here, secondAt, Option.some.injEq] at firstAt
      rw [here, firstAt]
    · exact set_comm _ _ here
  rw [sameOrder]
  exact writeAll_zipIdx [] slots length

end Writes

end NftData
