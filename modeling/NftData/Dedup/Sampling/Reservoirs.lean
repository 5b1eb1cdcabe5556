import NftData.Dedup.Sampling.PairSampler

namespace NftData.Dedup

/-! # What a reservoir keeps

A reservoir keeps the least of the entries it has seen, whatever their order; and a reservoir that
is merged into another need not be more than what it kept. -/

open List

namespace PairReservoir

variable {capacity : Nat} {priority : ContractPair → Nat} {seen more : Finset SampleEntry}
  {reservoir other : PairReservoir} {entry : SampleEntry}

/-- The reservoir after it has seen some entries, each with the priority of its pair. -/
structure Holds (capacity : Nat) (priority : ContractPair → Nat) (seen : Finset SampleEntry)
    (reservoir : PairReservoir) : Prop where
  distinct : reservoir.heap.Nodup
  retained : reservoir.retained = (reservoir.heap.map SampleEntry.pair).toFinset
  least : IsLeastPart capacity seen reservoir.heap.toFinset
  scored : ∀ entry ∈ seen, entry.priority = priority entry.pair

namespace Holds

theorem empty (capacity : Nat) (priority : ContractPair → Nat) :
    Holds capacity priority ∅ PairReservoir.empty where
  distinct := nodup_nil
  retained := rfl
  least := .empty capacity
  scored := fun _ member => absurd member (Finset.notMem_empty _)

section

variable (holds : Holds capacity priority seen reservoir)
include holds

theorem card :
    reservoir.heap.toFinset.card = reservoir.heap.length :=
  toFinset_card_of_nodup holds.distinct

theorem scored_heap (member : entry ∈ reservoir.heap) : entry.priority = priority entry.pair :=
  holds.scored entry (holds.least.inside (mem_toFinset.mpr member))

theorem mem_retained (scored : entry.priority = priority entry.pair) :
    entry.pair ∈ reservoir.retained ↔ entry ∈ reservoir.heap := by
  rw [holds.retained, mem_toFinset, mem_map]
  constructor
  · rintro ⟨kept, member, samePair⟩
    have same : kept = entry := by
      rw [SampleEntry.mk.injEq, holds.scored_heap member, scored, samePair]
      exact ⟨rfl, rfl⟩
    exact same ▸ member
  · exact fun member => ⟨entry, member, rfl⟩

/-- Each pair is in the heap once. -/
theorem distinct_pairs :
    (reservoir.heap.map SampleEntry.pair).Nodup := by
  rw [nodup_map_iff_inj_on holds.distinct]
  intro first firstMember second secondMember samePair
  rw [SampleEntry.mk.injEq, holds.scored_heap firstMember, holds.scored_heap secondMember, samePair]
  exact ⟨rfl, rfl⟩

section

variable (scored : entry.priority = priority entry.pair)
include scored

theorem scored_insert :
    ∀ other ∈ insert entry seen, other.priority = priority other.pair := by
  intro other member
  rcases Finset.mem_insert.mp member with rfl | before
  · exact scored
  · exact holds.scored other before

theorem add (outside : entry ∉ reservoir.heap) (room : reservoir.heap.toFinset.card < capacity) :
    Holds capacity priority (insert entry seen)
      ⟨entry :: reservoir.heap, insert entry.pair reservoir.retained⟩ where
  distinct := nodup_cons.mpr ⟨outside, holds.distinct⟩
  retained := by rw [holds.retained, map_cons, toFinset_cons]
  least := by
    rw [toFinset_cons]
    exact holds.least.add room
  scored := holds.scored_insert scored

/-- An entry that is new takes the place of the greatest. -/
theorem replace (outside : entry ∉ reservoir.heap)
    (full : reservoir.heap.length = capacity) {greatest : SampleEntry}
    (found : reservoir.heap.argmax id = some greatest) (smaller : entry < greatest) :
    Holds capacity priority (insert entry seen)
      ⟨entry :: reservoir.heap.erase greatest,
        insert entry.pair (reservoir.retained.erase greatest.pair)⟩ where
  distinct := by
    rw [nodup_cons]
    exact ⟨fun member => outside (mem_of_mem_erase member), holds.distinct.erase greatest⟩
  retained := by
    have erased := toFinset_map_erase holds.distinct_pairs (argmax_id_spec found).1
    rw [map_cons, toFinset_cons, erased, holds.retained]
  least := by
    have greatestSpec := argmax_id_spec found
    rw [toFinset_cons, toFinset_erase holds.distinct]
    apply holds.least.replace (holds.card.trans full) (mem_toFinset.mpr greatestSpec.1) _
      smaller (fun member => outside (mem_toFinset.mp member))
    exact fun kept member => greatestSpec.2 kept (mem_toFinset.mp member)
  scored := holds.scored_insert scored

end

end

theorem observe (holds : Holds capacity priority seen reservoir) (positive : capacity ≠ 0)
    (scored : entry.priority = priority entry.pair) :
    Holds capacity priority (insert entry seen) (reservoir.observe entry capacity).2 := by
  rw [PairReservoir.observe]
  split_ifs with retained aboveAll
  · have isKept := (holds.mem_retained scored).mp retained
    exact { holds with
      least := holds.least.again (mem_toFinset.mpr isKept)
      scored := holds.scored_insert scored }
  · have isKept := fun member => retained ((holds.mem_retained scored).mpr member)
    obtain ⟨full, above⟩ := aboveAll
    obtain ⟨greatest, found, atMost⟩ := (Option.any_eq_true _ _).mp above
    have highest := (argmax_id_spec found).2
    refine { holds with
      least := holds.least.skip (holds.card.trans full) fun kept member => ?_
      scored := holds.scored_insert scored }
    have inHeap := mem_toFinset.mp member
    have different : kept ≠ entry := fun same => isKept (same ▸ inHeap)
    exact lt_of_le_of_ne ((highest kept inHeap).trans (of_decide_eq_true atMost)) different
  · have isKept := fun member => retained ((holds.mem_retained scored).mpr member)
    rw [popFull]
    split_ifs with full
    · have nonempty : reservoir.heap ≠ [] := fun none => by
        rw [none, length_nil] at full
        exact positive full.symm
      cases found : reservoir.heap.argmax id with
      | none => exact absurd (argmax_eq_none.mp found) nonempty
      | some greatest =>
          have smaller : entry < greatest := by
            by_contra atLeast
            apply aboveAll
            rw [found]
            exact ⟨full, decide_eq_true (not_lt.mp atLeast)⟩
          exact holds.replace scored isKept full found smaller
    · have room : reservoir.heap.toFinset.card < capacity := by
        have bounded := holds.least.bounded
        rw [holds.card] at bounded ⊢
        omega
      exact holds.add scored isKept room

theorem merge_list (holds : Holds capacity priority seen reservoir) (positive : capacity ≠ 0)
    {entries : List SampleEntry}
    (scored : ∀ entry ∈ entries, entry.priority = priority entry.pair) :
    Holds capacity priority (seen ∪ entries.toFinset) (reservoir.merge entries capacity) := by
  induction entries generalizing seen reservoir with
  | nil =>
      rw [toFinset_nil, Finset.union_empty]
      exact holds
  | cons head tail induction =>
      have next := induction (holds.observe positive (scored head mem_cons_self))
        fun entry member => scored entry (mem_cons_of_mem head member)
      rw [toFinset_cons, Finset.union_insert, ← Finset.insert_union]
      exact next

theorem merge (holds : Holds capacity priority seen reservoir) (positive : capacity ≠ 0)
    (otherHolds : Holds capacity priority more other) {entries : List SampleEntry}
    (isOrder : entries.Perm other.heap) :
    Holds capacity priority (seen ∪ more) (reservoir.merge entries capacity) := by
  have scored : ∀ entry ∈ entries, entry.priority = priority entry.pair := fun entry member =>
    otherHolds.scored_heap (isOrder.mem_iff.mp member)
  have merged := holds.merge_list positive scored
  rw [toFinset_eq_of_perm _ _ isOrder] at merged
  exact { merged with
    least := otherHolds.least.union merged.least
    scored := fun entry member =>
      (Finset.mem_union.mp member).elim (holds.scored entry) (otherHolds.scored entry) }

end Holds

end PairReservoir

end NftData.Dedup
