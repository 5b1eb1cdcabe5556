import Mathlib

namespace NftData

/-! # The least values of a set

The least so many values of a finite set, as a bounded heap keeps them while the values come in:
a value may be added while there is room, or take the place of the greatest one kept. -/

open List

section LeastPart

variable {α : Type*} [LinearOrder α]

/-- The chosen values are the least of all, and as many as there is room for. -/
structure IsLeastPart (capacity : Nat) (all chosen : Finset α) : Prop where
  inside : chosen ⊆ all
  bounded : chosen.card ≤ capacity
  below : ∀ other ∈ all, other ∉ chosen → chosen.card = capacity ∧ ∀ kept ∈ chosen, kept < other

namespace IsLeastPart

variable {capacity : Nat} {all chosen more kept joined : Finset α} {value greatest : α}

theorem empty (capacity : Nat) : IsLeastPart capacity (∅ : Finset α) ∅ where
  inside := Finset.Subset.refl _
  bounded := Nat.zero_le _
  below := fun _ member => absurd member (Finset.notMem_empty _)

section

variable (least : IsLeastPart capacity all chosen)
include least

theorem again (member : value ∈ chosen) :
    IsLeastPart capacity (insert value all) chosen := by
  rw [Finset.insert_eq_of_mem (least.inside member)]
  exact least

theorem skip (full : chosen.card = capacity)
    (above : ∀ kept ∈ chosen, kept < value) : IsLeastPart capacity (insert value all) chosen where
  inside := fun _ member => Finset.mem_insert_of_mem (least.inside member)
  bounded := least.bounded
  below := by
    intro other member outside
    rcases Finset.mem_insert.mp member with rfl | before
    · exact ⟨full, above⟩
    · exact least.below other before outside

theorem mem_of_room (room : chosen.card < capacity) (member : value ∈ all) : value ∈ chosen := by
  by_contra outside
  have full := (least.below value member outside).1
  omega

theorem add (room : chosen.card < capacity) :
    IsLeastPart capacity (insert value all) (insert value chosen) where
  inside := Finset.insert_subset_insert value least.inside
  bounded := (Finset.card_insert_le value chosen).trans room
  below := by
    intro other member outside
    rw [Finset.mem_insert, not_or] at outside
    have before := Finset.mem_of_mem_insert_of_ne member outside.1
    exact absurd (least.mem_of_room room before) outside.2

theorem notMem_of_lt (isKept : greatest ∈ chosen)
    (smaller : value < greatest) (outside : value ∉ chosen) : value ∉ all := by
  intro member
  have above := (least.below value member outside).2 greatest isKept
  exact absurd above smaller.not_gt

theorem replace (full : chosen.card = capacity)
    (isKept : greatest ∈ chosen) (isGreatest : ∀ kept ∈ chosen, kept ≤ greatest)
    (smaller : value < greatest) (outside : value ∉ chosen) :
    IsLeastPart capacity (insert value all) (insert value (chosen.erase greatest)) := by
  have notErased : value ∉ chosen.erase greatest := fun member =>
    outside (Finset.mem_of_mem_erase member)
  have size : (insert value (chosen.erase greatest)).card = capacity := by
    rw [Finset.card_insert_of_notMem notErased, Finset.card_erase_add_one isKept, full]
  -- What is kept now is at most the greatest value, which alone was given up.
  have belowGreatest : ∀ kept ∈ insert value (chosen.erase greatest), kept < greatest := by
    intro kept member
    rcases Finset.mem_insert.mp member with rfl | before
    · exact smaller
    · have parts := Finset.mem_erase.mp before
      exact lt_of_le_of_ne (isGreatest kept parts.2) parts.1
  exact {
    inside := Finset.insert_subset_insert value ((Finset.erase_subset _ _).trans least.inside)
    bounded := size.le
    below := by
      intro other member notKept
      rw [Finset.mem_insert, not_or] at notKept
      have before := Finset.mem_of_mem_insert_of_ne member notKept.1
      have atLeast : greatest ≤ other := by
        by_cases chosenBefore : other ∈ chosen
        · by_contra less
          have different : other ≠ greatest := fun same => less same.ge
          exact notKept.2 (Finset.mem_erase.mpr ⟨different, chosenBefore⟩)
        · exact ((least.below other before chosenBefore).2 greatest isKept).le
      exact ⟨size, fun kept member => (belowGreatest kept member).trans_le atLeast⟩ }

end

/-- What is left out of a part does not matter to the whole. -/
theorem union (keptOf : IsLeastPart capacity more kept)
    (least : IsLeastPart capacity (all ∪ kept) joined) :
    IsLeastPart capacity (all ∪ more) joined where
  inside := least.inside.trans (Finset.union_subset_union_right keptOf.inside)
  bounded := least.bounded
  below := by
    intro other member outside
    by_cases seen : other ∈ all ∪ kept
    · exact least.below other seen outside
    · rw [Finset.mem_union, not_or] at seen
      have inMore := (Finset.mem_union.mp member).resolve_left seen.1
      have beyond := keptOf.below other inMore seen.2
      by_cases every : kept ⊆ joined
      · have same : kept = joined :=
          Finset.eq_of_subset_of_card_le every (least.bounded.trans beyond.1.ge)
        exact same ▸ beyond
      · obtain ⟨dropped, inKept, notJoined⟩ := Finset.not_subset.mp every
        have lower := least.below dropped (Finset.mem_union_right _ inKept) notJoined
        exact ⟨lower.1, fun value inside => (lower.2 value inside).trans (beyond.2 dropped inKept)⟩

theorem mem_part (least : IsLeastPart capacity all joined) (keptOf : IsLeastPart capacity more kept)
    (isPart : more ⊆ all) (member : value ∈ joined) (inMore : value ∈ more) : value ∈ kept := by
  by_contra outside
  have beyond := keptOf.below value inMore outside
  have every : insert value kept ⊆ joined := by
    intro other inside
    rcases Finset.mem_insert.mp inside with rfl | inKept
    · exact member
    · by_contra notJoined
      have lower := (least.below other (isPart (keptOf.inside inKept)) notJoined).2 value member
      exact absurd lower (beyond.2 other inKept).not_gt
  have size := Finset.card_le_card every
  rw [Finset.card_insert_of_notMem outside, beyond.1] at size
  exact absurd (size.trans least.bounded) (Nat.not_succ_le_self capacity)

theorem unique (first : IsLeastPart capacity all chosen) (second : IsLeastPart capacity all kept) :
    chosen = kept := by
  apply Finset.Subset.antisymm
  · exact fun value member =>
      first.mem_part second (Finset.Subset.refl _) member (first.inside member)
  · exact fun value member =>
      second.mem_part first (Finset.Subset.refl _) member (second.inside member)

end IsLeastPart

def leastValues (capacity : Nat) (all : Finset α) : List α := (all.sort (· ≤ ·)).take capacity

theorem nodup_leastValues (capacity : Nat) (all : Finset α) : (leastValues capacity all).Nodup :=
  (Finset.sort_nodup all (· ≤ ·)).sublist (take_sublist capacity _)

theorem isLeastPart_leastValues (capacity : Nat) (all : Finset α) :
    IsLeastPart capacity all (leastValues capacity all).toFinset := by
  have size : (leastValues capacity all).toFinset.card = min capacity all.card := by
    rw [toFinset_card_of_nodup (nodup_leastValues capacity all), leastValues,
      length_take, Finset.length_sort]
  exact {
    inside := by
      intro value member
      have inSort := mem_of_mem_take (mem_toFinset.mp member)
      exact (Finset.mem_sort (· ≤ ·)).mp inSort
    bounded := size.trans_le (Nat.min_le_left _ _)
    below := by
      intro other member outside
      rw [mem_toFinset] at outside
      have split := take_append_drop capacity (all.sort (· ≤ ·))
      have later : other ∈ (all.sort (· ≤ ·)).drop capacity := by
        have inSort := (Finset.mem_sort (· ≤ ·)).mpr member
        rw [← split, mem_append] at inSort
        exact inSort.resolve_left outside
      have enough : capacity ≤ all.card := by
        have positive := length_pos_of_mem later
        rw [length_drop, Finset.length_sort] at positive
        omega
      refine ⟨size.trans (Nat.min_eq_left enough), fun kept isKept => ?_⟩
      have ordered := Finset.pairwise_sort all (· ≤ ·)
      rw [← split, pairwise_append] at ordered
      rw [mem_toFinset] at isKept
      have different : kept ≠ other := fun same => outside (same ▸ isKept)
      exact lt_of_le_of_ne (ordered.2.2 kept isKept other later) different }

variable {heap : List α}

theorem IsLeastPart.perm_leastValues {capacity : Nat} {all : Finset α}
    (least : IsLeastPart capacity all heap.toFinset) (distinct : heap.Nodup) :
    heap.Perm (leastValues capacity all) := by
  have same := least.unique (isLeastPart_leastValues capacity all)
  rw [perm_ext_iff_of_nodup distinct (nodup_leastValues capacity all)]
  intro value
  rw [← mem_toFinset, same, mem_toFinset]

theorem toFinset_erase (distinct : heap.Nodup) (value : α) :
    (heap.erase value).toFinset = heap.toFinset.erase value := by
  ext other
  rw [mem_toFinset, distinct.mem_erase_iff, Finset.mem_erase, mem_toFinset]

/-- One entry leaves, and with it its key, when every entry has its own. -/
theorem toFinset_map_erase {β : Type*} [DecidableEq β] {key : α → β}
    (distinct : (heap.map key).Nodup) {value : α} (member : value ∈ heap) :
    ((heap.erase value).map key).toFinset = (heap.map key).toFinset.erase (key value) := by
  have apart := distinct.of_map key
  ext wanted
  simp only [mem_toFinset, mem_map, Finset.mem_erase, apart.mem_erase_iff]
  constructor
  · rintro ⟨kept, ⟨different, inHeap⟩, rfl⟩
    have keysDiffer := mt (inj_on_of_nodup_map distinct inHeap member) different
    exact ⟨keysDiffer, kept, inHeap, rfl⟩
  · rintro ⟨different, kept, inHeap, rfl⟩
    exact ⟨kept, ⟨fun same => different (congrArg key same), inHeap⟩, rfl⟩

theorem argmax_id_spec {greatest : α} (found : heap.argmax id = some greatest) :
    greatest ∈ heap ∧ ∀ value ∈ heap, value ≤ greatest :=
  ⟨argmax_mem found, fun _ member => le_of_mem_argmax (f := id) member found⟩

end LeastPart

end NftData
