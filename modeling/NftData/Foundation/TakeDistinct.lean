import NftData.Foundation.KeyedFold

namespace NftData

/-! # Bounded collections without repetition

Items arrive in pages. Each item whose key is new is kept, until a capacity is reached:
what is kept is a prefix of the items that are the first of their key. -/

open List

section

variable {Item Key : Type*} [DecidableEq Key] (key : Item → Key)

/-- Keep the items that are the first of their key. -/
def firstByKey (kept items : List Item) : List Item :=
  items.foldl
    (fun kept item => if key item ∈ kept.map key then kept else kept ++ [item]) kept

/-- Keep items with a new key, and stop when `capacity` items are kept. -/
def takeDistinct (capacity : Nat) : List Item → List Item → List Item
  | kept, [] => kept
  | kept, item :: items =>
      if key item ∈ kept.map key then
        takeDistinct capacity kept items
      else if capacity ≤ kept.length + 1 then
        kept ++ [item]
      else
        takeDistinct capacity (kept ++ [item]) items

theorem firstByKey_append (kept first second : List Item) :
    firstByKey key kept (first ++ second) = firstByKey key (firstByKey key kept first) second :=
  List.foldl_append

theorem prefix_firstByKey (kept items : List Item) : kept <+: firstByKey key kept items := by
  induction items generalizing kept with
  | nil => exact prefix_rfl
  | cons item items induction =>
      rw [firstByKey, foldl_cons, ← firstByKey]
      split
      · exact induction kept
      · exact (prefix_append kept [item]).trans (induction (kept ++ [item]))

theorem map_firstByKey (kept items : List Item) :
    (firstByKey key kept items).map key = pushKeys (kept.map key) (items.map key) := by
  induction items generalizing kept with
  | nil => rfl
  | cons item items induction =>
      rw [firstByKey, foldl_cons, ← firstByKey, map_cons, pushKeys,
        foldl_cons, ← pushKeys, induction, pushKey]
      split <;> simp

variable {kept items : List Item}

theorem mem_keys_firstByKey {other : Key} :
    other ∈ (firstByKey key kept items).map key ↔
      other ∈ kept.map key ∨ other ∈ items.map key := by
  rw [map_firstByKey, mem_pushKeys]

theorem firstByKey_of_nodup (nodup : ((kept ++ items).map key).Nodup) :
    firstByKey key kept items = kept ++ items := by
  induction items generalizing kept with
  | nil => exact (append_nil kept).symm
  | cons item items induction =>
      have fresh : key item ∉ kept.map key := by
        rw [map_append, map_cons] at nodup
        intro known
        exact (nodup_append.mp nodup).2.2 _ known _ mem_cons_self rfl
      rw [firstByKey, foldl_cons, if_neg fresh, ← firstByKey, induction]
      · rw [List.append_assoc, singleton_append]
      · rwa [List.append_assoc, singleton_append]

theorem mem_of_mem_firstByKey {item : Item} (member : item ∈ firstByKey key kept items) :
    item ∈ kept ∨ item ∈ items := by
  induction items generalizing kept with
  | nil => exact .inl member
  | cons head items induction =>
      rw [firstByKey, foldl_cons, ← firstByKey] at member
      rcases induction member with known | later
      · split at known
        · exact .inl known
        · rcases mem_append.mp known with old | new
          · exact .inl old
          · exact .inr (mem_cons.mpr (.inl (mem_singleton.mp new)))
      · exact .inr (mem_cons_of_mem head later)

theorem nodup_keys_firstByKey (items : List Item) (nodup : (kept.map key).Nodup) :
    ((firstByKey key kept items).map key).Nodup := by
  rw [map_firstByKey]
  exact nodup_pushKeys _ nodup

theorem takeDistinct_eq_take {capacity : Nat} (below : kept.length < capacity) (items : List Item) :
    takeDistinct key capacity kept items = (firstByKey key kept items).take capacity := by
  induction items generalizing kept with
  | nil => exact (take_of_length_le below.le).symm
  | cons item items induction =>
      rw [takeDistinct, firstByKey, foldl_cons, ← firstByKey]
      split
      · exact induction below
      · have length : (kept ++ [item]).length = kept.length + 1 := length_append
        split
        · next reached =>
            have exactLength : capacity = (kept ++ [item]).length := by omega
            rw [exactLength]
            exact prefix_iff_eq_take.mp (prefix_firstByKey key (kept ++ [item]) items)
        · next room =>
            apply induction
            omega

end

end NftData
