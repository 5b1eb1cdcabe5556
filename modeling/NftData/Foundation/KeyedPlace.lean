import Mathlib

namespace NftData

/-! # Placing an entry by its key

A list in strictly increasing key order is determined by its entries. Placing one
more entry replaces the entry of its key, and the first entries of the result
depend on the first entries of the list only. -/

open List

section KeyedPlace

variable {Item Key : Type*} [LinearOrder Key] (key : Item → Key)

/-- Put an entry where its key belongs, in the place of the entry of its key. -/
def placeByKey (entry : Item) : List Item → List Item
  | [] => [entry]
  | head :: tail =>
      if key head < key entry then
        head :: placeByKey entry tail
      else if key entry < key head then
        entry :: head :: tail
      else
        entry :: tail

def KeysIncreasing (entries : List Item) : Prop :=
  entries.Pairwise fun left right => key left < key right

variable {key} {entries before after : List Item} {entry : Item}

section

variable (increasing : KeysIncreasing key entries)
include increasing

theorem KeysIncreasing.injective
    {left right : Item} (leftMember : left ∈ entries) (rightMember : right ∈ entries)
    (equal : key left = key right) : left = right := by
  induction entries with
  | nil => cases leftMember
  | cons head tail induction =>
      rcases pairwise_cons.mp increasing with ⟨headLt, tailIncreasing⟩
      rcases mem_cons.mp leftMember with leftHead | leftTail <;>
        rcases mem_cons.mp rightMember with rightHead | rightTail
      · exact leftHead.trans rightHead.symm
      · exact absurd (leftHead ▸ equal) (headLt right rightTail).ne
      · exact absurd (rightHead ▸ equal) (headLt left leftTail).ne'
      · exact induction tailIncreasing leftTail rightTail

theorem KeysIncreasing.eq_of_mem_iff {others : List Item} (othersIncreasing : KeysIncreasing key others)
    (same : ∀ item, item ∈ entries ↔ item ∈ others) : entries = others := by
  have nodup : ∀ {items : List Item}, KeysIncreasing key items → items.Nodup :=
    fun ordered => ordered.imp fun less equal => absurd (congrArg key equal) less.ne
  have perm : entries.Perm others :=
    (perm_ext_iff_of_nodup (nodup increasing) (nodup othersIncreasing)).mpr same
  apply perm.eq_of_pairwise _ increasing othersIncreasing
  intro left right _ _ less greater
  exact absurd (less.trans greater) (lt_irrefl _)

theorem mem_placeByKey {item : Item} :
    item ∈ placeByKey key entry entries ↔
      item = entry ∨ item ∈ entries ∧ key item ≠ key entry := by
  induction entries with
  | nil => simp [placeByKey]
  | cons head tail induction =>
      rcases pairwise_cons.mp increasing with ⟨headLt, tailIncreasing⟩
      have distinct : ∀ other ∈ tail, key entry ≤ key head → key other ≠ key entry :=
        fun other member le => (le.trans_lt (headLt other member)).ne'
      rw [placeByKey]
      split
      · next less =>
          rw [mem_cons, induction tailIncreasing, mem_cons]
          constructor
          · rintro (isHead | isEntry | ⟨inTail, different⟩)
            · exact .inr ⟨.inl isHead, isHead ▸ less.ne⟩
            · exact .inl isEntry
            · exact .inr ⟨.inr inTail, different⟩
          · rintro (isEntry | ⟨isHead | inTail, different⟩)
            · exact .inr (.inl isEntry)
            · exact .inl isHead
            · exact .inr (.inr ⟨inTail, different⟩)
      · next notLess =>
          have le := not_lt.mp notLess
          split
          · next greater =>
              rw [mem_cons]
              apply or_congr_right
              constructor
              · intro member
                refine ⟨member, ?_⟩
                rcases mem_cons.mp member with isHead | inTail
                · exact isHead ▸ greater.ne'
                · exact distinct item inTail le
              · exact And.left
          · next notGreater =>
              have equal : key head = key entry := le_antisymm (not_lt.mp notGreater) le
              rw [mem_cons, mem_cons]
              apply or_congr_right
              constructor
              · intro inTail
                exact ⟨.inr inTail, distinct item inTail le⟩
              · rintro ⟨isHead | inTail, different⟩
                · exact absurd (isHead ▸ equal) different
                · exact inTail

/-- Placing an entry keeps the order. -/
theorem KeysIncreasing.placeByKey (entry : Item) :
    KeysIncreasing key (placeByKey key entry entries) := by
  induction entries with
  | nil => simp [KeysIncreasing, NftData.placeByKey]
  | cons head tail induction =>
      rcases pairwise_cons.mp increasing with ⟨headLt, tailIncreasing⟩
      rw [NftData.placeByKey]
      split
      · next less =>
          apply List.Pairwise.cons _ (induction tailIncreasing)
          intro other member
          rcases (mem_placeByKey tailIncreasing).mp member with isEntry | ⟨inTail, _⟩
          · exact isEntry ▸ less
          · exact headLt other inTail
      · next notLess =>
          split
          · next greater =>
              apply List.Pairwise.cons _ increasing
              intro other member
              rcases mem_cons.mp member with isHead | inTail
              · exact isHead ▸ greater
              · exact greater.trans (headLt other inTail)
          · apply List.Pairwise.cons _ tailIncreasing
            intro other member
            exact (not_lt.mp notLess).trans_lt (headLt other member)

end

theorem placeByKey_append (smaller : ∀ other ∈ before, key other < key entry)
    (greater : ∀ other ∈ after, key entry < key other) :
    placeByKey key entry (before ++ after) = before ++ entry :: after := by
  induction before with
  | nil =>
      cases after with
      | nil => rfl
      | cons head tail =>
          have less := greater head (by simp)
          simp [placeByKey, less, less.not_gt]
  | cons head tail induction =>
      have less := smaller head (by simp)
      simp only [cons_append, placeByKey, less, if_true]
      rw [induction fun other member => smaller other (mem_cons_of_mem _ member)]

theorem take_placeByKey (limit : Nat) (entry : Item) (entries : List Item) :
    (placeByKey key entry entries).take limit =
      (placeByKey key entry (entries.take limit)).take limit := by
  induction entries generalizing limit with
  | nil => simp
  | cons head tail induction =>
      cases limit with
      | zero => simp
      | succ limit =>
          simp only [placeByKey, take_succ_cons]
          split
          · rw [take_succ_cons, take_succ_cons, induction]
          · split
            · rw [take_succ_cons, take_succ_cons]
              congr 1
              cases limit with
              | zero => rfl
              | succ limit => simp [take_take]
            · simp [take_take]

variable {limit : Nat}

theorem take_placeByKey_of_greater (smaller : ∀ other ∈ entries, key other < key entry)
    (full : limit ≤ entries.length) :
    (placeByKey key entry entries).take limit = entries.take limit := by
  have placed : placeByKey key entry (entries ++ []) = entries ++ [entry] :=
    placeByKey_append smaller (by simp)
  rw [append_nil] at placed
  rw [placed, take_append_of_le_length full]

/-- Within the first entries, an entry put between two parts stands where placing
puts it exactly when the parts are smaller and greater. -/
theorem take_eq_take_placeByKey_iff (increasing : KeysIncreasing key (before ++ after))
    (fresh : ∀ other ∈ before ++ after, key other ≠ key entry) (room : before.length < limit) :
    (before ++ entry :: after).take limit =
        (placeByKey key entry (before ++ after)).take limit ↔
      (∀ other ∈ before, key other < key entry) ∧
        ∀ other ∈ after, key entry < key other := by
  constructor
  · intro equal
    have placed := increasing.placeByKey entry
    have members : ∀ {other}, other ∈ before ++ after →
        other ∈ NftData.placeByKey key entry (before ++ after) :=
      fun inside => (mem_placeByKey increasing).mpr (.inr ⟨inside, fresh _ inside⟩)
    generalize NftData.placeByKey key entry (before ++ after) = place at equal placed members
    have opening : place.take (before.length + 1) = before ++ [entry] := by
      have shorter := congrArg (List.take (before.length + 1)) equal
      rw [take_take, take_take,
        Nat.min_eq_left (show before.length + 1 ≤ limit from room)] at shorter
      rw [← shorter, take_length_add_append]
      rfl
    have rebuilt : place = (before ++ [entry]) ++ place.drop (before.length + 1) := by
      rw [← opening, take_append_drop]
    rw [KeysIncreasing, rebuilt, pairwise_append, pairwise_append] at placed
    refine ⟨fun other member => placed.1.2.2 other member entry (by simp), ?_⟩
    intro other member
    have inside := members (mem_append_right _ member)
    rw [rebuilt, mem_append, mem_append, mem_singleton] at inside
    rcases inside with (inBefore | isEntry) | inRest
    · have less := (pairwise_append.mp increasing).2.2 other inBefore other member
      exact absurd less (lt_irrefl _)
    · exact absurd (congrArg key isEntry) (fresh other (mem_append_right _ member))
    · exact placed.2.2 entry (by simp) other inRest
  · intro both
    rw [placeByKey_append both.1 both.2]

end KeyedPlace

end NftData
