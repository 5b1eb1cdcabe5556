import Mathlib

namespace NftData.Analysis

/-! # Sets of dense ids

One bit for each id in words of 64 bits, with the number of ids beside them. -/

open List

def bitsOf (word : BitVec 64) : Finset Nat :=
  (Finset.range 64).filter fun bit => word.getLsbD bit = true

/-- `u64::count_ones`. -/
def countOnes (word : BitVec 64) : Nat := (bitsOf word).card

structure DenseIdSet where
  words : List (BitVec 64)
  len : Nat
  deriving DecidableEq, Repr

namespace DenseIdSet

def empty : DenseIdSet := ⟨[], 0⟩

/-- `Vec::resize` to a larger length. -/
def resize (words : List (BitVec 64)) (length : Nat) : List (BitVec 64) :=
  words ++ List.replicate (length - words.length) 0

def insert (set : DenseIdSet) (id : Nat) : DenseIdSet × Bool :=
  let word := id / 64
  let words := resize set.words (word + 1)
  let mask := BitVec.twoPow 64 (id % 64)
  if words.getD word 0 &&& mask ≠ 0 then ({ set with words := words }, false)
  else
    (⟨words.set word (words.getD word 0 ||| mask), set.len + 1⟩, true)

def unionWords : List (BitVec 64) → List (BitVec 64) → List (BitVec 64) × Nat
  | left :: lefts, right :: rights =>
      let rest := unionWords lefts rights
      ((left ||| right) :: rest.1, countOnes (right &&& ~~~left) + rest.2)
  | lefts, _ => (lefts, 0)

def unionFrom (set other : DenseIdSet) : DenseIdSet :=
  let union := unionWords (resize set.words other.words.length) other.words
  ⟨union.1, set.len + union.2⟩

/-- The ids whose bits are set, where the first word begins at `0`. -/
def idsOf : List (BitVec 64) → Finset Nat
  | [] => ∅
  | word :: words => bitsOf word ∪ (idsOf words).map (addRightEmbedding 64)

def ids (set : DenseIdSet) : Finset Nat := idsOf set.words

variable {bit : Nat}

theorem mem_bitsOf {word : BitVec 64} :
    bit ∈ bitsOf word ↔ word.getLsbD bit = true := by
  rw [bitsOf, Finset.mem_filter, Finset.mem_range]
  exact and_iff_right_of_imp BitVec.lt_of_getLsbD

variable {words : List (BitVec 64)} {id : Nat}

theorem mem_idsOf :
    id ∈ idsOf words ↔ (words.getD (id / 64) 0).getLsbD (id % 64) = true := by
  induction words generalizing id with
  | nil => simp [idsOf]
  | cons word words induction =>
      simp only [idsOf, Finset.mem_union, mem_bitsOf, Finset.mem_map, addRightEmbedding_apply]
      by_cases first : id < 64
      · rw [Nat.div_eq_of_lt first, Nat.mod_eq_of_lt first, getD_cons_zero]
        simp only [or_iff_left_iff_imp]
        rintro ⟨other, _, rfl⟩
        omega
      · have word_none : word.getLsbD id = false := BitVec.getLsbD_of_ge _ _ (by omega)
        have quotient : id / 64 = (id - 64) / 64 + 1 := by omega
        have remainder : id % 64 = (id - 64) % 64 := by omega
        rw [quotient, remainder, getD_cons_succ, ← induction]
        simp only [word_none, Bool.false_eq_true, false_or]
        constructor
        · rintro ⟨other, member, rfl⟩
          simpa using member
        · intro member
          exact ⟨id - 64, member, by omega⟩

theorem card_idsOf (words : List (BitVec 64)) :
    (idsOf words).card = (words.map countOnes).sum := by
  induction words with
  | nil => rfl
  | cons word words induction =>
      have apart : Disjoint (bitsOf word) ((idsOf words).map (addRightEmbedding 64)) := by
        rw [Finset.disjoint_left]
        intro id inWord inRest
        rcases Finset.mem_map.mp inRest with ⟨other, _, rfl⟩
        have small := BitVec.lt_of_getLsbD (mem_bitsOf.mp inWord)
        rw [addRightEmbedding_apply] at small
        omega
      rw [idsOf, Finset.card_union_of_disjoint apart, Finset.card_map, induction]
      rfl

theorem idsOf_resize (words : List (BitVec 64)) (length : Nat) :
    idsOf (resize words length) = idsOf words := by
  ext id
  rw [mem_idsOf, mem_idsOf, resize]
  by_cases inside : id / 64 < words.length
  · rw [getD_append _ _ _ _ inside]
  · rw [getD_append_right _ _ _ _ (by omega), getD_eq_default words _ (by omega)]
    simp

/-! ## Insertion and union -/

def Valid (set : DenseIdSet) : Prop := set.len = set.ids.card

theorem valid_empty : empty.Valid := rfl

theorem and_twoPow_ne_zero (word : BitVec 64) (small : bit < 64) :
    word &&& BitVec.twoPow 64 bit ≠ 0 ↔ word.getLsbD bit = true := by
  rw [BitVec.and_twoPow]
  by_cases isSet : word.getLsbD bit = true
  · have ne : BitVec.twoPow 64 bit ≠ 0 := by
      intro same
      have test := congrArg (fun value => value.getLsbD bit) same
      simp [small] at test
    rw [if_pos isSet]
    exact iff_of_true ne isSet
  · simp [isSet]

theorem mem_idsOf_set {word : Nat} (inside : word < words.length) (mask : BitVec 64) (id : Nat) :
    id ∈ idsOf (words.set word (words.getD word 0 ||| mask)) ↔
      id ∈ idsOf words ∨ id / 64 = word ∧ mask.getLsbD (id % 64) = true := by
  rw [mem_idsOf, mem_idsOf]
  by_cases here : id / 64 = word
  · rw [here, getD_eq_getElem _ _ (by rwa [length_set]), getElem_set_self]
    simp
  · have same : (words.set word (words.getD word 0 ||| mask)).getD (id / 64) 0 =
        words.getD (id / 64) 0 := by
      rw [getD_eq_getElem?_getD, List.getElem?_set_ne (Ne.symm here),
        getD_eq_getElem?_getD]
    rw [same]
    simp [here]

theorem lt_length_resize (words : List (BitVec 64)) (word : Nat) :
    word < (resize words (word + 1)).length := by
  rw [resize, length_append, length_replicate]
  omega

theorem meets_iff (set : DenseIdSet) (id : Nat) :
    (resize set.words (id / 64 + 1)).getD (id / 64) 0 &&& BitVec.twoPow 64 (id % 64) ≠ 0 ↔
      id ∈ set.ids := by
  rw [and_twoPow_ne_zero _ (Nat.mod_lt _ (by decide)), ← mem_idsOf, idsOf_resize]
  rfl

variable {set : DenseIdSet}

theorem insert_of_mem (member : id ∈ set.ids) :
    set.insert id = ({ set with words := resize set.words (id / 64 + 1) }, false) := by
  rw [insert, if_pos ((meets_iff set id).mpr member)]

theorem snd_insert (set : DenseIdSet) (id : Nat) :
    (set.insert id).2 = decide (id ∉ set.ids) := by
  by_cases member : id ∈ set.ids
  · simp [insert_of_mem member, member]
  · rw [insert, if_neg (mt (meets_iff set id).mp member)]
    simp [member]

@[simp]
theorem ids_insert (set : DenseIdSet) (id : Nat) :
    (set.insert id).1.ids = Insert.insert id set.ids := by
  by_cases member : id ∈ set.ids
  · rw [insert_of_mem member, Finset.insert_eq_of_mem member]
    exact idsOf_resize _ _
  · rw [insert, if_neg (mt (meets_iff set id).mp member)]
    ext other
    rw [Finset.mem_insert]
    have spelled := mem_idsOf_set (lt_length_resize set.words (id / 64))
      (BitVec.twoPow 64 (id % 64)) other
    rw [idsOf_resize] at spelled
    rw [ids, spelled, BitVec.getLsbD_twoPow]
    have same : other / 64 = id / 64 ∧ (decide (id % 64 < 64) &&
        decide (id % 64 = other % 64)) = true ↔ other = id := by
      rw [Bool.and_eq_true, decide_eq_true_eq, decide_eq_true_eq]
      omega
    rw [same, or_comm]
    rfl

theorem valid_insert (valid : set.Valid) (id : Nat) :
    (set.insert id).1.Valid := by
  rw [Valid, ids_insert]
  by_cases member : id ∈ set.ids
  · rw [insert_of_mem member, Finset.insert_eq_of_mem member]
    exact valid
  · rw [Finset.card_insert_of_notMem member, insert,
      if_neg (mt (meets_iff set id).mp member)]
    exact congrArg (· + 1) valid

theorem bitsOf_or (left right : BitVec 64) :
    bitsOf (left ||| right) = bitsOf left ∪ bitsOf right := by
  ext bit
  simp [mem_bitsOf]

theorem countOnes_or (left right : BitVec 64) :
    countOnes (left ||| right) = countOnes left + countOnes (right &&& ~~~left) := by
  have gained : bitsOf (right &&& ~~~left) = bitsOf right \ bitsOf left := by
    ext bit
    rw [Finset.mem_sdiff, mem_bitsOf, mem_bitsOf, mem_bitsOf]
    by_cases small : bit < 64
    · simp [small]
    · simp [BitVec.getLsbD_of_ge _ bit (by omega : 64 ≤ bit)]
  rw [countOnes, countOnes, countOnes, bitsOf_or, gained, ← Finset.union_sdiff_self_eq_union,
    Finset.card_union_of_disjoint Finset.disjoint_sdiff]

theorem unionWords_spec {lefts rights : List (BitVec 64)}
    (fits : rights.length ≤ lefts.length) :
    idsOf (unionWords lefts rights).1 = idsOf lefts ∪ idsOf rights ∧
      ((unionWords lefts rights).1.map countOnes).sum =
        (lefts.map countOnes).sum + (unionWords lefts rights).2 := by
  induction lefts generalizing rights with
  | nil =>
      rw [eq_nil_of_length_eq_zero (Nat.le_zero.mp fits)]
      simp [unionWords, idsOf]
  | cons left lefts induction =>
      cases rights with
      | nil => simp [unionWords, idsOf]
      | cons right rights =>
          have rest := induction (Nat.le_of_succ_le_succ fits)
          rw [unionWords]
          constructor
          · rw [idsOf, idsOf, idsOf, rest.1, bitsOf_or, Finset.map_union,
              Finset.union_union_union_comm]
          · rw [map_cons, sum_cons, rest.2, countOnes_or, map_cons,
              sum_cons]
            omega

theorem length_le_resize (words : List (BitVec 64)) (length : Nat) :
    length ≤ (resize words length).length := by
  rw [resize, length_append, length_replicate]
  omega

@[simp]
theorem ids_unionFrom (set other : DenseIdSet) :
    (set.unionFrom other).ids = set.ids ∪ other.ids := by
  have spec := (unionWords_spec (length_le_resize set.words other.words.length)).1
  rw [idsOf_resize] at spec
  exact spec

theorem valid_unionFrom (valid : set.Valid) (other : DenseIdSet) :
    (set.unionFrom other).Valid := by
  have spec := (unionWords_spec (length_le_resize set.words other.words.length)).2
  have before : ((resize set.words other.words.length).map countOnes).sum = set.len := by
    rw [← card_idsOf, idsOf_resize, valid]
    rfl
  rw [Valid, ids, card_idsOf]
  rw [before] at spec
  exact spec.symm

/-- The sets that insertions and unions make of the empty set, with the ids put in. -/
inductive Built : DenseIdSet → Finset Nat → Prop where
  | empty : Built empty ∅
  | insert {set : DenseIdSet} {ids : Finset Nat} (id : Nat) (built : Built set ids) :
      Built (set.insert id).1 (Insert.insert id ids)
  | union {set other : DenseIdSet} {ids others : Finset Nat} (built : Built set ids)
      (otherBuilt : Built other others) : Built (set.unionFrom other) (ids ∪ others)

theorem Built.len_eq {ids : Finset Nat} (built : Built set ids) :
    set.ids = ids ∧ set.len = ids.card := by
  have holds : set.ids = ids ∧ set.Valid := by
    induction built with
    | empty => exact ⟨rfl, valid_empty⟩
    | insert id _ induction =>
        exact ⟨by rw [ids_insert, induction.1], valid_insert induction.2 id⟩
    | union _ _ induction otherInduction =>
        exact ⟨by rw [ids_unionFrom, induction.1, otherInduction.1],
          valid_unionFrom induction.2 _⟩
  exact ⟨holds.1, holds.1 ▸ holds.2⟩

end DenseIdSet

end NftData.Analysis
