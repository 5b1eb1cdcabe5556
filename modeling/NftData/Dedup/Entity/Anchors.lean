import NftData.Foundation.KeyedPlace
import NftData.Dedup.Entity.Store

namespace NftData.Dedup.EntityStore

/-! # Metadata anchor lists

What the immediate insertion and the deferred sort leave in a contract: distinct
token ids in token order, at most as many as the limit allows. -/

open List
open MetadataRecord (tokenId)

/-- Distinct token ids in non-decreasing token order. -/
structure AnchorsSorted (isEvm : Bool) (anchors : List MetadataRecord) : Prop where
  distinct : (anchors.map tokenId).Nodup
  ordered : anchors.Pairwise fun left right =>
    compareTokenIds left.tokenId right.tokenId isEvm ≠ .gt

def MetadataRecord.key (isEvm : Bool) (record : MetadataRecord) : ℕ ×ₗ ℕ ×ₗ Text :=
  tokenKey isEvm record.tokenId

theorem compare_ne_gt_iff (isEvm : Bool) (left right : MetadataRecord) :
    compareTokenIds left.tokenId right.tokenId isEvm ≠ .gt ↔
      MetadataRecord.key isEvm left ≤ MetadataRecord.key isEvm right := by
  rw [compareTokenIds_eq_cmp, Ne, cmp_eq_gt_iff, not_lt]
  rfl

theorem compare_ne_lt_iff (isEvm : Bool) (left right : MetadataRecord) :
    compareTokenIds left.tokenId right.tokenId isEvm ≠ .lt ↔
      MetadataRecord.key isEvm right ≤ MetadataRecord.key isEvm left := by
  rw [compareTokenIds_eq_cmp, Ne, cmp_eq_lt_iff, not_lt]
  rfl

variable {record : MetadataRecord}

namespace AnchorsSorted

variable {isEvm : Bool} {anchors : List MetadataRecord}

theorem nil : AnchorsSorted isEvm [] := ⟨by simp, by simp⟩

section

variable (sorted : AnchorsSorted isEvm anchors)
include sorted

theorem keys_ordered :
    anchors.Pairwise fun left right =>
      MetadataRecord.key isEvm left ≤ MetadataRecord.key isEvm right :=
  sorted.ordered.imp fun le => (compare_ne_gt_iff isEvm _ _).mp le

theorem sublist {kept : List MetadataRecord}
    (sub : kept.Sublist anchors) : AnchorsSorted isEvm kept :=
  ⟨sorted.distinct.sublist (sub.map _), sorted.ordered.sublist sub⟩

theorem searchSorted (token : Text) :
    SearchSorted (fun record => compareTokenIds record.tokenId token isEvm)
      anchors := by
  constructor
  · refine sorted.keys_ordered.imp ?_
    intro left right le
    simp only [compareTokenIds_eq_cmp, cmp_eq_gt_iff]
    intro less
    exact less.trans_le le
  · refine sorted.keys_ordered.imp ?_
    intro left right le
    simp only [compareTokenIds_eq_cmp, cmp_eq_lt_iff]
    intro less
    exact le.trans_lt less

end

theorem insert {before after : List MetadataRecord} (sorted : AnchorsSorted isEvm (before ++ after))
    (fresh : record.tokenId ∉ (before ++ after).map tokenId)
    (smaller : ∀ other ∈ before,
      MetadataRecord.key isEvm other ≤ MetadataRecord.key isEvm record) (greater : ∀ other ∈ after,
      MetadataRecord.key isEvm record ≤ MetadataRecord.key isEvm other) :
    AnchorsSorted isEvm (before ++ record :: after) := by
  constructor
  · have perm : (before ++ record :: after).Perm (record :: (before ++ after)) :=
      perm_middle
    rw [(perm.map tokenId).nodup_iff]
    exact nodup_cons.mpr ⟨fresh, sorted.distinct⟩
  · rcases pairwise_append.mp sorted.ordered with ⟨first, last, across⟩
    rw [pairwise_append]
    refine ⟨first, pairwise_cons.mpr ⟨?_, last⟩, ?_⟩
    · intro other member
      exact (compare_ne_gt_iff isEvm _ _).mpr (greater other member)
    · intro left leftMember right rightMember
      rcases mem_cons.mp rightMember with equal | rightMember
      · rw [equal]
        exact (compare_ne_gt_iff isEvm _ _).mpr (smaller left leftMember)
      · exact across left leftMember right rightMember

end AnchorsSorted

/-! ## Immediate insertion -/

/-- The first elements a limit leaves room for. -/
def keepFirst {α : Type*} (limit : Option Nat) (values : List α) : List α :=
  match limit with
  | none => values
  | some limit => values.take limit

theorem keepFirst_sublist {α : Type*} (limit : Option Nat) (values : List α) :
    (keepFirst limit values).Sublist values := by
  cases limit with
  | none => exact List.Sublist.refl _
  | some limit => exact take_sublist _ _

variable {anchors : List MetadataRecord}

theorem insertAnchor_known (limit : Option Nat) (isEvm : Bool)
    (known : record.tokenId ∈ anchors.map tokenId) :
    insertAnchor limit isEvm anchors record = anchors := by
  rcases mem_map.mp known with ⟨existing, member, equal⟩
  have : anchors.any (fun existing => existing.tokenId == record.tokenId) = true :=
    any_eq_true.mpr ⟨existing, member, by simpa using equal⟩
  simp [insertAnchor, this]

private theorem insertIdx_eq_append {α : Type*} (value : α) :
    ∀ (values : List α) (position : Nat), position ≤ values.length →
      values.insertIdx position value =
        values.take position ++ value :: values.drop position := by
  intro values
  induction values with
  | nil =>
      intro position inside
      have : position = 0 := by simpa using inside
      subst this
      rfl
  | cons head tail induction =>
      intro position inside
      cases position with
      | zero => rfl
      | succ position =>
          simp [induction position (by simpa using inside)]

/-- Where the binary search puts a record. -/
def anchorPosition (isEvm : Bool) (anchors : List MetadataRecord)
    (record : MetadataRecord) : Nat :=
  searchPosition anchors fun existing =>
    compareTokenIds existing.tokenId record.tokenId isEvm

variable {isEvm : Bool} {limit : Option Nat}

/-- A record of a fresh token is put where the search stops, and then the limit
is applied. -/
theorem insertAnchor_eq_keepFirst (sorted : AnchorsSorted isEvm anchors)
    (bounded : ∀ bound ∈ limit, anchors.length ≤ bound)
    (fresh : record.tokenId ∉ anchors.map tokenId) :
    insertAnchor limit isEvm anchors record =
      keepFirst limit (anchors.take (anchorPosition isEvm anchors record) ++
        record :: anchors.drop (anchorPosition isEvm anchors record)) := by
  have notAny :
      ¬ anchors.any (fun existing => existing.tokenId == record.tokenId) = true := by
    intro any
    rcases any_eq_true.mp any with ⟨existing, member, equal⟩
    exact fresh (mem_map.mpr ⟨existing, member, by simpa using equal⟩)
  have inside : anchorPosition isEvm anchors record ≤ anchors.length :=
    (sorted.searchSorted record.tokenId).searchPosition_spec.1
  rw [insertAnchor, if_neg notAny, show (searchPosition anchors fun existing =>
    compareTokenIds existing.tokenId record.tokenId isEvm) =
      anchorPosition isEvm anchors record from rfl]
  generalize anchorPosition isEvm anchors record = position at *
  have inserted : anchors.insertIdx position record =
      anchors.take position ++ record :: anchors.drop position :=
    insertIdx_eq_append record anchors position inside
  cases limit with
  | none => exact inserted
  | some limit =>
      have lengthLe : anchors.length ≤ limit := bounded limit rfl
      simp only [keepFirst, inserted]
      have length : (anchors.take position ++ record ::
          anchors.drop position).length = anchors.length + 1 := by
        rw [← inserted, length_insertIdx_of_le_length inside]
      by_cases atEnd : limit ≤ position ∧ limit ≤ anchors.length
      · have whole : position = anchors.length := by omega
        have limitEqual : limit = anchors.length := by omega
        rw [if_pos atEnd, whole, limitEqual]
        simp
      · rw [if_neg atEnd]
        split
        · next tooLong =>
            have : limit = anchors.length := by omega
            rw [dropLast_eq_take, length, this]
            rfl
        · next fits => rw [take_of_length_le (Nat.not_lt.mp fits)]

/-- A record of a fresh token is put at a place its key fits, and then the
limit is applied. -/
theorem insertAnchor_fresh (sorted : AnchorsSorted isEvm anchors)
    (bounded : ∀ bound ∈ limit, anchors.length ≤ bound)
    (fresh : record.tokenId ∉ anchors.map tokenId) :
    ∃ before after, anchors = before ++ after ∧
      (∀ other ∈ before,
        MetadataRecord.key isEvm other ≤ MetadataRecord.key isEvm record) ∧
      (∀ other ∈ after,
        MetadataRecord.key isEvm record ≤ MetadataRecord.key isEvm other) ∧
      insertAnchor limit isEvm anchors record =
        keepFirst limit (before ++ record :: after) := by
  rcases (sorted.searchSorted record.tokenId).searchPosition_spec with
    ⟨_, smaller, greater⟩
  refine ⟨anchors.take (anchorPosition isEvm anchors record),
    anchors.drop (anchorPosition isEvm anchors record),
    (take_append_drop _ anchors).symm, ?_, ?_,
    insertAnchor_eq_keepFirst sorted bounded fresh⟩
  · intro other member
    exact (compare_ne_gt_iff isEvm _ _).mp (smaller other member)
  · intro other member
    exact (compare_ne_lt_iff isEvm _ _).mp (greater other member)

theorem insertAnchor_sorted (record : MetadataRecord) (sorted : AnchorsSorted isEvm anchors)
    (bounded : ∀ bound ∈ limit, anchors.length ≤ bound) :
    AnchorsSorted isEvm (insertAnchor limit isEvm anchors record) := by
  by_cases known : record.tokenId ∈ anchors.map tokenId
  · rw [insertAnchor_known limit isEvm known]
    exact sorted
  · rcases insertAnchor_fresh sorted bounded known with
      ⟨before, after, equal, smaller, greater, result⟩
    rw [result]
    subst equal
    exact (sorted.insert known smaller greater).sublist (keepFirst_sublist _ _)

theorem insertAnchor_bounded (record : MetadataRecord) (sorted : AnchorsSorted isEvm anchors)
    (bounded : ∀ bound ∈ limit, anchors.length ≤ bound) :
    ∀ bound ∈ limit, (insertAnchor limit isEvm anchors record).length ≤ bound := by
  intro bound isLimit
  by_cases known : record.tokenId ∈ anchors.map tokenId
  · rw [insertAnchor_known limit isEvm known]
    exact bounded bound isLimit
  · rcases insertAnchor_fresh sorted bounded known with
      ⟨before, after, _, _, _, result⟩
    rw [result, Option.mem_def.mp isLimit]
    exact length_take_le _ _

def MetadataRecord.placeKey (isEvm : Bool) (record : MetadataRecord) :
    (ℕ ×ₗ ℕ ×ₗ Text) ×ₗ Text :=
  toLex (MetadataRecord.key isEvm record, record.tokenId)

variable {right left : MetadataRecord}

theorem placeKey_eq_iff :
    MetadataRecord.placeKey isEvm left = MetadataRecord.placeKey isEvm right ↔
      left.tokenId = right.tokenId := by
  constructor
  · intro equal
    exact congrArg Prod.snd (toLex_inj.mp equal)
  · intro equal
    simp [MetadataRecord.placeKey, MetadataRecord.key, equal]

theorem AnchorsSorted.of_increasing
    (increasing : KeysIncreasing (MetadataRecord.placeKey isEvm) anchors) :
    AnchorsSorted isEvm anchors where
  distinct := by
    rw [List.Nodup, pairwise_map]
    exact increasing.imp fun less equal => less.ne (placeKey_eq_iff.mpr equal)
  ordered := by
    apply increasing.imp
    intro left right less
    rw [compare_ne_gt_iff]
    rcases Prod.Lex.toLex_lt_toLex.mp less with keyLess | ⟨equal, _⟩
    · exact keyLess.le
    · exact equal.le

def MetadataRecord.finalKey (isEvm : Bool) (record : MetadataRecord) :
    (ℕ ×ₗ ℕ ×ₗ Text) ×ₗ Text ×ₗ ℕ ×ₗ ℕ :=
  toLex (MetadataRecord.key isEvm record, toLex (record.tokenId,
    toLex (record.sourceOrder.fileOrdinal, record.sourceOrder.fileRowNumber)))

open MetadataRecord (finalKey placeKey key)

theorem anchorOrder_eq_cmp (isEvm : Bool) (left right : MetadataRecord) :
    anchorOrder isEvm left right =
      cmp (finalKey isEvm left) (finalKey isEvm right) := by
  simp only [anchorOrder, finalKey, cmp_toLex, compareTokenIds_eq_cmp,
    SourceOrder.compare, key, Ordering.then_assoc]
  congr!

theorem anchorOrder_isLE_iff (isEvm : Bool) (left right : MetadataRecord) :
    (anchorOrder isEvm left right).isLE = true ↔
      finalKey isEvm left ≤ finalKey isEvm right := by
  rw [anchorOrder_eq_cmp, ← not_lt, ← cmp_eq_gt_iff]
  cases cmp (finalKey isEvm left)
    (finalKey isEvm right) <;> simp

/-- The list `finalize_metadata_anchors` sorts before it removes duplicates. -/
def sortAnchors (isEvm : Bool) (anchors : List MetadataRecord) : List MetadataRecord :=
  anchors.insertionSort fun left right => (anchorOrder isEvm left right).isLE

theorem sortAnchors_ordered (isEvm : Bool) (anchors : List MetadataRecord) :
    (sortAnchors isEvm anchors).Pairwise fun left right =>
      finalKey isEvm left ≤ finalKey isEvm right := by
  have total : Std.Total fun left right =>
      (anchorOrder isEvm left right).isLE = true :=
    ⟨fun left right => by
      simpa only [anchorOrder_isLE_iff] using le_total _ _⟩
  have trans : IsTrans MetadataRecord fun left right =>
      (anchorOrder isEvm left right).isLE = true :=
    ⟨fun left middle right => by
      simpa only [anchorOrder_isLE_iff] using le_trans⟩
  exact (pairwise_insertionSort _ anchors).imp
    fun le => (anchorOrder_isLE_iff isEvm _ _).mp le

/-- The smaller of two records in the deferred order has the smaller token key,
and among equal keys the smaller text. -/
theorem finalKey_le (le : finalKey isEvm left ≤ finalKey isEvm right)
    :
    toLex (key isEvm left, left.tokenId) ≤
      toLex (key isEvm right, right.tokenId) := by
  rcases Prod.Lex.toLex_le_toLex.mp le with less | ⟨equal, rest⟩
  · exact Prod.Lex.toLex_le_toLex.mpr (.inl less)
  · refine Prod.Lex.toLex_le_toLex.mpr (.inr ⟨equal, ?_⟩)
    rcases Prod.Lex.toLex_le_toLex.mp rest with less | ⟨same, _⟩
    · exact less.le
    · exact same.le

private theorem isChain_and_of_pairwise {α : Type*} {First Second : α → α → Prop}
    {values : List α} (chain : values.IsChain First) (pairwise : values.Pairwise Second) :
    values.IsChain fun left right => First left right ∧ Second left right := by
  induction values with
  | nil => exact isChain_nil
  | cons head tail induction =>
      rcases isChain_cons.mp chain with ⟨headChain, tailChain⟩
      rcases pairwise_cons.mp pairwise with ⟨headPairwise, tailPairwise⟩
      refine isChain_cons.mpr ⟨?_, induction tailChain tailPairwise⟩
      intro next isNext
      exact ⟨headChain next isNext, headPairwise next (List.mem_of_mem_head? isNext)⟩

theorem finalizeAnchors_increasing (isEvm : Bool) (anchors : List MetadataRecord) :
    KeysIncreasing (placeKey isEvm) (finalizeAnchors isEvm anchors) := by
  have sub : (finalizeAnchors isEvm anchors).Sublist (sortAnchors isEvm anchors) :=
    destutter_sublist _ _
  have ordered := (sortAnchors_ordered isEvm anchors).sublist sub
  have chain := (sortAnchors isEvm anchors).isChain_destutter
    fun left right : MetadataRecord => left.tokenId ≠ right.tokenId
  have trans : IsTrans MetadataRecord fun left right =>
      placeKey isEvm left < placeKey isEvm right :=
    ⟨fun _ _ _ => lt_trans⟩
  rw [KeysIncreasing, ← isChain_iff_pairwise]
  refine (isChain_and_of_pairwise chain ordered).imp ?_
  intro left right both
  apply lt_of_le_of_ne (finalKey_le both.2)
  intro equal
  exact both.1 (congrArg Prod.snd (toLex_inj.mp equal))

theorem finalizeAnchors_sorted (isEvm : Bool) (anchors : List MetadataRecord) :
    AnchorsSorted isEvm (finalizeAnchors isEvm anchors) :=
  .of_increasing (finalizeAnchors_increasing isEvm anchors)

end NftData.Dedup.EntityStore
