import NftData.Dedup.Parquet

namespace NftData.Dedup

/-! # Limited and unlimited anchors

A load with an anchor limit inserts each record at once and drops what exceeds
the limit; a deferred load collects all records and sorts them at its end. The
limited anchors are the first of the sorted ones as long as every record arrives
in order: after the record kept for its token, and, when kept tokens are the same
number under other spellings, directly before the last of them. -/

open List
open MetadataRecord (sourceOrder tokenId)

variable {isEvm : Bool}

namespace EntityStore

open MetadataRecord (finalKey key placeKey)

/-! ## The records a deferred sort keeps -/

/-- The earlier record in source order. -/
def Precedes (left right : MetadataRecord) : Prop :=
  left.sourceOrder.compare right.sourceOrder = .lt

instance (left right : MetadataRecord) : Decidable (Precedes left right) := by
  unfold Precedes
  infer_instance

variable {right left : MetadataRecord}

theorem finalKey_lt_iff (isEvm : Bool) (sameToken : left.tokenId = right.tokenId) :
    finalKey isEvm left < finalKey isEvm right ↔
      Precedes left right := by
  have sameText : cmp right.tokenId right.tokenId = .eq := by simp [cmp, cmpUsing]
  rw [← cmp_eq_lt_iff, ← anchorOrder_eq_cmp, anchorOrder, sameToken, compareTokenIds_eq_cmp,
    cmp_self_eq_eq, sameText]
  rfl

theorem not_precedes_iff (isEvm : Bool) (sameToken : left.tokenId = right.tokenId) :
    ¬ Precedes left right ↔
      finalKey isEvm right ≤ finalKey isEvm left := by
  rw [← finalKey_lt_iff isEvm sameToken, not_lt]

theorem sourceOrder_eq_of_finalKey_eq
    (equal : finalKey isEvm left = finalKey isEvm right) :
    left.sourceOrder = right.sourceOrder := by
  have parts := toLex_inj.mp equal
  have sources := toLex_inj.mp (congrArg Prod.snd parts)
  have numbers := toLex_inj.mp (congrArg Prod.snd sources)
  have sameFile : left.sourceOrder.fileOrdinal = right.sourceOrder.fileOrdinal :=
    congrArg Prod.fst numbers
  have sameRow : left.sourceOrder.fileRowNumber = right.sourceOrder.fileRowNumber :=
    congrArg Prod.snd numbers
  cases leftOrder : left.sourceOrder
  cases rightOrder : right.sourceOrder
  rw [leftOrder, rightOrder] at sameFile sameRow
  congr

section Finalized

variable {isEvm : Bool} {records : List MetadataRecord} {record : MetadataRecord}

theorem mem_finalizeAnchors_iff
    (distinct : (records.map sourceOrder).Nodup) :
    record ∈ finalizeAnchors isEvm records ↔
      record ∈ records ∧ ∀ other ∈ records, other.tokenId = record.tokenId →
        ¬ Precedes other record := by
  have tokens := (finalizeAnchors_sorted isEvm records).distinct
  constructor
  · intro member
    refine ⟨finalizeAnchors_subset isEvm member, ?_⟩
    intro other otherMember sameToken
    rcases finalizeAnchors_covers isEvm otherMember with ⟨first, firstMember, firstToken, le⟩
    have same : first = record :=
      inj_on_of_nodup_map tokens firstMember member (firstToken.trans sameToken)
    rw [not_precedes_iff isEvm sameToken, ← same]
    exact le
  · intro both
    rcases finalizeAnchors_covers isEvm both.1 with ⟨first, firstMember, firstToken, le⟩
    have inside := finalizeAnchors_subset isEvm firstMember
    have notEarlier := (not_precedes_iff isEvm firstToken).mp (both.2 first inside firstToken)
    have sameOrder := sourceOrder_eq_of_finalKey_eq (le_antisymm le notEarlier)
    exact inj_on_of_nodup_map distinct inside both.1 sameOrder ▸ firstMember

/-- A later record of a token changes nothing. -/
theorem finalizeAnchors_later
    (distinct : ((records ++ [record]).map sourceOrder).Nodup)
    {earlier : MetadataRecord} (member : earlier ∈ records)
    (sameToken : earlier.tokenId = record.tokenId) (precedes : Precedes earlier record) :
    finalizeAnchors isEvm (records ++ [record]) = finalizeAnchors isEvm records := by
  have before : (records.map sourceOrder).Nodup := by
    rw [map_append] at distinct
    exact distinct.of_append_left
  apply (finalizeAnchors_increasing isEvm _).eq_of_mem_iff (finalizeAnchors_increasing isEvm _)
  intro item
  rw [mem_finalizeAnchors_iff distinct, mem_finalizeAnchors_iff before]
  constructor
  · rintro ⟨inAll, first⟩
    have old : item ∈ records := by
      rcases mem_append.mp inAll with old | new
      · exact old
      · rw [mem_singleton] at new
        exact absurd (new ▸ precedes) (first earlier (by simp [member]) (new ▸ sameToken))
    exact ⟨old, fun other otherMember => first other (mem_append_left _ otherMember)⟩
  · rintro ⟨old, first⟩
    refine ⟨mem_append_left _ old, ?_⟩
    intro other otherMember otherToken
    rcases mem_append.mp otherMember with inRecords | new
    · exact first other inRecords otherToken
    · rw [mem_singleton] at new
      subst new
      rw [not_precedes_iff isEvm otherToken]
      have notEarlier := first earlier member (sameToken.trans otherToken)
      rw [not_precedes_iff isEvm (sameToken.trans otherToken)] at notEarlier
      exact notEarlier.trans ((finalKey_lt_iff isEvm sameToken).mpr precedes).le

theorem finalizeAnchors_first
    (distinct : ((records ++ [record]).map sourceOrder).Nodup)
    (first : ∀ other ∈ records, other.tokenId = record.tokenId → ¬ Precedes other record) :
    finalizeAnchors isEvm (records ++ [record]) =
      placeByKey (placeKey isEvm) record (finalizeAnchors isEvm records) := by
  have before : (records.map sourceOrder).Nodup := by
    rw [map_append] at distinct
    exact distinct.of_append_left
  have increasing := finalizeAnchors_increasing isEvm records
  apply (finalizeAnchors_increasing isEvm _).eq_of_mem_iff (increasing.placeByKey record)
  intro item
  rw [mem_placeByKey increasing, mem_finalizeAnchors_iff distinct,
    mem_finalizeAnchors_iff before, Ne, placeKey_eq_iff]
  constructor
  · rintro ⟨inAll, isFirst⟩
    rcases mem_append.mp inAll with old | new
    · by_cases sameToken : item.tokenId = record.tokenId
      · -- Neither of the two precedes the other, so they are one row.
        have notEarlier := first item old sameToken
        have notLater := isFirst record (by simp) sameToken.symm
        rw [not_precedes_iff isEvm sameToken] at notEarlier
        rw [not_precedes_iff isEvm sameToken.symm] at notLater
        have sameOrder := sourceOrder_eq_of_finalKey_eq (le_antisymm notLater notEarlier)
        exact .inl (inj_on_of_nodup_map distinct inAll (by simp) sameOrder)
      · exact .inr ⟨⟨old, fun other member =>
          isFirst other (mem_append_left _ member)⟩, sameToken⟩
    · exact .inl (mem_singleton.mp new)
  · rintro (isNew | ⟨⟨old, isFirst⟩, otherToken⟩)
    · subst isNew
      refine ⟨by simp, ?_⟩
      intro other member sameToken
      rcases mem_append.mp member with old | new
      · exact first other old sameToken
      · rw [mem_singleton] at new
        rw [not_precedes_iff isEvm sameToken, new]
    · refine ⟨mem_append_left _ old, ?_⟩
      intro other member sameToken
      rcases mem_append.mp member with inRecords | new
      · exact isFirst other inRecords sameToken
      · rw [mem_singleton] at new
        exact absurd (new ▸ sameToken.symm) otherToken

end Finalized

/-! ## Records that arrive in order -/

def Ties (isEvm : Bool) (record kept : MetadataRecord) : Prop :=
  compareTokenIds kept.tokenId record.tokenId isEvm = .eq

instance (isEvm : Bool) (record kept : MetadataRecord) : Decidable (Ties isEvm record kept) := by
  unfold Ties
  infer_instance

def laterSpellings (isEvm : Bool) (anchors : List MetadataRecord) (record : MetadataRecord) :
    List MetadataRecord :=
  anchors.filter fun kept => Ties isEvm record kept ∧ record.tokenId < kept.tokenId

/-- A record of a kept token comes later than the kept one in source order. A record
of another spelling of a kept number belongs before exactly one kept spelling. -/
structure ArrivesInOrder (isEvm : Bool) (anchors : List MetadataRecord)
    (record : MetadataRecord) : Prop where
  known : ∀ kept ∈ anchors, kept.tokenId = record.tokenId → Precedes kept record
  tied : record.tokenId ∉ anchors.map tokenId →
    (∃ kept ∈ anchors, Ties isEvm record kept) →
      (laterSpellings isEvm anchors record).length = 1

instance (isEvm : Bool) (anchors : List MetadataRecord) (record : MetadataRecord) :
    Decidable (ArrivesInOrder isEvm anchors record) :=
  decidable_of_iff
    ((∀ kept ∈ anchors, kept.tokenId = record.tokenId → Precedes kept record) ∧
      (record.tokenId ∉ anchors.map tokenId →
        (∃ kept ∈ anchors, Ties isEvm record kept) →
          (laterSpellings isEvm anchors record).length = 1))
    ⟨fun both => ⟨both.1, both.2⟩, fun arrives => ⟨arrives.known, arrives.tied⟩⟩

variable {kept : MetadataRecord}

theorem ties_iff {record : MetadataRecord} :
    Ties isEvm record kept ↔
      key isEvm kept = key isEvm record := by
  rw [Ties, compareTokenIds_eq_cmp, cmp_eq_eq_iff]
  rfl

section Insertion

variable {isEvm : Bool} {limit : Nat} {anchors : List MetadataRecord}
  {record : MetadataRecord}

theorem placeKey_lt_of_key_lt
    (less : key isEvm left < key isEvm right) :
    placeKey isEvm left < placeKey isEvm right :=
  Prod.Lex.toLex_lt_toLex.mpr (.inl less)

theorem placeKey_lt_iff_of_key_eq
    (equal : key isEvm left = key isEvm right) :
    placeKey isEvm left < placeKey isEvm right ↔
      left.tokenId < right.tokenId := by
  rw [placeKey, placeKey, Prod.Lex.toLex_lt_toLex]
  simp [equal]

theorem insertAnchor_untied
    (increasing : KeysIncreasing (placeKey isEvm) anchors)
    (bounded : anchors.length ≤ limit)
    (fresh : record.tokenId ∉ anchors.map tokenId)
    (untied : ¬ ∃ kept ∈ anchors, Ties isEvm record kept) :
    insertAnchor (some limit) isEvm anchors record =
      (placeByKey (placeKey isEvm) record anchors).take limit := by
  have room : ∀ bound ∈ some limit, anchors.length ≤ bound :=
    fun bound isLimit => Option.mem_some.mp isLimit ▸ bounded
  rcases insertAnchor_fresh (AnchorsSorted.of_increasing increasing) room fresh with
    ⟨before, after, split, smaller, greater, result⟩
  have different : ∀ kept ∈ before ++ after,
      key isEvm kept ≠ key isEvm record :=
    fun kept member equal => untied ⟨kept, split ▸ member, ties_iff.mpr equal⟩
  rw [result, split, placeByKey_append]
  · rfl
  · intro kept member
    exact placeKey_lt_of_key_lt (lt_of_le_of_ne (smaller kept member)
      (different kept (mem_append_left _ member)))
  · intro kept member
    exact placeKey_lt_of_key_lt (lt_of_le_of_ne (greater kept member)
      (different kept (mem_append_right _ member)).symm)

theorem insertAnchor_tied
    (increasing : KeysIncreasing (placeKey isEvm) anchors)
    (bounded : anchors.length ≤ limit)
    (fresh : record.tokenId ∉ anchors.map tokenId)
    (tied : ∃ kept ∈ anchors, Ties isEvm record kept) :
    ∃ before last after, anchors = before ++ last :: after ∧
      (∀ kept ∈ before,
        key isEvm kept ≤ key isEvm record) ∧
      key isEvm last = key isEvm record ∧
      (∀ kept ∈ after,
        key isEvm record < key isEvm kept) ∧
      insertAnchor (some limit) isEvm anchors record =
        (before ++ record :: last :: after).take limit := by
  have sorted := AnchorsSorted.of_increasing increasing
  have search := sorted.searchSorted record.tokenId
  rcases tied with ⟨kept, member, isTied⟩
  rcases search.binarySearchBy_of_mem member isTied with ⟨position, found⟩
  rcases SearchSorted.getElem?_of_binarySearchBy found with ⟨last, lastAt, lastTied⟩
  have stops : anchorPosition isEvm anchors record = position := by
    rw [anchorPosition, searchPosition, found]
  have splits := search.searchPosition_spec.2.1
  have drop : anchors.drop position = last :: anchors.drop (position + 1) := by
    rcases List.getElem?_eq_some_iff.mp lastAt with ⟨inside, equal⟩
    rw [drop_eq_getElem_cons inside, equal]
  refine ⟨anchors.take position, last, anchors.drop (position + 1), ?_, ?_,
    ties_iff.mp lastTied, ?_, ?_⟩
  · rw [← drop, take_append_drop]
  · intro other inside
    rw [← anchorPosition, stops] at splits
    exact (compare_ne_gt_iff isEvm _ _).mp (splits other inside)
  · intro other inside
    have greater := search.greater_of_binarySearchBy found other inside
    rw [compareTokenIds_eq_cmp, cmp_eq_gt_iff] at greater
    exact greater
  · rw [insertAnchor_eq_keepFirst sorted
      (fun bound isLimit => Option.mem_some.mp isLimit ▸ bounded) fresh, stops, drop]
    rfl

/-- Exactly one kept spelling is later when the record stands in order directly
before the last one. -/
theorem laterSpellings_single_iff {before after : List MetadataRecord} {last : MetadataRecord}
    (increasing : KeysIncreasing (placeKey isEvm) (before ++ last :: after))
    (fresh : record.tokenId ∉ (before ++ last :: after).map tokenId)
    (smaller : ∀ kept ∈ before,
      key isEvm kept ≤ key isEvm record)
    (lastTied : key isEvm last = key isEvm record)
    (greater : ∀ kept ∈ after,
      key isEvm record < key isEvm kept) :
    (laterSpellings isEvm (before ++ last :: after) record).length = 1 ↔
      (∀ kept ∈ before,
        placeKey isEvm kept < placeKey isEvm record) ∧
      ∀ kept ∈ last :: after,
        placeKey isEvm record < placeKey isEvm kept := by
  have beforeLt := (pairwise_append.mp increasing).2.2
  have noneAfter : laterSpellings isEvm after record = [] := by
    rw [laterSpellings, filter_eq_nil_iff]
    intro kept member
    simp [ties_iff, (greater kept member).ne']
  have split : laterSpellings isEvm (before ++ last :: after) record =
      laterSpellings isEvm before record ++ laterSpellings isEvm [last] record := by
    rw [laterSpellings, filter_append, ← singleton_append, filter_append]
    change _ ++ (_ ++ laterSpellings isEvm after record) = _
    rw [noneAfter, append_nil]
    rfl
  have lastLater : ∀ {kept}, kept ∈ laterSpellings isEvm before record →
      record.tokenId < last.tokenId := by
    intro kept member
    rw [laterSpellings, mem_filter, decide_eq_true_iff, ties_iff] at member
    have keptLt := beforeLt kept member.1 last (by simp)
    rw [placeKey_lt_iff_of_key_eq (member.2.1.trans lastTied.symm)] at keptLt
    exact member.2.2.trans keptLt
  rw [split, length_append]
  constructor
  · intro single
    have later : record.tokenId < last.tokenId := by
      by_contra notLater
      have zero : (laterSpellings isEvm [last] record).length = 0 := by
        simp [laterSpellings, not_lt.mp notLater]
      have nonempty : laterSpellings isEvm before record ≠ [] := by
        intro empty
        rw [empty, zero] at single
        cases single
      rcases exists_mem_of_ne_nil _ nonempty with ⟨kept, member⟩
      exact notLater (lastLater member)
    have one : (laterSpellings isEvm [last] record).length = 1 := by
      simp [laterSpellings, ties_iff, lastTied, later]
    have noneBefore : laterSpellings isEvm before record = [] :=
      length_eq_zero_iff.mp (by omega)
    constructor
    · intro kept member
      by_cases tied : key isEvm kept = key isEvm record
      · rw [placeKey_lt_iff_of_key_eq tied]
        have different : kept.tokenId ≠ record.tokenId := fun equal =>
          fresh (mem_map.mpr ⟨kept, mem_append_left _ member, equal⟩)
        apply lt_of_le_of_ne _ different
        rw [← not_lt]
        intro keptLater
        have inside : kept ∈ laterSpellings isEvm before record := by
          simp [laterSpellings, member, ties_iff, tied, keptLater]
        simp [noneBefore] at inside
      · exact placeKey_lt_of_key_lt (lt_of_le_of_ne (smaller kept member) tied)
    · intro kept member
      rcases mem_cons.mp member with isLast | inAfter
      · rw [isLast, placeKey_lt_iff_of_key_eq lastTied.symm]
        exact later
      · exact placeKey_lt_of_key_lt (greater kept inAfter)
  · rintro ⟨beforeSmaller, afterGreater⟩
    have later := afterGreater last (by simp)
    rw [placeKey_lt_iff_of_key_eq lastTied.symm] at later
    have noneBefore : laterSpellings isEvm before record = [] := by
      rw [laterSpellings, filter_eq_nil_iff]
      intro kept member
      have less := beforeSmaller kept member
      by_cases tied : key isEvm kept = key isEvm record
      · rw [placeKey_lt_iff_of_key_eq tied] at less
        simp [less.le]
      · simp [ties_iff, tied]
    rw [noneBefore]
    simp [laterSpellings, ties_iff, lastTied, later]

theorem insertAnchor_eq_place_iff
    (increasing : KeysIncreasing (placeKey isEvm) anchors)
    (bounded : anchors.length ≤ limit)
    (fresh : record.tokenId ∉ anchors.map tokenId) :
    insertAnchor (some limit) isEvm anchors record =
        (placeByKey (placeKey isEvm) record anchors).take limit ↔
      ArrivesInOrder isEvm anchors record := by
  have unknown : ∀ kept ∈ anchors, kept.tokenId = record.tokenId → Precedes kept record :=
    fun kept member equal => absurd (mem_map.mpr ⟨kept, member, equal⟩) fresh
  by_cases tied : ∃ kept ∈ anchors, Ties isEvm record kept
  · rcases insertAnchor_tied increasing bounded fresh tied with
      ⟨before, last, after, equal, smaller, lastTied, greater, result⟩
    have room : before.length < limit := by
      rw [equal, length_append, length_cons] at bounded
      omega
    have different : ∀ kept ∈ before ++ last :: after,
        placeKey isEvm kept ≠ placeKey isEvm record :=
      fun kept member same =>
        fresh (mem_map.mpr ⟨kept, equal ▸ member, placeKey_eq_iff.mp same⟩)
    rw [equal] at increasing fresh
    rw [result, equal, take_eq_take_placeByKey_iff increasing different room,
      ← laterSpellings_single_iff increasing fresh smaller lastTied greater, ← equal]
    constructor
    · intro single
      exact ⟨unknown, fun _ _ => single⟩
    · intro arrives
      exact arrives.tied (equal ▸ fresh) tied
  · constructor
    · intro _
      exact ⟨unknown, fun _ isTied => absurd isTied tied⟩
    · intro _
      exact insertAnchor_untied increasing bounded fresh tied

end Insertion

section Step

variable {isEvm : Bool} {limit : Nat} {records : List MetadataRecord}
  {record : MetadataRecord}

/-- The first records the deferred sort keeps. -/
def firstFinalized (isEvm : Bool) (limit : Nat) (records : List MetadataRecord) :
    List MetadataRecord :=
  (finalizeAnchors isEvm records).take limit

theorem firstFinalized_increasing (isEvm : Bool) (limit : Nat)
    (records : List MetadataRecord) :
    KeysIncreasing (placeKey isEvm) (firstFinalized isEvm limit records) :=
  (finalizeAnchors_increasing isEvm records).sublist (take_sublist _ _)

section

variable (distinct : ((records ++ [record]).map sourceOrder).Nodup)
include distinct

theorem firstFinalized_fresh (fresh : record.tokenId ∉
      (firstFinalized isEvm limit records).map tokenId) :
    firstFinalized isEvm limit (records ++ [record]) =
      (placeByKey (placeKey isEvm) record
        (firstFinalized isEvm limit records)).take limit := by
  by_cases later : ∃ earlier ∈ records,
      earlier.tokenId = record.tokenId ∧ Precedes earlier record
  · rcases later with ⟨earlier, member, sameToken, precedes⟩
    rcases finalizeAnchors_covers isEvm member with ⟨dropped, inside, droppedToken, _⟩
    -- The token is beyond the limit, so all first records are smaller.
    have beyond : dropped ∈ (finalizeAnchors isEvm records).drop limit := by
      rw [← take_append_drop limit (finalizeAnchors isEvm records),
        mem_append] at inside
      apply inside.resolve_left
      intro early
      exact fresh (mem_map.mpr ⟨dropped, early, droppedToken.trans sameToken⟩)
    have increasing := finalizeAnchors_increasing isEvm records
    rw [KeysIncreasing, ← take_append_drop limit (finalizeAnchors isEvm records),
      pairwise_append] at increasing
    have full : limit ≤ (firstFinalized isEvm limit records).length := by
      have positive := length_pos_of_mem beyond
      rw [length_drop] at positive
      rw [firstFinalized, length_take]
      omega
    rw [firstFinalized, finalizeAnchors_later distinct member sameToken precedes,
      take_placeByKey_of_greater _ full, firstFinalized, take_take, Nat.min_self]
    intro kept early
    rw [← placeKey_eq_iff.mpr (droppedToken.trans sameToken)]
    exact increasing.2.2 kept early dropped beyond
  · rw [firstFinalized, finalizeAnchors_first distinct, take_placeByKey]
    · rfl
    · intro other member sameToken precedes
      exact later ⟨other, member, sameToken, precedes⟩

/-- A record of a token among the first ones changes them unless it comes later in
source order. -/
theorem firstFinalized_known (member : kept ∈ firstFinalized isEvm limit records)
    (sameToken : kept.tokenId = record.tokenId) :
    firstFinalized isEvm limit records = firstFinalized isEvm limit (records ++ [record]) ↔
      Precedes kept record := by
  have finalized : kept ∈ finalizeAnchors isEvm records := mem_of_mem_take member
  have inside := finalizeAnchors_subset isEvm finalized
  constructor
  · intro same
    rw [same] at member
    have still := mem_of_mem_take member
    rw [mem_finalizeAnchors_iff distinct] at still
    have notEarlier := still.2 record (by simp) sameToken.symm
    rw [not_precedes_iff isEvm sameToken.symm] at notEarlier
    rw [← finalKey_lt_iff isEvm sameToken]
    apply lt_of_le_of_ne notEarlier
    intro equal
    -- Rows of the same source order would be one row.
    rw [map_append, nodup_append] at distinct
    exact distinct.2.2 _ (mem_map.mpr ⟨kept, inside, rfl⟩) _ (by simp)
      (sourceOrder_eq_of_finalKey_eq equal)
  · intro precedes
    rw [firstFinalized, firstFinalized,
      finalizeAnchors_later distinct inside sameToken precedes]

theorem insertAnchor_firstFinalized_iff :
    insertAnchor (some limit) isEvm (firstFinalized isEvm limit records) record =
        firstFinalized isEvm limit (records ++ [record]) ↔
      ArrivesInOrder isEvm (firstFinalized isEvm limit records) record := by
  have increasing := firstFinalized_increasing isEvm limit records
  by_cases known : record.tokenId ∈
      (firstFinalized isEvm limit records).map tokenId
  · rw [insertAnchor_known _ _ known]
    rcases mem_map.mp known with ⟨kept, member, sameToken⟩
    rw [firstFinalized_known distinct member sameToken]
    constructor
    · intro precedes
      refine ⟨?_, fun fresh => absurd known fresh⟩
      intro other otherMember otherToken
      have same : other = kept := increasing.injective otherMember member
        (placeKey_eq_iff.mpr (otherToken.trans sameToken.symm))
      exact same ▸ precedes
    · intro arrives
      exact arrives.known kept member sameToken
  · rw [firstFinalized_fresh distinct known]
    exact insertAnchor_eq_place_iff increasing (length_take_le _ _) known

end

end Step

end EntityStore

open EntityStore

/-! ## Loads with and without a limit -/

section Loads

variable {canonicalizeJsonStrict : Canonicalizer} {name : ContractName}

theorem recordsOf_append (first second : List InputRow) :
    recordsOf canonicalizeJsonStrict (first ++ second) name =
      recordsOf canonicalizeJsonStrict first name ++
        recordsOf canonicalizeJsonStrict second name := by
  rw [recordsOf, flatMap_append]
  rfl

theorem recordsFor_cases (row : InputRow) :
    row.recordsFor canonicalizeJsonStrict name = [] ∨
      ∃ record, row.recordsFor canonicalizeJsonStrict name = [record] ∧
        record.sourceOrder = row.sourceOrder := by
  unfold InputRow.recordsFor
  split
  · cases validatedMetadata canonicalizeJsonStrict row.metadataJson with
    | none => exact .inl rfl
    | some canonicalJson => exact .inr ⟨_, rfl, rfl⟩
  · exact .inl rfl

theorem recordsOf_sourceOrders (canonicalizeJsonStrict : Canonicalizer)
    (name : ContractName) (rows : List InputRow) :
    ((recordsOf canonicalizeJsonStrict rows name).map sourceOrder).Sublist
      (rows.map InputRow.sourceOrder) := by
  induction rows with
  | nil => exact List.Sublist.refl _
  | cons row rows induction =>
      rw [recordsOf, flatMap_cons, map_append, map_cons]
      rcases recordsFor_cases row with none | ⟨record, single, sameOrder⟩
      · rw [none]
        exact induction.cons _
      · rw [single, map_singleton, sameOrder]
        exact induction.cons_cons _

theorem startStore_valid (options : LoadOptions) (deferred : Bool) :
    Valid (if deferred then options.newStore.deferUnboundedMetadataSort
      else options.newStore) := by
  cases deferred with
  | false => exact .withOptions _ _
  | true => exact .deferUnboundedMetadataSort _ _

variable {rows : List InputRow} {store : EntityStore}

theorem ingestRows_valid {next : EntityStore} (valid : Valid store)
    (ok : ingestRows canonicalizeJsonStrict store rows = .ok next) :
    Valid next := by
  apply foldlM_induction Valid _ rows valid ok
  intro state row stepped stateValid stepOk
  exact (tryIngestRow_spec stateValid stepOk).1

variable {options : LoadOptions} {deferred : Bool}

/-- What a load leaves in a contract. -/
theorem loadSequentially_metadata
    (ok : loadSequentially canonicalizeJsonStrict options deferred rows = .ok store)
    (name : ContractName) :
    store.metadataOf name =
      if (options.policy deferred).deferred then
        finalizeAnchors (decide (name.1 ∈ options.evmChains))
          ((recordsOf canonicalizeJsonStrict rows name).foldl
            ((options.policy deferred).insert name.1) [])
      else
        (recordsOf canonicalizeJsonStrict rows name).foldl
          ((options.policy deferred).insert name.1) [] := by
  rcases bind_eq_ok ok with ⟨ingested, ingestOk, finalizeOk⟩
  have startValid := startStore_valid options deferred
  have startPolicy : (if deferred then options.newStore.deferUnboundedMetadataSort
      else options.newStore).policy = options.policy deferred := by
    cases deferred <;> rfl
  have startEmpty : (if deferred then options.newStore.deferUnboundedMetadataSort
      else options.newStore).metadataOf name = [] := by
    cases deferred <;> rfl
  rcases ingestRows_metadata rows startValid ingestOk with ⟨samePolicy, metadata⟩
  have valid : Valid ingested := ingestRows_valid startValid ingestOk
  rcases finalizeMetadataAnchors_metadata valid with ⟨final, finalOk, _, _, finalized⟩
  rw [finalizeOk] at finalOk
  cases finalOk
  rw [finalized, samePolicy, metadata, startPolicy, startEmpty]
  rfl

variable {read : List InputRow}

/-- A load that succeeds has loaded all its openings. -/
theorem loadSequentially_prefix (isPrefix : read <+: rows)
    (ok : loadSequentially canonicalizeJsonStrict options deferred rows = .ok store) :
    ∃ opening, loadSequentially canonicalizeJsonStrict options deferred read =
      .ok opening := by
  rcases isPrefix with ⟨rest, equal⟩
  rcases bind_eq_ok ok with ⟨ingested, ingestOk, _⟩
  rw [ingestRows, ← equal, foldlM_append] at ingestOk
  rcases bind_eq_ok ingestOk with ⟨middle, middleOk, _⟩
  have startValid := startStore_valid options deferred
  rcases finalizeMetadataAnchors_metadata (ingestRows_valid startValid middleOk) with
    ⟨final, finalOk, _⟩
  refine ⟨final, ?_⟩
  rw [loadSequentially, ingestRows, middleOk]
  exact finalOk

/-- Anchors in token order, equal numbers by their text, each with the first content
of its token in source order. -/
structure FirstContents (isEvm : Bool) (records anchors : List MetadataRecord) : Prop where
  ordered : anchors.Pairwise fun left right =>
    compareTokenIds left.tokenId right.tokenId isEvm = .lt ∨
      compareTokenIds left.tokenId right.tokenId isEvm = .eq ∧ left.tokenId < right.tokenId
  first : ∀ record, record ∈ anchors ↔
    record ∈ records ∧ ∀ other ∈ records, other.tokenId = record.tokenId →
      ¬ Precedes other record

theorem firstContents_finalizeAnchors {records : List MetadataRecord}
    (distinct : (records.map sourceOrder).Nodup) :
    FirstContents isEvm records (finalizeAnchors isEvm records) where
  ordered := by
    apply (finalizeAnchors_increasing isEvm records).imp
    intro left right less
    rw [compareTokenIds_eq_cmp, cmp_eq_lt_iff, cmp_eq_eq_iff]
    exact Prod.Lex.toLex_lt_toLex.mp less
  first := fun _ => mem_finalizeAnchors_iff distinct

variable (canonicalizeJsonStrict name)

def limitedStep (limit : Nat) (evmChains : Finset Text) (anchors : List MetadataRecord)
    (row : InputRow) : List MetadataRecord :=
  (row.recordsFor canonicalizeJsonStrict name).foldl
    (AnchorPolicy.insert ⟨some limit, false, evmChains⟩ name.1) anchors

/-- The record of a row, if it has one, arrives in order. -/
def RowArrivesInOrder (evmChains : Finset Text) (anchors : List MetadataRecord)
    (row : InputRow) : Prop :=
  ∀ record ∈ row.recordsFor canonicalizeJsonStrict name,
    ArrivesInOrder (decide (name.1 ∈ evmChains)) anchors record

instance (evmChains : Finset Text) (anchors : List MetadataRecord) (row : InputRow) :
    Decidable (RowArrivesInOrder canonicalizeJsonStrict name evmChains anchors row) := by
  unfold RowArrivesInOrder
  infer_instance

variable {evmChains : Finset Text} {limit : Nat}

theorem limited_metadata
    (ok : loadSequentially canonicalizeJsonStrict ⟨some limit, evmChains⟩ false rows =
      .ok store) :
    store.metadataOf name =
      rows.foldl (limitedStep canonicalizeJsonStrict name limit evmChains) [] := by
  rw [loadSequentially_metadata ok, if_neg (by simp [LoadOptions.policy]), recordsOf,
    foldl_flatMap]
  rfl

theorem deferred_metadata
    (ok : loadSequentially canonicalizeJsonStrict ⟨none, evmChains⟩ true rows = .ok store) :
    store.metadataOf name = finalizeAnchors (decide (name.1 ∈ evmChains))
      (recordsOf canonicalizeJsonStrict rows name) := by
  rw [loadSequentially_metadata ok, if_pos (by rfl),
    AnchorPolicy.insert_deferred (by simp [LoadOptions.policy]) (by rfl)]
  rfl

theorem limitedStep_iff {row : InputRow}
    (distinct : ((read ++ [row]).map InputRow.sourceOrder).Nodup) :
    limitedStep canonicalizeJsonStrict name limit evmChains
        (firstFinalized (decide (name.1 ∈ evmChains)) limit
          (recordsOf canonicalizeJsonStrict read name)) row =
      firstFinalized (decide (name.1 ∈ evmChains)) limit
        (recordsOf canonicalizeJsonStrict (read ++ [row]) name) ↔
      RowArrivesInOrder canonicalizeJsonStrict name evmChains
        (firstFinalized (decide (name.1 ∈ evmChains)) limit
          (recordsOf canonicalizeJsonStrict read name)) row := by
  have one : recordsOf canonicalizeJsonStrict [row] name =
      row.recordsFor canonicalizeJsonStrict name := by
    simp [recordsOf]
  have sources := distinct.sublist
    (recordsOf_sourceOrders canonicalizeJsonStrict name (read ++ [row]))
  rw [recordsOf_append, one] at sources ⊢
  rw [limitedStep, RowArrivesInOrder]
  rcases recordsFor_cases row with none | ⟨record, single, _⟩
  · rw [none]
    simp
  · rw [single] at sources ⊢
    rw [foldl_cons, foldl_nil, forall_mem_singleton,
      ← insertAnchor_firstFinalized_iff sources, AnchorPolicy.insert]
    by_cases zero : limit = 0
    · simp [zero, firstFinalized, insertAnchor]
    · rw [if_neg (by simpa using zero), if_neg (by simp)]

/-- The limited anchors are the first finalized ones at every moment exactly when every
row arrives in order. -/
theorem limitedSteps_iff (limit : Nat) (evmChains : Finset Text)
    (distinct : (rows.map InputRow.sourceOrder).Nodup) :
    (∀ read, read <+: rows →
      read.foldl (limitedStep canonicalizeJsonStrict name limit evmChains) [] =
        firstFinalized (decide (name.1 ∈ evmChains)) limit
          (recordsOf canonicalizeJsonStrict read name)) ↔
      ∀ read row, read ++ [row] <+: rows →
        RowArrivesInOrder canonicalizeJsonStrict name evmChains
          (read.foldl (limitedStep canonicalizeJsonStrict name limit evmChains) []) row := by
  apply foldl_eq_iff rows
  · simp [recordsOf, firstFinalized, finalizeAnchors]
  · intro read row isPrefix
    exact limitedStep_iff canonicalizeJsonStrict name
      (distinct.sublist (isPrefix.sublist.map _))

/-- A limited load agrees with the deferred one at every moment exactly when every
row arrives in order. -/
theorem limitedAnchors_iff (limit : Nat) (evmChains : Finset Text) {rows : List InputRow}
    (distinct : (rows.map InputRow.sourceOrder).Nodup) {limited deferred : EntityStore}
    (limitedOk : loadSequentially canonicalizeJsonStrict ⟨some limit, evmChains⟩ false
      rows = .ok limited)
    (deferredOk : loadSequentially canonicalizeJsonStrict ⟨none, evmChains⟩ true rows =
      .ok deferred) :
    FirstContents (decide (name.1 ∈ evmChains))
        (recordsOf canonicalizeJsonStrict rows name) (deferred.metadataOf name) ∧
      ((∀ read, read <+: rows → ∀ kept sorted,
          loadSequentially canonicalizeJsonStrict ⟨some limit, evmChains⟩ false read =
            .ok kept →
          loadSequentially canonicalizeJsonStrict ⟨none, evmChains⟩ true read =
            .ok sorted →
          kept.metadataOf name = (sorted.metadataOf name).take limit) ↔
        ∀ read row, read ++ [row] <+: rows → ∀ kept,
          loadSequentially canonicalizeJsonStrict ⟨some limit, evmChains⟩ false read =
            .ok kept →
          RowArrivesInOrder canonicalizeJsonStrict name evmChains (kept.metadataOf name)
            row) := by
  have sources := distinct.sublist (recordsOf_sourceOrders canonicalizeJsonStrict name rows)
  have agree := limitedSteps_iff canonicalizeJsonStrict name limit evmChains distinct
  constructor
  · rw [deferred_metadata canonicalizeJsonStrict name deferredOk]
    exact firstContents_finalizeAnchors sources
  constructor
  · intro holds read row isPrefix kept keptOk
    rw [limited_metadata canonicalizeJsonStrict name keptOk]
    apply agree.mp _ read row isPrefix
    intro opening openingPrefix
    rcases loadSequentially_prefix openingPrefix limitedOk with ⟨early, earlyOk⟩
    rcases loadSequentially_prefix openingPrefix deferredOk with ⟨sorted, sortedOk⟩
    have same := holds opening openingPrefix early sorted earlyOk sortedOk
    rw [limited_metadata canonicalizeJsonStrict name earlyOk,
      deferred_metadata canonicalizeJsonStrict name sortedOk] at same
    exact same
  · intro arrives read isPrefix kept sorted keptOk sortedOk
    rw [limited_metadata canonicalizeJsonStrict name keptOk,
      deferred_metadata canonicalizeJsonStrict name sortedOk]
    apply agree.mpr _ read isPrefix
    intro opening row openingPrefix
    rcases loadSequentially_prefix ((prefix_append _ _).trans openingPrefix) limitedOk
      with ⟨early, earlyOk⟩
    have inOrder := arrives opening row openingPrefix early earlyOk
    rw [limited_metadata canonicalizeJsonStrict name earlyOk] at inOrder
    exact inOrder

end Loads

/-- Two spellings of one number: the later row goes before the earlier one, although
its text is greater. -/
theorem limitedAnchors_ne_prefix :
    ∃ limited deferred,
      loadSequentially some ⟨some 8, {"ethereum".toList}⟩ false
        [metadataRow "07" "[1]" 0, metadataRow "7" "[2]" 1] = .ok limited ∧
      loadSequentially some ⟨none, {"ethereum".toList}⟩ true
        [metadataRow "07" "[1]" 0, metadataRow "7" "[2]" 1] = .ok deferred ∧
      limited.metadataOf ("ethereum".toList, "0xabc".toList) ≠
        (deferred.metadataOf ("ethereum".toList, "0xabc".toList)).take 8 := by
  refine ⟨_, _, rfl, rfl, ?_⟩
  decide

/-- A repeated token keeps its first record. -/
theorem limitedAnchors_iff_repeated :
    ∃ limited, loadSequentially some ⟨some 1, {"ethereum".toList}⟩ false
        [metadataRow "7" "[1]" 0, metadataRow "7" "[2]" 1] = .ok limited ∧
      ∃ deferred, loadSequentially some ⟨none, {"ethereum".toList}⟩ true
        [metadataRow "7" "[1]" 0, metadataRow "7" "[2]" 1] = .ok deferred ∧
      FirstContents true
        (recordsOf some [metadataRow "7" "[1]" 0, metadataRow "7" "[2]" 1]
          ("ethereum".toList, "0xabc".toList))
        (deferred.metadataOf ("ethereum".toList, "0xabc".toList)) ∧
      limited.metadataOf ("ethereum".toList, "0xabc".toList) =
        (deferred.metadataOf ("ethereum".toList, "0xabc".toList)).take 1 := by
  have distinct : ([metadataRow "7" "[1]" 0, metadataRow "7" "[2]" 1].map
      InputRow.sourceOrder).Nodup := by
    decide
  have agree := limitedAnchors_iff some ("ethereum".toList, "0xabc".toList) 1
    {"ethereum".toList} distinct rfl rfl
  refine ⟨_, rfl, _, rfl, agree.1, agree.2.mpr ?_ _ prefix_rfl _ _ rfl rfl⟩
  intro read row isPrefix kept keptOk
  rw [limited_metadata some _ keptOk]
  rcases isPrefix with ⟨rest, equal⟩
  cases read with
  | nil =>
      have isFirst : row = metadataRow "7" "[1]" 0 := (List.cons.inj equal).1
      rw [isFirst]
      decide
  | cons first read =>
      have isFirst : first = metadataRow "7" "[1]" 0 := (List.cons.inj equal).1
      have tail : (read ++ [row]) ++ rest = [metadataRow "7" "[2]" 1] :=
        (List.cons.inj equal).2
      cases read with
      | nil =>
          have isSecond : row = metadataRow "7" "[2]" 1 := (List.cons.inj tail).1
          rw [isFirst, isSecond]
          decide
      | cons second read => simp at tail

end NftData.Dedup
