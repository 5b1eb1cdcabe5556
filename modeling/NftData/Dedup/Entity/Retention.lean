import NftData.Dedup.Entity.Anchors

namespace NftData.Dedup.EntityStore

/-! # Which records a contract retains

Insertion with a limit depends on the order of the rows when different token ids
compare equal. Away from such ties it does not: the records below the limit are
the first records of the smallest token ids, however the rows were grouped. -/

open List
open MetadataRecord (finalKey)

def smallerTokens (isEvm : Bool) (tokens : Finset Text) (token : Text) : Nat :=
  (tokens.filter fun other => tokenKey isEvm other < tokenKey isEvm token).card

def Untied (isEvm : Bool) (limit : Option Nat) (tokens : Finset Text) : Prop :=
  ∀ left ∈ tokens, ∀ right ∈ tokens, left ≠ right →
    tokenKey isEvm left = tokenKey isEvm right →
    ∃ bound ∈ limit, bound ≤ smallerTokens isEvm tokens left

/-- The token ids whose records no limit can drop. -/
def Kept (isEvm : Bool) (limit : Option Nat) (tokens : Finset Text) (token : Text) :
    Prop :=
  ∀ bound ∈ limit, smallerTokens isEvm tokens token < bound

instance (isEvm : Bool) (limit : Option Nat) (tokens : Finset Text) (token : Text) :
    Decidable (Kept isEvm limit tokens token) := by
  unfold Kept
  infer_instance

section Kept

variable {isEvm : Bool} {limit : Option Nat} {tokens : Finset Text} {right left : Text}

theorem smallerTokens_mono (le : tokenKey isEvm left ≤ tokenKey isEvm right) :
    smallerTokens isEvm tokens left ≤ smallerTokens isEvm tokens right := by
  apply Finset.card_le_card
  intro other member
  rw [Finset.mem_filter] at member ⊢
  exact ⟨member.1, member.2.trans_le le⟩

theorem smallerTokens_lt (member : left ∈ tokens)
    (less : tokenKey isEvm left < tokenKey isEvm right) :
    smallerTokens isEvm tokens left < smallerTokens isEvm tokens right := by
  apply Finset.card_lt_card
  rw [Finset.ssubset_iff_of_subset]
  · refine ⟨left, Finset.mem_filter.mpr ⟨member, less⟩, ?_⟩
    simp
  · intro other otherMember
    rw [Finset.mem_filter] at otherMember ⊢
    exact ⟨otherMember.1, otherMember.2.trans less⟩

theorem Kept.lower (kept : Kept isEvm limit tokens right)
    (le : tokenKey isEvm left ≤ tokenKey isEvm right) :
    Kept isEvm limit tokens left :=
  fun bound isLimit => (smallerTokens_mono le).trans_lt (kept bound isLimit)

section

variable (untied : Untied isEvm limit tokens)
include untied

theorem Kept.unique (kept : Kept isEvm limit tokens left)
    (leftMember : left ∈ tokens) (rightMember : right ∈ tokens)
    (equal : tokenKey isEvm left = tokenKey isEvm right) : left = right := by
  by_contra different
  rcases untied left leftMember right rightMember different equal with
    ⟨bound, isLimit, beyond⟩
  have := kept bound isLimit
  omega

private theorem smallerTokens_injOn :
    Set.InjOn (smallerTokens isEvm tokens)
      ↑(tokens.filter (Kept isEvm limit tokens)) := by
  intro left leftMember right rightMember equal
  rw [Finset.coe_filter, Set.mem_ofPred_eq] at leftMember rightMember
  rcases lt_trichotomy (tokenKey isEvm left) (tokenKey isEvm right) with
    less | same | greater
  · have := smallerTokens_lt leftMember.1 less
    omega
  · exact leftMember.2.unique untied leftMember.1 rightMember.1 same
  · have := smallerTokens_lt rightMember.1 greater
    omega

variable {bound : Nat}

theorem kept_card_le (isLimit : bound ∈ limit) :
    (tokens.filter (Kept isEvm limit tokens)).card ≤ bound := by
  have into : ∀ token ∈ tokens.filter (Kept isEvm limit tokens),
      smallerTokens isEvm tokens token ∈ Finset.range bound := by
    intro token member
    rw [Finset.mem_filter] at member
    exact Finset.mem_range.mpr (member.2 bound isLimit)
  have := Finset.card_le_card_of_injOn _ into (smallerTokens_injOn untied)
  simpa using this

/-- When some token id is dropped, the kept ones fill the limit. -/
theorem kept_card_eq (isLimit : bound ∈ limit) {dropped : Text} (member : dropped ∈ tokens)
    (isDropped : ¬ Kept isEvm limit tokens dropped) :
    (tokens.filter (Kept isEvm limit tokens)).card = bound := by
  apply Nat.le_antisymm (kept_card_le untied isLimit)
  have nonempty : (tokens.filter fun token =>
      ¬ Kept isEvm limit tokens token).Nonempty :=
    ⟨dropped, Finset.mem_filter.mpr ⟨member, isDropped⟩⟩
  rcases Finset.exists_min_image _ (tokenKey isEvm) nonempty with
    ⟨least, leastMember, isLeast⟩
  rw [Finset.mem_filter] at leastMember
  have beyond : bound ≤ smallerTokens isEvm tokens least := by
    by_contra below
    apply leastMember.2
    intro other isOther
    rw [Option.mem_def.mp isLimit] at isOther
    cases isOther
    omega
  apply beyond.trans
  apply Finset.card_le_card
  intro token tokenMember
  rw [Finset.mem_filter] at tokenMember ⊢
  refine ⟨tokenMember.1, ?_⟩
  by_contra notKept
  have := isLeast token (Finset.mem_filter.mpr ⟨tokenMember.1, notKept⟩)
  exact absurd tokenMember.2 (not_lt.mpr this)

end

end Kept

/-! ## Retained lists -/

/-- The first record of its token id. -/
def IsFirst (records : List MetadataRecord) (record : MetadataRecord) : Prop :=
  records.find? (fun other => other.tokenId == record.tokenId) = some record

variable {records : List MetadataRecord} {record : MetadataRecord}

theorem IsFirst.mem (first : IsFirst records record) : record ∈ records :=
  List.mem_of_find?_eq_some first

theorem exists_isFirst (member : record ∈ records) :
    ∃ first, IsFirst records first ∧ first.tokenId = record.tokenId := by
  have found : (records.find? fun other => other.tokenId == record.tokenId).isSome := by
    rw [List.find?_isSome]
    exact ⟨record, member, beq_self_eq_true _⟩
  rcases Option.isSome_iff_exists.mp found with ⟨first, firstFound⟩
  have sameToken : first.tokenId = record.tokenId := by
    simpa using List.find?_some firstFound
  exact ⟨first, by rw [IsFirst, sameToken]; exact firstFound, sameToken⟩

variable {right left : MetadataRecord}

theorem IsFirst.unique (leftFirst : IsFirst records left) (rightFirst : IsFirst records right)
    (sameToken : left.tokenId = right.tokenId) :
    left = right := by
  rw [IsFirst, sameToken, rightFirst] at leftFirst
  exact (Option.some.inj leftFirst).symm

variable {second first : List MetadataRecord}

theorem isFirst_append :
    IsFirst (first ++ second) record ↔
      IsFirst first record ∨
        IsFirst second record ∧ record.tokenId ∉ first.map MetadataRecord.tokenId := by
  unfold IsFirst
  rw [List.find?_append]
  cases found : first.find? (fun other => other.tokenId == record.tokenId) with
  | some value =>
      have known : record.tokenId ∈ first.map MetadataRecord.tokenId :=
        mem_map.mpr ⟨value, List.mem_of_find?_eq_some found,
          by simpa using List.find?_some found⟩
      simp [known]
  | none =>
      have absent : record.tokenId ∉ first.map MetadataRecord.tokenId := by
        intro known
        rcases mem_map.mp known with ⟨value, member, equal⟩
        have := List.find?_eq_none.mp found value member
        simp [equal] at this
      simp [absent]

/-- What the anchors of a contract are after some of its records: sorted, within
the limit, and exact on the kept token ids of the whole load. -/
structure Retains (isEvm : Bool) (limit : Option Nat) (tokens : Finset Text)
    (records anchors : List MetadataRecord) : Prop where
  sorted : AnchorsSorted isEvm anchors
  bounded : ∀ bound ∈ limit, anchors.length ≤ bound
  subset : ∀ record ∈ anchors, record ∈ records
  exact_ : ∀ record, Kept isEvm limit tokens record.tokenId →
    (record ∈ anchors ↔ IsFirst records record)

section Retains

variable {isEvm : Bool} {limit : Option Nat} {tokens : Finset Text}

/-- Dropping the overflow never drops a kept token id. -/
private theorem mem_keepFirst_of_kept (untied : Untied isEvm limit tokens)
    {full : List MetadataRecord} (sorted : AnchorsSorted isEvm full)
    (known : ∀ record ∈ full, record.tokenId ∈ tokens)
    (almost : ∀ bound ∈ limit, full.length ≤ bound + 1)
    (kept : Kept isEvm limit tokens record.tokenId) (member : record ∈ full) :
    record ∈ keepFirst limit full := by
  cases limitEqual : limit with
  | none => exact member
  | some bound =>
      have isLimit : bound ∈ limit := limitEqual
      rw [← take_append_drop bound full, mem_append] at member
      rcases member with inside | dropped
      · exact inside
      · exfalso
        have dropLength := length_pos_of_mem dropped
        have almostBound := almost bound isLimit
        rw [length_drop] at dropLength
        have allKept : ∀ other ∈ full, Kept isEvm limit tokens other.tokenId := by
          intro other otherMember
          have ordered := sorted.keys_ordered
          rw [← take_append_drop bound full, pairwise_append] at ordered
          rw [← take_append_drop bound full, mem_append] at otherMember
          rcases otherMember with before | after
          · exact kept.lower (ordered.2.2 other before record dropped)
          · have single : (full.drop bound).length = 1 := by
              rw [length_drop]
              omega
            rcases length_eq_one_iff.mp single with ⟨last, lastEqual⟩
            rw [lastEqual, mem_singleton] at after dropped
            rw [after, ← dropped]
            exact kept
        have subset : (full.map MetadataRecord.tokenId).toFinset ⊆
            tokens.filter (Kept isEvm limit tokens) := by
          intro token tokenMember
          rcases mem_map.mp (mem_toFinset.mp tokenMember) with
            ⟨other, otherMember, equal⟩
          rw [← equal, Finset.mem_filter]
          exact ⟨known other otherMember, allKept other otherMember⟩
        have tooMany := (Finset.card_le_card subset).trans (kept_card_le untied isLimit)
        rw [toFinset_card_of_nodup sorted.distinct, length_map] at tooMany
        omega

variable {anchors : List MetadataRecord}

theorem mem_insertAnchor_iff (untied : Untied isEvm limit tokens) (record other : MetadataRecord)
    (sorted : AnchorsSorted isEvm anchors) (bounded : ∀ bound ∈ limit, anchors.length ≤ bound)
    (known : ∀ record ∈ anchors, record.tokenId ∈ tokens) (recordKnown : record.tokenId ∈ tokens)
    (kept : Kept isEvm limit tokens other.tokenId) :
    other ∈ insertAnchor limit isEvm anchors record ↔
      other ∈ anchors ∨
        other = record ∧ record.tokenId ∉ anchors.map MetadataRecord.tokenId := by
  by_cases present : record.tokenId ∈ anchors.map MetadataRecord.tokenId
  · rw [insertAnchor_known limit isEvm present]
    simp [present]
  · rcases insertAnchor_fresh sorted bounded present with
      ⟨before, after, equal, smaller, greater, result⟩
    subst equal
    have full := sorted.insert present smaller greater
    have member : ∀ entry, entry ∈ before ++ record :: after ↔
        entry ∈ before ++ after ∨ entry = record := by
      intro entry
      simp only [mem_append, mem_cons]
      tauto
    rw [result]
    constructor
    · intro inside
      have := (member other).mp ((keepFirst_sublist limit _).subset inside)
      exact this.imp_right fun isRecord => ⟨isRecord, present⟩
    · intro either
      apply mem_keepFirst_of_kept untied full _ _ kept
        ((member other).mpr (either.imp_right And.left))
      · intro entry entryMember
        rcases (member entry).mp entryMember with old | isRecord
        · exact known entry old
        · exact isRecord ▸ recordKnown
      · intro bound isLimit
        have := bounded bound isLimit
        simp only [length_append, length_cons] at this ⊢
        omega

theorem insertAnchor_subset (record other : MetadataRecord) (sorted : AnchorsSorted isEvm anchors)
    (bounded : ∀ bound ∈ limit, anchors.length ≤ bound)
    (member : other ∈ insertAnchor limit isEvm anchors record) :
    other ∈ anchors ∨ other = record := by
  by_cases present : record.tokenId ∈ anchors.map MetadataRecord.tokenId
  · rw [insertAnchor_known limit isEvm present] at member
    exact .inl member
  · rcases insertAnchor_fresh sorted bounded present with
      ⟨before, after, equal, _, _, result⟩
    rw [result] at member
    have inside := (keepFirst_sublist limit _).subset member
    rw [equal]
    simp only [mem_append, mem_cons] at inside ⊢
    tauto

theorem Retains.nil : Retains isEvm limit tokens [] [] :=
  ⟨.nil, by simp, by simp, by simp [IsFirst]⟩

/-- Inserting the anchors of a later part into those of an earlier part. -/
theorem Retains.insertAll (untied : Untied isEvm limit tokens) {added : List MetadataRecord}
    (firstKnown : ∀ record ∈ first, record.tokenId ∈ tokens)
    (secondKnown : ∀ record ∈ second, record.tokenId ∈ tokens)
    (before : Retains isEvm limit tokens first anchors)
    (after : Retains isEvm limit tokens second added) :
    Retains isEvm limit tokens (first ++ second)
      (added.foldl (insertAnchor limit isEvm) anchors) := by
  -- The fold keeps the kept tokens of both lists, the earlier list first.
  have folded : ∀ (rest anchors : List MetadataRecord),
      AnchorsSorted isEvm anchors → (∀ bound ∈ limit, anchors.length ≤ bound) →
      (∀ record ∈ anchors, record.tokenId ∈ tokens) →
      (∀ record ∈ rest, record.tokenId ∈ tokens) →
      (rest.map MetadataRecord.tokenId).Nodup →
      let result := rest.foldl (insertAnchor limit isEvm) anchors
      AnchorsSorted isEvm result ∧ (∀ bound ∈ limit, result.length ≤ bound) ∧
        (∀ record ∈ result, record ∈ anchors ∨ record ∈ rest) ∧
        ∀ record, Kept isEvm limit tokens record.tokenId →
          (record ∈ result ↔ record ∈ anchors ∨
            record ∈ rest ∧
              record.tokenId ∉ anchors.map MetadataRecord.tokenId) := by
    intro rest
    induction rest with
    | nil =>
        intro anchors sorted bounded _ _ _
        exact ⟨sorted, bounded, fun _ member => .inl member, by simp⟩
    | cons record rest induction =>
        intro anchors sorted bounded known restKnown nodup
        rw [map_cons, nodup_cons] at nodup
        have recordKnown := restKnown record (by simp)
        have middleSubset := fun other =>
          insertAnchor_subset record other sorted bounded
        have middleKnown : ∀ other ∈ insertAnchor limit isEvm anchors record,
            other.tokenId ∈ tokens := by
          intro other member
          rcases middleSubset other member with old | equal
          · exact known other old
          · exact equal ▸ recordKnown
        rcases induction (insertAnchor limit isEvm anchors record)
          (insertAnchor_sorted record sorted bounded)
          (insertAnchor_bounded record sorted bounded) middleKnown
          (fun other member => restKnown other (mem_cons_of_mem _ member)) nodup.2
          with ⟨lastSorted, lastBounded, lastSubset, lastExact⟩
        refine ⟨lastSorted, lastBounded, ?_, ?_⟩
        · intro other member
          rcases lastSubset other member with inMiddle | inRest
          · exact (middleSubset other inMiddle).imp_right fun equal => by simp [equal]
          · exact .inr (mem_cons_of_mem _ inRest)
        · intro other kept
          have inserted := fun (entry : MetadataRecord)
              (entryKept : Kept isEvm limit tokens entry.tokenId) =>
            mem_insertAnchor_iff untied record entry sorted bounded known recordKnown
              entryKept
          rw [foldl_cons, lastExact other kept, inserted other kept, mem_cons]
          have tokensOf : other ∈ rest →
              (other.tokenId ∈ (insertAnchor limit isEvm anchors record).map
                MetadataRecord.tokenId ↔
              other.tokenId ∈ anchors.map MetadataRecord.tokenId) := by
            intro inRest
            have different : other.tokenId ≠ record.tokenId := by
              intro equal
              exact nodup.1 (equal ▸ mem_map.mpr ⟨other, inRest, rfl⟩)
            simp only [mem_map]
            constructor
            · rintro ⟨entry, entryMember, equal⟩
              rcases (inserted entry (equal ▸ kept)).mp entryMember with old | ⟨isNew, _⟩
              · exact ⟨entry, old, equal⟩
              · rw [isNew] at equal
                exact absurd equal.symm different
            · rintro ⟨entry, entryMember, equal⟩
              exact ⟨entry, (inserted entry (equal ▸ kept)).mpr (.inl entryMember), equal⟩
          constructor
          · rintro ((old | ⟨isNew, fresh⟩) | ⟨inRest, fresh⟩)
            · exact .inl old
            · exact .inr ⟨.inl isNew, isNew ▸ fresh⟩
            · exact .inr ⟨.inr inRest, fun known => fresh ((tokensOf inRest).mpr known)⟩
          · rintro (old | ⟨isNew | inRest, fresh⟩)
            · exact .inl (.inl old)
            · exact .inl (.inr ⟨isNew, isNew ▸ fresh⟩)
            · exact .inr ⟨inRest, fun known => fresh ((tokensOf inRest).mp known)⟩
  have anchorsKnown : ∀ record ∈ anchors, record.tokenId ∈ tokens :=
    fun record member => firstKnown record (before.subset record member)
  have addedKnown : ∀ record ∈ added, record.tokenId ∈ tokens :=
    fun record member => secondKnown record (after.subset record member)
  rcases folded added anchors before.sorted before.bounded anchorsKnown addedKnown
    after.sorted.distinct with ⟨sorted, bounded, subset, exact_⟩
  refine ⟨sorted, bounded, ?_, ?_⟩
  · intro record member
    rcases subset record member with old | new
    · exact mem_append_left _ (before.subset record old)
    · exact mem_append_right _ (after.subset record new)
  · intro record kept
    rw [exact_ record kept, isFirst_append, before.exact_ record kept,
      after.exact_ record kept]
    have tokensOf : record.tokenId ∈ anchors.map MetadataRecord.tokenId ↔
        record.tokenId ∈ first.map MetadataRecord.tokenId := by
      simp only [mem_map]
      constructor
      · rintro ⟨entry, member, equal⟩
        exact ⟨entry, before.subset entry member, equal⟩
      · rintro ⟨entry, member, equal⟩
        rcases exists_isFirst member with ⟨firstEntry, isFirst, sameToken⟩
        have firstKept : Kept isEvm limit tokens firstEntry.tokenId := by
          rw [sameToken, equal]
          exact kept
        exact ⟨firstEntry, (before.exact_ firstEntry firstKept).mpr isFirst,
          sameToken.trans equal⟩
    rw [tokensOf]

theorem Retains.zero (records : List MetadataRecord) :
    Retains isEvm (some 0) tokens records [] :=
  ⟨.nil, by simp, by simp, fun _ kept => absurd (kept 0 rfl) (Nat.not_lt_zero _)⟩

theorem Retains.singleton (record : MetadataRecord) (room : limit ≠ some 0) :
    Retains isEvm limit tokens [record] [record] where
  sorted := ⟨by simp, by simp⟩
  bounded := by
    intro bound isLimit
    have positive : bound ≠ 0 := by
      intro isZero
      exact room (isZero ▸ isLimit)
    exact Nat.one_le_iff_ne_zero.mpr positive
  subset := fun _ member => member
  exact_ := by
    intro other _
    rw [mem_singleton, IsFirst, List.find?_singleton]
    constructor
    · intro equal
      simp [equal]
    · intro first
      split at first
      · exact (Option.some.inj first).symm
      · cases first

section

variable (untied : Untied isEvm limit tokens)
include untied

/-- Inserting the records one after the other retains them. -/
theorem Retains.insertRecords (room : limit ≠ some 0) (records : List MetadataRecord) :
    ∀ {before anchors : List MetadataRecord},
      (∀ record ∈ before ++ records, record.tokenId ∈ tokens) →
      Retains isEvm limit tokens before anchors →
      Retains isEvm limit tokens (before ++ records)
        (records.foldl (insertAnchor limit isEvm) anchors) := by
  induction records with
  | nil =>
      intro before anchors _ retains
      rw [append_nil]
      exact retains
  | cons record records induction =>
      intro before anchors known retains
      have assoc : before ++ record :: records = (before ++ [record]) ++ records := by
        simp
      rw [assoc] at known ⊢
      apply induction known
      apply retains.insertAll untied _ _ (.singleton record room)
      · intro other member
        exact known other (by simp [member])
      · intro other member
        exact known other (by simp [mem_singleton.mp member])

theorem Retains.mem_iff (whole : tokens = (records.map MetadataRecord.tokenId).toFinset)
    (retains : Retains isEvm limit tokens records anchors) (record : MetadataRecord) :
    record ∈ anchors ↔
      Kept isEvm limit tokens record.tokenId ∧ IsFirst records record := by
  have tokenOf : ∀ {entry}, entry ∈ records → entry.tokenId ∈ tokens := by
    intro entry member
    rw [whole, mem_toFinset]
    exact mem_map.mpr ⟨entry, member, rfl⟩
  constructor
  · intro member
    have kept : Kept isEvm limit tokens record.tokenId := by
      by_contra dropped
      have limited : ∃ bound, bound ∈ limit := by
        by_contra unlimited
        exact dropped fun bound isLimit => absurd ⟨bound, isLimit⟩ unlimited
      rcases limited with ⟨bound, isLimit⟩
      -- The kept token ids alone fill the limit, so there is no room for this one.
      have filled := kept_card_eq untied isLimit
        (tokenOf (retains.subset record member)) dropped
      have subset : insert record.tokenId
          (tokens.filter (Kept isEvm limit tokens)) ⊆
            (anchors.map MetadataRecord.tokenId).toFinset := by
        intro token tokenMember
        rw [mem_toFinset, mem_map]
        rcases Finset.mem_insert.mp tokenMember with isRecord | isKept
        · exact ⟨record, member, isRecord.symm⟩
        · rw [Finset.mem_filter, whole, mem_toFinset, mem_map] at isKept
          rcases isKept with ⟨⟨entry, entryMember, entryToken⟩, entryKept⟩
          rcases exists_isFirst entryMember with ⟨first, isFirst, sameToken⟩
          rw [← whole, ← entryToken, ← sameToken] at entryKept
          exact ⟨first, (retains.exact_ first entryKept).mpr isFirst,
            sameToken.trans entryToken⟩
      have count := Finset.card_le_card subset
      rw [Finset.card_insert_of_notMem (by simp [dropped]), filled,
        toFinset_card_of_nodup retains.sorted.distinct, length_map] at count
      have := retains.bounded bound isLimit
      omega
    exact ⟨kept, (retains.exact_ record kept).mp member⟩
  · intro both
    exact (retains.exact_ record both.1).mpr both.2

/-- Two lists that retain the same records are equal. -/
theorem Retains.unique {left right : List MetadataRecord}
    (whole : tokens = (records.map MetadataRecord.tokenId).toFinset)
    (leftRetains : Retains isEvm limit tokens records left)
    (rightRetains : Retains isEvm limit tokens records right) : left = right := by
  have perm : left.Perm right := by
    rw [perm_ext_iff_of_nodup leftRetains.sorted.distinct.of_map
      rightRetains.sorted.distinct.of_map]
    intro record
    rw [leftRetains.mem_iff untied whole, rightRetains.mem_iff untied whole]
  refine perm.eq_of_pairwise ?_ leftRetains.sorted.keys_ordered
    rightRetains.sorted.keys_ordered
  intro first second firstMember secondMember firstLe secondLe
  rcases (leftRetains.mem_iff untied whole first).mp firstMember with ⟨kept, isFirst⟩
  rcases (rightRetains.mem_iff untied whole second).mp secondMember with
    ⟨_, isFirstToo⟩
  have tokenOf : ∀ {entry}, entry ∈ records → entry.tokenId ∈ tokens := by
    intro entry member
    rw [whole, mem_toFinset]
    exact mem_map.mpr ⟨entry, member, rfl⟩
  have sameToken := kept.unique untied (tokenOf isFirst.mem) (tokenOf isFirstToo.mem)
    (le_antisymm firstLe secondLe)
  exact isFirst.unique isFirstToo sameToken

end

end Retains

variable {isEvm : Bool}

/-- Removing repeated tokens from a sorted list leaves, for every record, a
record of its token that is not greater. -/
private theorem destutter_covers (rest : List MetadataRecord) :
    ∀ (head : MetadataRecord),
      (head :: rest).Pairwise (fun left right =>
        finalKey isEvm left ≤ finalKey isEvm right) →
      ∀ record ∈ head :: rest,
        ∃ first ∈ rest.destutter' (fun left right : MetadataRecord =>
            left.tokenId ≠ right.tokenId) head,
          first.tokenId = record.tokenId ∧
            finalKey isEvm first ≤
              finalKey isEvm record := by
  induction rest with
  | nil =>
      intro head _ record member
      rw [mem_singleton] at member
      exact ⟨head, List.mem_destutter' _ _ _, by rw [member], by rw [member]⟩
  | cons next rest induction =>
      intro head ordered record member
      rcases pairwise_cons.mp ordered with ⟨headLe, tailOrdered⟩
      rcases mem_cons.mp member with isHead | inTail
      · exact ⟨head, List.mem_destutter' _ _ _, by rw [isHead], by rw [isHead]⟩
      · rw [destutter'_cons]
        split
        · next different =>
            rcases induction next tailOrdered record inTail with
              ⟨first, firstMember, both⟩
            exact ⟨first, mem_cons_of_mem _ firstMember, both⟩
        · next same =>
          rcases mem_cons.mp inTail with isNext | inRest
          · refine ⟨head, List.mem_destutter' _ _ _, ?_, ?_⟩
            · rw [isNext]
              exact not_not.mp same
            · exact headLe record inTail
          · have shorter : (head :: rest).Pairwise fun left right =>
                finalKey isEvm left ≤
                  finalKey isEvm right :=
              ordered.sublist (sublist_cons_self next rest |>.cons_cons head)
            exact induction head shorter record (mem_cons_of_mem _ inRest)

/-- Every record has a record of its token in the finalized list that comes no
later. -/
theorem finalizeAnchors_covers (isEvm : Bool) (member : record ∈ records) :
    ∃ first ∈ finalizeAnchors isEvm records, first.tokenId = record.tokenId ∧
      finalKey isEvm first ≤ finalKey isEvm record := by
  have inSorted : record ∈ sortAnchors isEvm records :=
    (perm_insertionSort _ records).mem_iff.mpr member
  have ordered := sortAnchors_ordered isEvm records
  change ∃ first ∈ (sortAnchors isEvm records).destutter _, _
  cases equal : sortAnchors isEvm records with
  | nil => simp [equal] at inSorted
  | cons head rest =>
      rw [equal] at inSorted ordered
      exact destutter_covers rest head ordered record inSorted

theorem finalizeAnchors_subset (isEvm : Bool) (member : record ∈ finalizeAnchors isEvm records) :
    record ∈ records :=
  (perm_insertionSort _ records).mem_iff.mp
    ((destutter_sublist _ _).subset member)

/-- Earlier source orders are smaller. -/
def SourceOrdered (records : List MetadataRecord) : Prop :=
  records.Pairwise fun left right => left.sourceOrder.compare right.sourceOrder = .lt

private theorem finalKey_lt (sameToken : left.tokenId = right.tokenId)
    (earlier : left.sourceOrder.compare right.sourceOrder = .lt) :
    finalKey isEvm left < finalKey isEvm right := by
  have sameText : cmp right.tokenId right.tokenId = .eq := by simp [cmp, cmpUsing]
  rw [← cmp_eq_lt_iff, ← anchorOrder_eq_cmp, anchorOrder, sameToken,
    compareTokenIds_eq_cmp, cmp_self_eq_eq, sameText]
  exact earlier

theorem Retains.finalized {tokens : Finset Text} (ordered : SourceOrdered records) :
    Retains isEvm none tokens records (finalizeAnchors isEvm records) where
  sorted := finalizeAnchors_sorted isEvm records
  bounded := by simp
  subset := fun _ member => finalizeAnchors_subset isEvm member
  exact_ := by
    -- The finalized record of a token and its first record bound each other.
    have same : ∀ first final, IsFirst records first →
        final ∈ finalizeAnchors isEvm records → final.tokenId = first.tokenId →
        finalKey isEvm final ≤ finalKey isEvm first →
        final = first := by
      intro first final isFirst finalMember sameToken finalLe
      have inside := finalizeAnchors_subset isEvm finalMember
      rcases List.find?_eq_some_iff_append.mp isFirst with
        ⟨_, before, after, equal, notBefore⟩
      rw [equal, mem_append, mem_cons] at inside
      rw [SourceOrdered, equal, pairwise_append, pairwise_cons] at ordered
      rcases inside with inBefore | isSame | inAfter
      · have := notBefore final inBefore
        simp [sameToken] at this
      · exact isSame
      · have less : finalKey isEvm first < finalKey isEvm final :=
          finalKey_lt sameToken.symm (ordered.2.1.1 final inAfter)
        exact absurd finalLe (not_le.mpr less)
    intro record _
    constructor
    · intro member
      rcases exists_isFirst (finalizeAnchors_subset isEvm member) with
        ⟨first, isFirst, sameToken⟩
      rcases finalizeAnchors_covers isEvm isFirst.mem with
        ⟨final, finalMember, finalToken, finalLe⟩
      have isFinal := same first final isFirst finalMember finalToken finalLe
      have distinct := (finalizeAnchors_sorted isEvm records).distinct
      have equal : record = final := inj_on_of_nodup_map distinct member finalMember
        (sameToken.symm.trans finalToken.symm)
      rw [equal, isFinal]
      exact isFirst
    · intro isFirst
      rcases finalizeAnchors_covers isEvm isFirst.mem with
        ⟨final, finalMember, finalToken, finalLe⟩
      rw [← same record final isFirst finalMember finalToken finalLe]
      exact finalMember

end NftData.Dedup.EntityStore
