import NftData.Dedup.Uri.ImageHits

namespace NftData.Dedup

/-! # Tables of a compact group

With masks, the chains of a group get local indices, and the aggregates of a group are kept
in tables by these indices: a list for the chains and a square matrix for their pairs. -/

open List
open GroupScopeAggregate (ofChain)

structure CompactTables where
  intra : List GroupScopeAggregate
  cross : List GroupScopeAggregate
  matrix : List GroupScopeAggregate

namespace CompactTables

def empty (width : Nat) : CompactTables where
  intra := List.replicate width .default
  cross := List.replicate width .default
  matrix := List.replicate (width * width) .default

/-- `local_index` holds for each chain of the group its position. -/
def localIndex (chains : List Nat) (chain : Nat) : Nat := chains.idxOf chain

/-- Count a posting for its chain and for every other chain of the group. -/
def addPosting (chains : List Nat) (keep : ScopeFilters) (tables : CompactTables)
    (posting : UriPosting) : CompactTables :=
  let width := chains.length
  let primary := localIndex chains posting.chainId
  { intra := tables.intra.modify primary fun aggregate =>
      aggregate.addPosting posting.contractId (posting.nftIds.countP keep.intra)
    cross := tables.cross.modify primary fun aggregate =>
      aggregate.addPosting posting.contractId (posting.nftIds.countP keep.crossSummary)
    matrix := (List.range width).foldl
      (fun matrix secondary =>
        if secondary ≠ primary then
          matrix.modify (primary * width + secondary) fun aggregate =>
            aggregate.addPosting posting.contractId
              (posting.nftIds.countP (keep.matrix (chains.getD secondary 0)))
        else matrix)
      tables.matrix }

def ofMembers (members : List UriPosting) (keep : ScopeFilters) (chains : List Nat) :
    CompactTables :=
  members.foldl (addPosting chains keep) (empty chains.length)

def addIntra (tables : CompactTables) (chains : List Nat) (output : LocalUriAccumulator) :
    LocalUriAccumulator :=
  (List.range chains.length).foldl
    (fun output primary =>
      let aggregate := tables.intra.getD primary .default
      if 2 ≤ aggregate.postingCount then
        output.addImageGroup (chains.getD primary 0) aggregate .intraChain none
      else output)
    output

def addCross (tables : CompactTables) (chains : List Nat) (output : LocalUriAccumulator) :
    LocalUriAccumulator :=
  if 2 ≤ tables.cross.countP fun aggregate => aggregate.nftRows ≠ 0 then
    (List.range chains.length).foldl
      (fun output primary =>
        output.addImageGroup (chains.getD primary 0) (tables.cross.getD primary .default)
          .crossChainSummary none)
      output
  else output

def addMatrix (tables : CompactTables) (chains : List Nat) (output : LocalUriAccumulator) :
    LocalUriAccumulator :=
  let width := chains.length
  (List.range width).foldl
    (fun output primary =>
      (List.range width).foldl
        (fun output secondary =>
          if primary = secondary then output
          else
            let aggregate := tables.matrix.getD (primary * width + secondary) .default
            let reciprocal := tables.matrix.getD (secondary * width + primary) .default
            if aggregate.nftRows ≠ 0 ∧ reciprocal.nftRows ≠ 0 then
              output.addImageGroup (chains.getD primary 0) aggregate .chainMatrix
                (some (chains.getD secondary 0))
            else output)
        output)
    output

end CompactTables

/-- `accumulate_image_scope_hits_compact` with its tables. -/
def accumulateImageScopeHitsTables (members : List UriPosting) (keep : ScopeFilters)
    (output : LocalUriAccumulator) : LocalUriAccumulator :=
  let chains := setBits (members.foldl (fun mask posting => mask ||| 1 <<< posting.chainId) 0)
  match chains with
  | [chain] =>
      let intra := members.foldl
        (fun (aggregate : GroupScopeAggregate) posting =>
          aggregate.addPosting posting.contractId (posting.nftIds.countP keep.intra))
        .default
      if 2 ≤ intra.postingCount then
        output.addImageGroup chain intra .intraChain none
      else output
  | _ =>
      let tables := CompactTables.ofMembers members keep chains
      tables.addMatrix chains (tables.addCross chains (tables.addIntra chains output))

/-! ## What the tables hold -/

namespace CompactTables

theorem foldl_range_getD {α State : Type} (values : List α) (default : α)
    (step : State → α → State) (state : State) :
    (List.range values.length).foldl
        (fun state position => step state (values.getD position default)) state =
      values.foldl step state := by
  have same : (List.range values.length).map (fun position => values.getD position default) =
      values := by
    apply ext_getElem
    · simp
    · intro position inRange inside
      simp [getD_eq_getElem?_getD, List.getElem?_eq_getElem inside]
  conv_rhs => rw [← same, foldl_map]

/-- The tables hold the aggregates of the chains and of their pairs. -/
structure Holds (members : List UriPosting) (keep : ScopeFilters) (chains : List Nat)
    (tables : CompactTables) : Prop where
  intra : tables.intra =
    chains.map fun chain => ofChain members chain keep.intra
  cross : tables.cross =
    chains.map fun chain => ofChain members chain keep.crossSummary
  size : tables.matrix.length = chains.length * chains.length
  matrix : ∀ primary secondary : Nat, primary < chains.length → secondary < chains.length →
    primary ≠ secondary →
    tables.matrix.getD (primary * chains.length + secondary) .default =
      ofChain members (chains.getD primary 0)
        (keep.matrix (chains.getD secondary 0))

theorem ofChain_concat (members : List UriPosting) (posting : UriPosting) (chain : Nat)
    (keep : Nat → Bool) :
    ofChain (members ++ [posting]) chain keep =
      if posting.chainId = chain then
        (ofChain members chain keep).addPosting posting.contractId
          (posting.nftIds.countP keep)
      else ofChain members chain keep := by
  rw [ofChain, List.foldl_append]
  rfl

theorem modify_map {α : Type} {chains : List Nat} (nodup : chains.Nodup) {chain : Nat}
    (member : chain ∈ chains) (aggregate : Nat → α) (change : α → α) :
    (chains.map aggregate).modify (localIndex chains chain) change =
      chains.map fun other =>
        if chain = other then change (aggregate other) else aggregate other := by
  have inside : localIndex chains chain < chains.length := idxOf_lt_length_of_mem member
  apply ext_getElem
  · simp
  · intro position inModified inMap
    have here : position < chains.length := by simpa using inMap
    rw [getElem_modify, getElem_map, getElem_map]
    by_cases same : localIndex chains chain = position
    · have isChain : chains[position] = chain := by
        subst same
        exact getElem_idxOf inside
      rw [if_pos same, if_pos isChain.symm]
    · rw [if_neg same, if_neg]
      intro equal
      apply same
      rw [equal]
      exact nodup.idxOf_getElem position here

theorem place_injective {width primary secondary otherPrimary otherSecondary : Nat}
    (fits : secondary < width) (otherFits : otherSecondary < width)
    (equal : primary * width + secondary = otherPrimary * width + otherSecondary) :
    primary = otherPrimary ∧ secondary = otherSecondary := by
  have positive : 0 < width := by omega
  have high := congrArg (· / width) equal
  have low := congrArg (· % width) equal
  simp only [Nat.mul_comm _ width, Nat.mul_add_div positive, Nat.div_eq_of_lt fits,
    Nat.div_eq_of_lt otherFits, Nat.add_zero] at high
  simp only [Nat.mul_comm _ width, Nat.mul_add_mod, Nat.mod_eq_of_lt fits,
    Nat.mod_eq_of_lt otherFits] at low
  exact ⟨high, low⟩

/-- Changing a row of the matrix off the diagonal. -/
theorem getElem?_foldl_row {α : Type} {width row : Nat} (change : Nat → α → α)
    (secondaries : List Nat) (nodup : secondaries.Nodup)
    (inside : ∀ secondary ∈ secondaries, secondary < width) (matrix : List α)
    (primary secondary : Nat) (fits : secondary < width) :
    (secondaries.foldl
        (fun matrix secondary =>
          if secondary ≠ row then matrix.modify (row * width + secondary) (change secondary)
          else matrix)
        matrix)[primary * width + secondary]? =
      if primary = row ∧ secondary ≠ row ∧ secondary ∈ secondaries then
        matrix[primary * width + secondary]?.map (change secondary)
      else matrix[primary * width + secondary]? := by
  induction secondaries generalizing matrix with
  | nil => simp
  | cons head tail induction =>
      have headFits := inside head mem_cons_self
      rw [nodup_cons] at nodup
      rw [foldl_cons, induction nodup.2 fun other member =>
        inside other (mem_cons_of_mem _ member)]
      by_cases diagonal : head = row
      · rw [if_neg (not_not_intro diagonal)]
        congr 1
        rw [mem_cons, eq_iff_iff]
        constructor
        · exact fun holds => ⟨holds.1, holds.2.1, .inr holds.2.2⟩
        · rintro ⟨isRow, offDiagonal, rfl | member⟩
          · exact absurd diagonal offDiagonal
          · exact ⟨isRow, offDiagonal, member⟩
      · rw [if_pos diagonal, List.getElem?_modify]
        by_cases isHead : primary = row ∧ secondary = head
        · rcases isHead with ⟨rfl, rfl⟩
          rw [if_neg fun holds => nodup.1 holds.2.2,
            if_pos ⟨rfl, diagonal, mem_cons_self⟩]
          simp only [if_true, Option.map_eq_map]
        · have apart : row * width + head ≠ primary * width + secondary := by
            intro equal
            have same := place_injective headFits fits equal
            exact isHead ⟨same.1.symm, same.2.symm⟩
          simp only [apart, if_false, id_map']
          congr 1
          rw [mem_cons, eq_iff_iff]
          constructor
          · exact fun holds => ⟨holds.1, holds.2.1, .inr holds.2.2⟩
          · rintro ⟨isRow, offDiagonal, same | member⟩
            · exact absurd ⟨isRow, same⟩ isHead
            · exact ⟨isRow, offDiagonal, member⟩

theorem length_foldl_row {α : Type} {width row : Nat} (change : Nat → α → α)
    (secondaries : List Nat) (matrix : List α) :
    (secondaries.foldl
        (fun matrix secondary =>
          if secondary ≠ row then matrix.modify (row * width + secondary) (change secondary)
          else matrix)
        matrix).length = matrix.length := by
  induction secondaries generalizing matrix with
  | nil => rfl
  | cons head tail induction =>
      rw [foldl_cons, induction]
      split
      · rw [length_modify]
      · rfl

section Tables

variable {members : List UriPosting} {keep : ScopeFilters} {chains : List Nat}
  {tables : CompactTables}

theorem holds_empty (keep : ScopeFilters) (chains : List Nat) :
    Holds [] keep chains (empty chains.length) where
  intra := by simp [empty, ofChain, Function.const_def]
  cross := by simp [empty, ofChain, Function.const_def]
  size := by simp [empty]
  matrix primary secondary primaryFits secondaryFits _ := by
    have place : primary * chains.length + secondary < chains.length * chains.length := by
      nlinarith
    simp [empty, ofChain, getD_eq_getElem?_getD, place]

theorem Holds.addPosting (holds : Holds members keep chains tables) (nodup : chains.Nodup)
    {posting : UriPosting} (present : posting.chainId ∈ chains) :
    Holds (members ++ [posting]) keep chains (tables.addPosting chains keep posting) where
  intra := by
    simp only [CompactTables.addPosting, holds.intra, modify_map nodup present, ofChain_concat]
  cross := by
    simp only [CompactTables.addPosting, holds.cross, modify_map nodup present, ofChain_concat]
  size := by
    rw [CompactTables.addPosting]
    exact (length_foldl_row _ _ _).trans holds.size
  matrix primary secondary primaryFits secondaryFits different := by
    have place : primary * chains.length + secondary < tables.matrix.length := by
      rw [holds.size]
      nlinarith
    have before := holds.matrix primary secondary primaryFits secondaryFits different
    rw [getD_eq_getElem?_getD, List.getElem?_eq_getElem place, Option.getD_some] at before
    have isPrimary : primary = localIndex chains posting.chainId ↔
        posting.chainId = chains.getD primary 0 := by
      rw [getD_eq_getElem?_getD, List.getElem?_eq_getElem primaryFits, Option.getD_some]
      constructor
      · rintro rfl
        exact (getElem_idxOf primaryFits).symm
      · intro equal
        rw [localIndex, equal, nodup.idxOf_getElem primary primaryFits]
    rw [CompactTables.addPosting, getD_eq_getElem?_getD,
      getElem?_foldl_row _ _ nodup_range (fun _ member => mem_range.mp member) _ _ _
        secondaryFits, List.getElem?_eq_getElem place, before, ofChain_concat]
    by_cases own : primary = localIndex chains posting.chainId
    · rw [if_pos ⟨own, own ▸ different.symm, mem_range.mpr secondaryFits⟩,
        if_pos (isPrimary.mp own), Option.map_some, Option.getD_some]
    · rw [if_neg fun row => own row.1, if_neg fun equal => own (isPrimary.mpr equal),
        Option.getD_some]

theorem holds_ofMembers (nodup : chains.Nodup)
    (present : ∀ posting ∈ members, posting.chainId ∈ chains) :
    Holds members keep chains (ofMembers members keep chains) := by
  have run : ∀ (later earlier : List UriPosting) (tables : CompactTables),
      (∀ posting ∈ later, posting.chainId ∈ chains) → Holds earlier keep chains tables →
      Holds (earlier ++ later) keep chains
        (later.foldl (CompactTables.addPosting chains keep) tables) := by
    intro later
    induction later with
    | nil =>
        intro earlier tables _ holds
        rw [append_nil]
        exact holds
    | cons posting rest induction =>
        intro earlier tables inChains holds
        have next := holds.addPosting nodup (inChains posting mem_cons_self)
        have all := induction (earlier ++ [posting]) _
          (fun other member => inChains other (mem_cons_of_mem _ member)) next
        rw [List.append_assoc] at all
        exact all
  exact run members [] _ present (holds_empty keep chains)

section

variable (holds : Holds members keep chains tables)
include holds

theorem Holds.addIntra_eq (output : LocalUriAccumulator) :
    tables.addIntra chains output = addIntraScopes members keep chains output := by
  rw [addIntraScopes, ← foldl_range_getD chains 0, addIntra, holds.intra]
  apply foldl_ext
  intro output primary inRange
  have fits := mem_range.mp inRange
  simp [getD_eq_getElem?_getD, fits]

theorem Holds.addCross_eq (output : LocalUriAccumulator) :
    tables.addCross chains output = addCrossScopes members keep chains output := by
  rw [addCrossScopes, ← foldl_range_getD chains 0, addCross, holds.cross, countP_map]
  congr 1
  apply foldl_ext
  intro output primary inRange
  have fits := mem_range.mp inRange
  simp [getD_eq_getElem?_getD, fits]

theorem Holds.addMatrix_eq (nodup : chains.Nodup) (output : LocalUriAccumulator) :
    tables.addMatrix chains output = addMatrixScopes members keep chains output := by
  rw [addMatrixScopes, ← foldl_range_getD chains 0, addMatrix]
  apply foldl_ext
  intro output primary inRange
  rw [← foldl_range_getD chains 0]
  apply foldl_ext
  intro output secondary secondaryIn
  have primaryFits := mem_range.mp inRange
  have secondaryFits := mem_range.mp secondaryIn
  by_cases same : primary = secondary
  · subst same
    rw [if_pos rfl, if_neg fun both => both.1 rfl]
  · have apart : chains.getD primary 0 ≠ chains.getD secondary 0 := by
      simp only [getD_eq_getElem?_getD, List.getElem?_eq_getElem primaryFits,
        List.getElem?_eq_getElem secondaryFits, Option.getD_some]
      exact fun equal => same ((nodup.getElem_inj_iff).mp equal)
    simp only [if_neg same, holds.matrix primary secondary primaryFits secondaryFits same,
      holds.matrix secondary primary secondaryFits primaryFits (Ne.symm same), ne_eq, apart,
      not_false_eq_true, true_and]

end

end Tables

end CompactTables

/-- The tables make no difference to the result. -/
theorem accumulateImageScopeHitsTables_eq {members : List UriPosting}
    (few : ∀ posting ∈ members, posting.chainId < compactChains) (keep : ScopeFilters)
    (output : LocalUriAccumulator) :
    accumulateImageScopeHitsTables members keep output =
      accumulateImageScopeHitsCompact members keep output := by
  have perm := setBits_perm few
  rw [accumulateImageScopeHitsTables, accumulateImageScopeHitsCompact]
  generalize setBits _ = chains at perm ⊢
  have nodup : chains.Nodup := perm.nodup_iff.mpr (nodup_dedup _)
  have present : ∀ posting ∈ members, posting.chainId ∈ chains := by
    intro posting member
    rw [perm.mem_iff]
    exact mem_dedup.mpr (mem_map.mpr ⟨posting, member, rfl⟩)
  have holds := @CompactTables.holds_ofMembers members keep _ nodup present
  cases chains with
  | nil =>
      simp only [holds.addIntra_eq, holds.addCross_eq, holds.addMatrix_eq nodup]
      rfl
  | cons chain rest =>
      cases rest with
      | nil => rfl
      | cons other rest =>
          simp only [holds.addIntra_eq, holds.addCross_eq, holds.addMatrix_eq nodup]
          rfl

end NftData.Dedup
