import NftData.Analysis2.Analysis.GasRule
import NftData.Foundation.Accumulation

namespace NftData.Analysis2

/-! # Attribution of gas

The stage totals of the economics are those of the rule exactly when every transaction is spelled in
one way and its highest stage stands. -/

open List

variable {source : GasSource}

section
variable (evidence : CandidateEvidence) (roles : RoleMap)

def finalStage (txHash : Text) : GasStage :=
  highestStage (standing evidence roles txHash (usableFlows evidence))

def finalGas (txHash : Text) : ℚ :=
  highestGas ((sourcesAt txHash (paidSources evidence roles)).map GasSource.gas)

theorem lookup_gasLedger (txHash : Text) :
    (gasLedger evidence roles).byTx.lookup txHash =
      if sourcesAt txHash (paidSources evidence roles) = [] then none
      else some (finalStage evidence roles txHash, finalGas evidence roles txHash) := by
  rw [gasLedger_eq, (lookup_addFlows evidence roles (usableFlows evidence) txHash).1, gasEntry,
    feesAt, ← paidSources]
  simp only [map_eq_nil_iff]
  rfl

variable {evidence roles} {txHash : Text}

theorem sourcesAt_ne_nil {sources : List GasSource} :
    sourcesAt txHash sources ≠ [] ↔ ∃ source ∈ sources, source.txHash = txHash := by
  rw [sourcesAt, Ne, filter_eq_nil_iff]
  simp

theorem mem_keys_gasLedger : txHash ∈ (gasLedger evidence roles).byTx.keys ↔
    ∃ source ∈ paidSources evidence roles, source.txHash = txHash := by
  rw [← AList.mem_keys, ← AList.lookup_isSome, lookup_gasLedger, ← sourcesAt_ne_nil]
  split <;> simp_all

theorem mem_entries_gasLedger {entry : (_ : Text) × GasStage × ℚ} :
    entry ∈ (gasLedger evidence roles).byTx.entries ↔
      (∃ source ∈ paidSources evidence roles, source.txHash = entry.1) ∧
        entry.2 = (finalStage evidence roles entry.1, finalGas evidence roles entry.1) := by
  rw [← AList.mem_lookup_iff, Option.mem_def, lookup_gasLedger, ← sourcesAt_ne_nil]
  split
  · rename_i none
    simp [none]
  · rename_i found
    simp [found, eq_comm]

theorem gas_le_finalGas (member : source ∈ paidSources evidence roles) :
    source.gas ≤ finalGas evidence roles source.txHash :=
  le_foldl_max_of_mem (mem_map_of_mem
    (mem_filter.mpr ⟨member, decide_eq_true rfl⟩)) 0

theorem finalGas_pos (member : source ∈ paidSources evidence roles) :
    0 < finalGas evidence roles source.txHash :=
  (gas_pos_of_mem_paidSources member).trans_le (gas_le_finalGas member)

/-! ## The rule -/

theorem mem_view_sources :
    source ∈ (gasView evidence roles).sources ↔
      ∃ raw ∈ paidSources evidence roles,
        { raw with txHash := normalizedTx evidence raw.txHash } = source :=
  mem_map

theorem finalGas_le_rule (txHash : Text) :
    finalGas evidence roles txHash ≤
      (gasView evidence roles).gas (normalizedTx evidence txHash) := by
  rcases foldl_max_mem ((sourcesAt txHash (paidSources evidence roles)).map GasSource.gas) 0 with
    isZero | member
  · rw [finalGas, highestGas, isZero]
    exact le_foldl_max _ 0
  · obtain ⟨source, known, isGas⟩ := mem_map.mp member
    rw [sourcesAt, mem_filter, decide_eq_true_eq] at known
    have viewed : { source with txHash := normalizedTx evidence source.txHash } ∈
        sourcesAt (normalizedTx evidence txHash) (gasView evidence roles).sources := by
      rw [sourcesAt, mem_filter, decide_eq_true_eq]
      exact ⟨mem_view_sources.mpr ⟨source, known.1, rfl⟩, by rw [known.2]⟩
    have isMember : source.gas ∈ (sourcesAt (normalizedTx evidence txHash)
        (gasView evidence roles).sources).map GasSource.gas := mem_map.mpr ⟨_, viewed, rfl⟩
    rw [finalGas, highestGas, ← isGas]
    exact le_foldl_max_of_mem isMember 0

/-- The fee of the rule is the final fee of one of the spellings. -/
theorem exists_finalGas_eq (member : source ∈ paidSources evidence roles) :
    ∃ other ∈ paidSources evidence roles,
      normalizedTx evidence other.txHash = normalizedTx evidence source.txHash ∧
        (gasView evidence roles).gas (normalizedTx evidence source.txHash) =
          finalGas evidence roles other.txHash := by
  have below : finalGas evidence roles source.txHash ≤ _ := finalGas_le_rule source.txHash
  rcases foldl_max_mem ((sourcesAt (normalizedTx evidence source.txHash)
      (gasView evidence roles).sources).map GasSource.gas) 0 with isZero | found
  · have zero : (gasView evidence roles).gas (normalizedTx evidence source.txHash) = 0 := isZero
    exact absurd below (not_le.mpr (zero ▸ finalGas_pos member))
  · obtain ⟨viewed, known, isGas⟩ := mem_map.mp found
    rw [sourcesAt, mem_filter, decide_eq_true_eq] at known
    obtain ⟨other, otherMember, rfl⟩ := mem_view_sources.mp known.1
    refine ⟨other, otherMember, known.2, le_antisymm ?_ ?_⟩
    · have isRule : (gasView evidence roles).gas (normalizedTx evidence source.txHash) =
          other.gas := isGas.symm
      rw [isRule]
      exact gas_le_finalGas otherMember
    · rw [← known.2]
      exact finalGas_le_rule other.txHash

theorem mem_view_stages (member : source ∈ paidSources evidence roles) :
    source.stage ∈ (gasView evidence roles).stages (normalizedTx evidence source.txHash) := by
  have viewed : { source with txHash := normalizedTx evidence source.txHash } ∈
      sourcesAt (normalizedTx evidence source.txHash) (gasView evidence roles).sources := by
    rw [sourcesAt, mem_filter, decide_eq_true_eq]
    exact ⟨mem_view_sources.mpr ⟨source, member, rfl⟩, rfl⟩
  exact mem_append_left _ (mem_map.mpr ⟨_, viewed, rfl⟩)

/-- Every stage that stands is one of the rule's stages. -/
theorem mem_stages_of_stands {txHash : Text} {stage : GasStage}
    (stands : Stands evidence roles txHash (usableFlows evidence) stage) :
    stage ∈ (gasView evidence roles).stages (normalizedTx evidence txHash) := by
  rcases stands with ⟨source, member, rfl, rfl, -⟩ |
    ⟨earlier, edge, later, split, rfl, rfl, counts, -⟩
  · exact mem_view_stages (mem_append_left _ member)
  · have inFlows : edge ∈ usableFlows evidence := by
      rw [split]
      exact mem_append_right earlier mem_cons_self
    rcases counts with paid | ⟨-, source, member, same⟩
    · obtain ⟨gas, isPaid⟩ := Option.isSome_iff_exists.mp paid
      have isSource : (⟨edge.txHash, .ofKind edge.kind, gas⟩ : GasSource) ∈
          paidSources evidence roles :=
        mem_append_right _ (mem_filterMap.mpr
          ⟨edge, inFlows, by rw [flowSource, isPaid]; rfl⟩)
      exact mem_view_stages isSource
    · have native : normalizedTx evidence edge.txHash ∈ (gasView evidence roles).native :=
        mem_map.mpr ⟨source, member, by rw [same]⟩
      rw [GasView.stages, if_pos native]
      refine mem_append_right _ (mem_map.mpr
        ⟨(normalizedTx evidence edge.txHash, .ofKind edge.kind), ?_, rfl⟩)
      rw [mem_filter, decide_eq_true_eq]
      exact ⟨mem_map.mpr ⟨edge, inFlows, rfl⟩, rfl⟩

theorem finalStage_le_rule (txHash : Text) :
    finalStage evidence roles txHash ≤
      (gasView evidence roles).stage (normalizedTx evidence txHash) := by
  rcases highestStage_eq_or_mem (standing evidence roles txHash (usableFlows evidence)) with
    isSetup | member
  · rw [finalStage, isSetup]
    exact setup_le _
  · exact le_highestStage (mem_stages_of_stands (mem_standing.mp member))

theorem finalStage_eq_rule_iff (txHash : Text) :
    finalStage evidence roles txHash =
        (gasView evidence roles).stage (normalizedTx evidence txHash) ↔
      (gasView evidence roles).stage (normalizedTx evidence txHash) = .setup ∨
        Stands evidence roles txHash (usableFlows evidence)
          ((gasView evidence roles).stage (normalizedTx evidence txHash)) := by
  constructor
  · intro same
    rw [← same, ← mem_standing]
    exact highestStage_eq_or_mem _
  · intro stands
    refine le_antisymm (finalStage_le_rule txHash) ?_
    rcases stands with isSetup | stands
    · rw [isSetup]
      exact setup_le _
    · exact le_highestStage (mem_standing.mpr stands)

end

/-- A sum that weighs the stages, from the totals of the stages. -/
theorem sum_weighted {α : Type} (transactions : Finset α) (stage : α → GasStage) (gas : α → ℚ)
    (weight : GasStage → ℚ) :
    ∑ transaction ∈ transactions, weight (stage transaction) * gas transaction =
      weight .setup * (∑ transaction ∈ transactions,
        if stage transaction = .setup then gas transaction else 0) +
      weight .lure * (∑ transaction ∈ transactions,
        if stage transaction = .lure then gas transaction else 0) +
      weight .exit * (∑ transaction ∈ transactions,
        if stage transaction = .exit then gas transaction else 0) := by
  rw [Finset.mul_sum, Finset.mul_sum, Finset.mul_sum, ← Finset.sum_add_distrib,
    ← Finset.sum_add_distrib]
  refine Finset.sum_congr rfl fun transaction _ => ?_
  cases stage transaction <;> simp

theorem sum_map_filter {α : Type} (values : List α) (holds : α → Prop) [DecidablePred holds]
    (amount : α → ℚ) :
    ((values.filter fun value => decide (holds value)).map amount).sum =
      (values.map fun value => if holds value then amount value else 0).sum := by
  induction values with
  | nil => rfl
  | cons value rest induction =>
      by_cases isKept : holds value <;> simp [isKept, induction]

section
variable (evidence : CandidateEvidence) (roles : RoleMap)

def paidHashes : Finset Text := ((paidSources evidence roles).map GasSource.txHash).toFinset

variable {evidence roles} {txHash : Text}

theorem mem_paidHashes : txHash ∈ paidHashes evidence roles ↔
    ∃ source ∈ paidSources evidence roles, source.txHash = txHash := by
  rw [paidHashes, mem_toFinset, mem_map]

theorem stageTotal_gasLedger (stage : GasStage) :
    (gasLedger evidence roles).stageTotal stage =
      ∑ txHash ∈ paidHashes evidence roles,
        if finalStage evidence roles txHash = stage then finalGas evidence roles txHash else 0 := by
  have sameKeys : paidHashes evidence roles = (gasLedger evidence roles).byTx.keys.toFinset := by
    ext txHash
    rw [mem_paidHashes, mem_toFinset, mem_keys_gasLedger]
  rw [GasLedger.stageTotal, sum_map_filter, sameKeys,
    sum_toFinset _ (gasLedger evidence roles).byTx.keys_nodup, AList.keys, List.keys,
    map_map]
  refine congrArg List.sum (map_congr_left fun entry member => ?_)
  rw [(mem_entries_gasLedger.mp member).2]
  rfl

theorem stageTotal_gasView (stage : GasStage) :
    (gasView evidence roles).stageTotal stage =
      ∑ transaction ∈ (paidHashes evidence roles).image (normalizedTx evidence),
        if (gasView evidence roles).stage transaction = stage then
          (gasView evidence roles).gas transaction else 0 := by
  have same : (paidHashes evidence roles).image (normalizedTx evidence) =
      (gasView evidence roles).transactions.toFinset := by
    ext transaction
    simp [paidHashes, GasView.transactions, gasView]
  have nodup : (gasView evidence roles).transactions.Nodup := nodup_dedup _
  rw [GasView.stageTotal, sum_map_filter, same, sum_toFinset _ nodup]

theorem AssignedByRule.injOn (assigned : AssignedByRule evidence roles) :
    Set.InjOn (normalizedTx evidence) (paidHashes evidence roles) := by
  intro first firstMember second secondMember same
  obtain ⟨source, member, rfl⟩ := mem_paidHashes.mp firstMember
  obtain ⟨other, otherMember, rfl⟩ := mem_paidHashes.mp secondMember
  exact assigned.single source member other otherMember same

theorem finalGas_eq_rule (injective : Set.InjOn (normalizedTx evidence) (paidHashes evidence roles))
    (member : source ∈ paidSources evidence roles) :
    finalGas evidence roles source.txHash =
      (gasView evidence roles).gas (normalizedTx evidence source.txHash) := by
  obtain ⟨other, otherMember, same, isFinal⟩ := exists_finalGas_eq member
  rw [isFinal, injective (mem_paidHashes.mpr ⟨other, otherMember, rfl⟩)
    (mem_paidHashes.mpr ⟨source, member, rfl⟩) same]

def TotalsByRule (evidence : CandidateEvidence) (roles : RoleMap) : Prop :=
  ∀ stage, (gasLedger evidence roles).stageTotal stage = (gasView evidence roles).stageTotal stage

theorem TotalsByRule.weighted (totals : TotalsByRule evidence roles) (weight : GasStage → ℚ) :
    ∑ txHash ∈ paidHashes evidence roles,
        weight (finalStage evidence roles txHash) * finalGas evidence roles txHash =
      ∑ transaction ∈ (paidHashes evidence roles).image (normalizedTx evidence),
        weight ((gasView evidence roles).stage transaction) *
          (gasView evidence roles).gas transaction := by
  rw [sum_weighted, sum_weighted, ← stageTotal_gasLedger, ← stageTotal_gasLedger,
    ← stageTotal_gasLedger, totals, totals, totals, stageTotal_gasView, stageTotal_gasView,
    stageTotal_gasView]

theorem finalGas_nonneg (member : txHash ∈ paidHashes evidence roles) :
    0 ≤ finalGas evidence roles txHash := by
  obtain ⟨source, isSource, rfl⟩ := mem_paidHashes.mp member
  exact (finalGas_pos isSource).le

/-- The fee of a transaction is the final fee of one of its spellings. -/
theorem exists_spelling {transaction : Text}
    (member : transaction ∈ (paidHashes evidence roles).image (normalizedTx evidence)) :
    ∃ txHash ∈ (paidHashes evidence roles).filter
        (fun txHash => normalizedTx evidence txHash = transaction),
      (gasView evidence roles).gas transaction = finalGas evidence roles txHash := by
  obtain ⟨txHash, isPaid, rfl⟩ := Finset.mem_image.mp member
  obtain ⟨source, isSource, rfl⟩ := mem_paidHashes.mp isPaid
  obtain ⟨other, isOther, same, isFinal⟩ := exists_finalGas_eq isSource
  exact ⟨other.txHash, Finset.mem_filter.mpr ⟨mem_paidHashes.mpr ⟨other, isOther, rfl⟩, same⟩,
    isFinal⟩

/-- Two spellings of a transaction would count its gas twice. -/
theorem TotalsByRule.injOn (totals : TotalsByRule evidence roles) :
    Set.InjOn (normalizedTx evidence) (paidHashes evidence roles) := by
  have fiberNonneg (transaction : Text) : ∀ txHash ∈ (paidHashes evidence roles).filter
      (fun txHash => normalizedTx evidence txHash = transaction),
        0 ≤ finalGas evidence roles txHash :=
    fun txHash member => finalGas_nonneg (Finset.mem_of_mem_filter txHash member)
  have below : ∀ transaction ∈ (paidHashes evidence roles).image (normalizedTx evidence),
      (gasView evidence roles).gas transaction ≤
        ∑ txHash ∈ paidHashes evidence roles with normalizedTx evidence txHash = transaction,
          finalGas evidence roles txHash := by
    intro transaction member
    obtain ⟨txHash, inFiber, isFinal⟩ := exists_spelling member
    rw [isFinal]
    exact Finset.single_le_sum (fiberNonneg transaction) inFiber
  have sums := totals.weighted fun _ => 1
  simp only [one_mul] at sums
  rw [← Finset.sum_fiberwise_of_maps_to (fun txHash member =>
    Finset.mem_image_of_mem (normalizedTx evidence) member) (finalGas evidence roles)] at sums
  have each := (Finset.sum_eq_sum_iff_of_le below).mp sums.symm
  intro first firstMember second secondMember same
  by_contra different
  -- the fee of the rule is that of one spelling, the other one adds to the sum
  have isTransaction := Finset.mem_image_of_mem (normalizedTx evidence) firstMember
  obtain ⟨txHash, inFiber, isFinal⟩ := exists_spelling isTransaction
  obtain ⟨other, isOther, otherMember⟩ : ∃ other, other ≠ txHash ∧
      other ∈ (paidHashes evidence roles).filter
        (fun txHash => normalizedTx evidence txHash = normalizedTx evidence first) := by
    by_cases isFirst : first = txHash
    · exact ⟨second, fun equal => different (isFirst.trans equal.symm),
        Finset.mem_filter.mpr ⟨secondMember, same.symm⟩⟩
    · exact ⟨first, isFirst, Finset.mem_filter.mpr ⟨firstMember, rfl⟩⟩
  have both := Finset.add_le_sum (fiberNonneg (normalizedTx evidence first)) otherMember inFiber
    isOther
  rw [← each _ isTransaction, isFinal] at both
  obtain ⟨source, isSource, rfl⟩ := mem_paidHashes.mp (Finset.mem_of_mem_filter other otherMember)
  have positive := finalGas_pos isSource
  linarith

/-- The totals of the maps are those of the rule exactly when the rule's stages stand. -/
theorem totalsByRule_iff : TotalsByRule evidence roles ↔ AssignedByRule evidence roles := by
  constructor
  · intro totals
    have injective := totals.injOn
    have sums := totals.weighted fun stage => (stage.rank : ℚ)
    rw [Finset.sum_image injective] at sums
    have below : ∀ txHash ∈ paidHashes evidence roles,
        ((finalStage evidence roles txHash).rank : ℚ) * finalGas evidence roles txHash ≤
          (((gasView evidence roles).stage (normalizedTx evidence txHash)).rank : ℚ) *
            (gasView evidence roles).gas (normalizedTx evidence txHash) := by
      intro txHash member
      obtain ⟨source, isSource, rfl⟩ := mem_paidHashes.mp member
      rw [← finalGas_eq_rule injective isSource]
      exact mul_le_mul_of_nonneg_right (Nat.cast_le.mpr (finalStage_le_rule source.txHash))
        (finalGas_pos isSource).le
    have each := (Finset.sum_eq_sum_iff_of_le below).mp sums
    refine ⟨fun first firstMember second secondMember same =>
      injective (mem_paidHashes.mpr ⟨first, firstMember, rfl⟩)
        (mem_paidHashes.mpr ⟨second, secondMember, rfl⟩) same, fun source isSource => ?_⟩
    have equal := each source.txHash (mem_paidHashes.mpr ⟨source, isSource, rfl⟩)
    rw [← finalGas_eq_rule injective isSource] at equal
    have sameRank := Nat.cast_injective (mul_right_cancel₀ (finalGas_pos isSource).ne' equal)
    exact (finalStage_eq_rule_iff source.txHash).mp (GasStage.rank_injective sameRank)
  · intro assigned stage
    rw [stageTotal_gasLedger, stageTotal_gasView, Finset.sum_image assigned.injOn]
    refine Finset.sum_congr rfl fun txHash member => ?_
    obtain ⟨source, isSource, rfl⟩ := mem_paidHashes.mp member
    rw [← finalGas_eq_rule assigned.injOn isSource,
      (finalStage_eq_rule_iff source.txHash).mpr (assigned.stands source isSource)]

end

end NftData.Analysis2
