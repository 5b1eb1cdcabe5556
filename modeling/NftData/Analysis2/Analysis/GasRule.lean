import NftData.Analysis2.Analysis.GasTransactions
import NftData.Analysis2.Analysis.Economics

namespace NftData.Analysis2

/-! # The gas rule

A transaction whose gas an operator paid belongs to the highest stage of its events, with the highest
fee that was observed. The kinds of value flows also speak about transactions whose gas was seen in
NFT events. -/

open List
open GasStage (ofKind)

/-- What the rule reads: paid events, transactions of NFT events and kinds of flows, all under
normalized hashes. -/
structure GasView where
  sources : List GasSource
  native : List Text
  kinds : List (Text × GasStage)

namespace GasView

def transactions (view : GasView) : List Text := (view.sources.map GasSource.txHash).dedup

def stages (view : GasView) (transaction : Text) : List GasStage :=
  (sourcesAt transaction view.sources).map GasSource.stage ++
    if transaction ∈ view.native then
      (view.kinds.filter fun kind => decide (kind.1 = transaction)).map Prod.snd
    else []

def stage (view : GasView) (transaction : Text) : GasStage :=
  highestStage (view.stages transaction)

def gas (view : GasView) (transaction : Text) : ℚ :=
  highestGas ((sourcesAt transaction view.sources).map GasSource.gas)

def stageTotal (view : GasView) (stage : GasStage) : ℚ :=
  ((view.transactions.filter fun transaction => decide (view.stage transaction = stage)).map
    view.gas).sum

/-- The order of the events does not matter. -/
structure Same (first second : GasView) : Prop where
  sources : first.sources.Perm second.sources
  native : first.native.Perm second.native
  kinds : first.kinds.Perm second.kinds

variable {second first : GasView}

theorem Same.stage (same : Same first second) :
    first.stage = second.stage := by
  funext transaction
  refine foldl_max_perm (List.Perm.append ((same.sources.filter _).map _) ?_)
    GasStage.setup
  by_cases member : transaction ∈ first.native
  · rw [if_pos member, if_pos (same.native.mem_iff.mp member)]
    exact (same.kinds.filter _).map _
  · rw [if_neg member, if_neg fun other => member (same.native.mem_iff.mpr other)]

theorem Same.gas (same : Same first second) : first.gas = second.gas := by
  funext transaction
  exact foldl_max_perm ((same.sources.filter _).map _) 0

theorem Same.stageTotal (same : Same first second) (stage : GasStage) :
    first.stageTotal stage = second.stageTotal stage := by
  rw [GasView.stageTotal, GasView.stageTotal, same.stage, same.gas]
  exact (((same.sources.map GasSource.txHash).dedup.filter _).map second.gas).sum_eq

end GasView

section
variable (evidence : CandidateEvidence) (roles : RoleMap)

def normalizedTx (txHash : Text) : Text := normalizeChainTransaction evidence.chain txHash

def gasView : GasView where
  sources := (paidSources evidence roles).map fun source =>
    { source with txHash := normalizedTx evidence source.txHash }
  native := (gasSources evidence roles).map fun source => normalizedTx evidence source.txHash
  kinds := (usableFlows evidence).map fun edge =>
    (normalizedTx evidence edge.txHash, ofKind edge.kind)

def IsNative (txHash : Text) : Prop :=
  ∃ source ∈ gasSources evidence roles, source.txHash = txHash

/-- No funding edge of the transaction is among these edges. -/
def NoFunding (txHash : Text) (flows : List ValueFlowEdge) : Prop :=
  ∀ edge ∈ flows, edge.txHash = txHash → edge.kind ≠ .funding

/-- An event of the stage counts for the transaction, and no later funding edge strikes it. The NFT
events come before the edges. -/
def Stands (txHash : Text) (flows : List ValueFlowEdge) (stage : GasStage) : Prop :=
  (∃ source ∈ gasSources evidence roles,
      source.txHash = txHash ∧ source.stage = stage ∧ NoFunding txHash flows) ∨
    ∃ earlier edge later, flows = earlier ++ edge :: later ∧ edge.txHash = txHash ∧
      ofKind edge.kind = stage ∧
        ((paidFlow evidence roles edge).isSome = true ∨
          stage = .exit ∧ IsNative evidence roles txHash) ∧
        (IsNative evidence roles txHash → NoFunding txHash (edge :: later))

/-- Operator-paid transactions are spelled in one way, and the highest stage of each stands. -/
structure AssignedByRule : Prop where
  single : ∀ first ∈ paidSources evidence roles, ∀ second ∈ paidSources evidence roles,
    normalizedTx evidence first.txHash = normalizedTx evidence second.txHash →
      first.txHash = second.txHash
  stands : ∀ source ∈ paidSources evidence roles,
    let stage := (gasView evidence roles).stage (normalizedTx evidence source.txHash)
    stage = .setup ∨ Stands evidence roles source.txHash (usableFlows evidence) stage

variable {evidence roles} {txHash : Text} {stage : GasStage}

theorem isNative_iff : IsNative evidence roles txHash ↔
    sourcesAt txHash (gasSources evidence roles) ≠ [] := by
  rw [IsNative, sourcesAt, Ne, filter_eq_nil_iff]
  simp

variable {flows : List ValueFlowEdge} {edge : ValueFlowEdge}

theorem noFunding_append :
    NoFunding txHash (flows ++ [edge]) ↔
      NoFunding txHash flows ∧ (edge.txHash = txHash → edge.kind ≠ .funding) := by
  simp only [NoFunding, mem_append, mem_singleton]
  constructor
  · intro none
    exact ⟨fun other member => none other (Or.inl member), none edge (Or.inr rfl)⟩
  · intro none other member
    rcases member with inFlows | rfl
    · exact none.1 other inFlows
    · exact none.2

theorem stands_append :
    Stands evidence roles txHash (flows ++ [edge]) stage ↔
      (edge.txHash = txHash ∧ ofKind edge.kind = stage ∧
        ((paidFlow evidence roles edge).isSome = true ∨
          stage = .exit ∧ IsNative evidence roles txHash) ∧
        (IsNative evidence roles txHash → edge.kind ≠ .funding)) ∨
      (Stands evidence roles txHash flows stage ∧
        (IsNative evidence roles txHash → edge.txHash = txHash → edge.kind ≠ .funding)) := by
  constructor
  · intro stands
    rcases stands with ⟨source, member, atTx, isStage, none⟩ |
      ⟨earlier, counted, later, split, atTx, isStage, counts, none⟩
    · rw [noFunding_append] at none
      exact Or.inr ⟨Or.inl ⟨source, member, atTx, isStage, none.1⟩, fun _ => none.2⟩
    · rcases eq_nil_or_concat later with isLast | ⟨between, last, isLater⟩
      · subst isLast
        obtain ⟨-, same⟩ := append_inj' split rfl
        cases same
        exact Or.inl ⟨atTx, isStage, counts, fun native => none native edge mem_cons_self atTx⟩
      · subst isLater
        rw [concat_eq_append, ← cons_append, ← List.append_assoc] at split
        obtain ⟨front, same⟩ := append_inj' split rfl
        cases same
        rw [concat_eq_append, ← cons_append, noFunding_append] at none
        exact Or.inr ⟨Or.inr ⟨earlier, counted, between, front, atTx, isStage, counts,
          fun native => (none native).1⟩, fun native => (none native).2⟩
  · intro stands
    rcases stands with ⟨atTx, isStage, counts, none⟩ | ⟨stands, none⟩
    · refine Or.inr ⟨flows, edge, [], rfl, atTx, isStage, counts, fun native other member _ => ?_⟩
      rw [mem_singleton.mp member]
      exact none native
    · rcases stands with ⟨source, member, atTx, isStage, noneBefore⟩ |
        ⟨earlier, counted, later, split, atTx, isStage, counts, noneBefore⟩
      · exact Or.inl ⟨source, member, atTx, isStage,
          noFunding_append.mpr ⟨noneBefore, none ⟨source, member, atTx⟩⟩⟩
      · refine Or.inr ⟨earlier, counted, later ++ [edge], ?_, atTx, isStage, counts,
          fun native => ?_⟩
        · rw [split, List.append_assoc, cons_append]
        · rw [← cons_append, noFunding_append]
          exact ⟨noneBefore native, none native⟩

theorem mem_standingStep {stood : List GasStage} :
    stage ∈ standingStep evidence roles txHash stood edge ↔
      (edge.txHash = txHash ∧ ofKind edge.kind = stage ∧
        ((paidFlow evidence roles edge).isSome = true ∨
          stage = .exit ∧ IsNative evidence roles txHash) ∧
        (IsNative evidence roles txHash → edge.kind ≠ .funding)) ∨
      (stage ∈ stood ∧
        (IsNative evidence roles txHash → edge.txHash = txHash → edge.kind ≠ .funding)) := by
  rw [standingStep, isNative_iff]
  by_cases atTx : edge.txHash = txHash
  · by_cases native : sourcesAt txHash (gasSources evidence roles) = []
    · cases (paidFlow evidence roles edge).isSome <;> simp [atTx, native]
      grind
    · cases edge.kind <;> cases (paidFlow evidence roles edge).isSome <;>
        simp [atTx, native, ofKind]
      all_goals grind
  · simp [atTx]

theorem mem_standing :
    stage ∈ standing evidence roles txHash flows ↔
      Stands evidence roles txHash flows stage := by
  induction flows using List.reverseRecOn with
  | nil => simp [standing, Stands, NoFunding, sourcesAt, and_assoc]
  | append_singleton flows edge induction =>
      rw [standing_append, stands_append, mem_standingStep, induction]

end

end NftData.Analysis2
