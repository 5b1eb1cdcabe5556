import NftData.Analysis2.Analysis.Roles

namespace NftData.Analysis2

open Option

/-! # Lifecycle

The first times of a candidate, and how long its first victim has held what it paid for. -/

structure LifecycleFacts where
  deploymentTimestamp : Option Int
  firstActivityTimestamp : Option Int
  firstMintTimestamp : Option Int
  firstTransferTimestamp : Option Int
  firstSaleTimestamp : Option Int
  firstVictimTimestamp : Option Int
  deploymentToFirstTransferSeconds : Option Int
  deploymentToFirstSaleSeconds : Option Int
  deploymentToFirstVictimSeconds : Option Int
  firstActivityToFirstVictimSeconds : Option Int
  firstVictimHoldingSeconds : Option Int
  deriving DecidableEq

def minimumTime : Option Int → Option Int → Option Int
  | some left, some right => some (min left right)
  | some value, none => some value
  | none, some value => some value
  | none, none => none

/-- `i64` subtraction, which wraps. -/
def wrappingSub (left right : Int) : Int := (left - right).bmod (2 ^ 64)

/-- `i64::checked_sub`. -/
def checkedSub (left right : Int) : Option Int :=
  if -2 ^ 63 ≤ left - right ∧ left - right < 2 ^ 63 then some (left - right) else none

def elapsed (start finish : Option Int) : Option Int :=
  match start, finish with
  | some start, some finish => (checkedSub finish start).filter fun duration => 0 ≤ duration
  | _, _ => none

/-! ## Acquisitions -/

def isPaidSale (sale : SaleEvent) : Bool :=
  decide (0 < sale.nativeAmount.getD 0) || decide (0 < sale.usdAmount.getD 0)

def hasMintPayment (transfer : TransferEvent) : Bool :=
  decide (0 < transfer.mintPaymentNative.getD 0) || decide (0 < transfer.mintPaymentUsd.getD 0)

section
variable (evidence : CandidateEvidence) (roles : RoleMap)

/-- `current_victim_tokens`: likely victims with the tokens they hold. -/
def currentVictimTokens : List (Text × Text) :=
  (evidence.events.holders.filter HolderRecord.isCurrent).filterMap fun holder =>
    let owner := normalizedIn evidence holder.owner
    if roles.lookup owner = some .likelyVictim then some (owner, holder.tokenId) else none

def saleAcquisition (sale : SaleEvent) : Text × Text :=
  (normalizedIn evidence sale.buyer, sale.tokenId)

def mintAcquisition (transfer : TransferEvent) : Text × Text :=
  (normalizedIn evidence transfer.toAddress, transfer.tokenId)

/-- The loops over transfers and sales find the first times. -/
structure FirstTimes where
  activity : Option Int := none
  mint : Option Int := none
  transfer : Option Int := none
  sale : Option Int := none
  victim : Option Int := none

def observeTransfer (times : FirstTimes) (transfer : TransferEvent) : FirstTimes :=
  let active := { times with activity := minimumTime times.activity transfer.timestamp }
  if transfer.isMint then
    let minted := { active with mint := minimumTime active.mint transfer.timestamp }
    if hasMintPayment transfer = true ∧
        mintAcquisition evidence transfer ∈ currentVictimTokens evidence roles then
      { minted with victim := minimumTime minted.victim transfer.timestamp }
    else
      minted
  else
    { active with transfer := minimumTime active.transfer transfer.timestamp }

def observeSale (times : FirstTimes) (sale : SaleEvent) : FirstTimes :=
  let active :=
    { times with
      activity := minimumTime times.activity sale.timestamp
      sale := minimumTime times.sale sale.timestamp }
  if isPaidSale sale = true ∧
      saleAcquisition evidence sale ∈ currentVictimTokens evidence roles then
    { active with victim := minimumTime active.victim sale.timestamp }
  else
    active

def firstTimes : FirstTimes :=
  evidence.events.sales.foldl (observeSale evidence roles)
    (evidence.events.transfers.foldl (observeTransfer evidence roles) {})

/-- The acquisition at the first victim's time. Sales are searched before mints. -/
def victimAcquisition (acquiredAt : Int) : Option (Text × Text) :=
  let sale := (evidence.events.sales.filter fun sale =>
      decide (sale.timestamp = some acquiredAt)).find? fun sale =>
    decide (saleAcquisition evidence sale ∈ currentVictimTokens evidence roles)
  let mint := (evidence.events.transfers.filter fun transfer =>
      transfer.isMint && decide (transfer.timestamp = some acquiredAt)).find? fun transfer =>
    hasMintPayment transfer &&
      decide (mintAcquisition evidence transfer ∈ currentVictimTokens evidence roles)
  (sale.map (saleAcquisition evidence)).or (mint.map (mintAcquisition evidence))

def disposals (acquiredAt : Int) (acquisition : Text × Text) : List Int :=
  (evidence.events.transfers.filter fun event =>
    decide (event.tokenId = acquisition.2) &&
      event.timestamp.any (fun time => decide (acquiredAt < time)) &&
        decide (normalizedIn evidence event.fromAddress = acquisition.1)).filterMap
          TransferEvent.timestamp ++
  (evidence.events.sales.filter fun sale =>
    decide (sale.tokenId = acquisition.2) &&
      sale.timestamp.any (fun time => decide (acquiredAt < time)) &&
        decide (normalizedIn evidence sale.seller = acquisition.1)).filterMap
          SaleEvent.timestamp

def stillHolds (acquisition : Text × Text) : Bool :=
  evidence.events.holders.any fun holder =>
    decide (holder.tokenId = acquisition.2) &&
      decide (normalizedIn evidence holder.owner = acquisition.1) &&
        decide (0 < holder.balance.getD 1)

def holdingSeconds (analysisTimestamp acquiredAt : Int) (acquisition : Text × Text) :
    Option Int :=
  let disposedAt := (disposals evidence acquiredAt acquisition).min?
  let untilDisposal := disposedAt.map fun disposed => wrappingSub disposed acquiredAt
  let untilAnalysis :=
    if stillHolds evidence acquisition then some (wrappingSub analysisTimestamp acquiredAt)
    else none
  (untilDisposal.or untilAnalysis).filter fun seconds => 0 ≤ seconds

/-- `build_lifecycle`. -/
def buildLifecycle (analysisTimestamp : Int) : LifecycleFacts :=
  let times := firstTimes evidence roles
  let deployment := evidence.events.deploymentTimestamp
  { deploymentTimestamp := deployment
    firstActivityTimestamp := times.activity
    firstMintTimestamp := times.mint
    firstTransferTimestamp := times.transfer
    firstSaleTimestamp := times.sale
    firstVictimTimestamp := times.victim
    deploymentToFirstTransferSeconds := elapsed deployment times.transfer
    deploymentToFirstSaleSeconds := elapsed deployment times.sale
    deploymentToFirstVictimSeconds := elapsed deployment times.victim
    firstActivityToFirstVictimSeconds := elapsed times.activity times.victim
    firstVictimHoldingSeconds := times.victim.bind fun acquiredAt =>
      (victimAcquisition evidence roles acquiredAt).bind
        (holdingSeconds evidence analysisTimestamp acquiredAt) }

def IsPaidAcquisition (acquisition : Text × Text) (time : Int) : Prop :=
  acquisition ∈ currentVictimTokens evidence roles ∧
    ((∃ sale ∈ evidence.events.sales, isPaidSale sale = true ∧
        saleAcquisition evidence sale = acquisition ∧ sale.timestamp = some time) ∨
      ∃ transfer ∈ evidence.events.transfers, transfer.isMint = true ∧
        hasMintPayment transfer = true ∧ mintAcquisition evidence transfer = acquisition ∧
          transfer.timestamp = some time)

def paidTimes : Set Int := {time | ∃ acquisition, IsPaidAcquisition evidence roles acquisition time}

def Disposes (acquisition : Text × Text) (time : Int) : Prop :=
  (∃ transfer ∈ evidence.events.transfers, transfer.tokenId = acquisition.2 ∧
      normalizedIn evidence transfer.fromAddress = acquisition.1 ∧
        transfer.timestamp = some time) ∨
    ∃ sale ∈ evidence.events.sales, sale.tokenId = acquisition.2 ∧
      normalizedIn evidence sale.seller = acquisition.1 ∧ sale.timestamp = some time

/-- How long the token was held: until its first later disposal, or until the analysis. -/
def HeldFor (analysisTimestamp time : Int) (acquisition : Text × Text) (seconds : Int) : Prop :=
  (∃ disposed, IsLeast {later | time < later ∧ Disposes evidence acquisition later} disposed ∧
      seconds = disposed - time) ∨
    ((∀ later, time < later → ¬ Disposes evidence acquisition later) ∧
      stillHolds evidence acquisition = true ∧ seconds = analysisTimestamp - time)

/-- The timing of the first victim is measured from a paid acquisition. -/
structure VictimTiming (analysisTimestamp : Int) (facts : LifecycleFacts) : Prop where
  first : ∀ time, facts.firstVictimTimestamp = some time ↔
    IsLeast (paidTimes evidence roles) time
  holding : ∀ seconds, facts.firstVictimHoldingSeconds = some seconds →
    ∃ time acquisition, facts.firstVictimTimestamp = some time ∧
      victimAcquisition evidence roles time = some acquisition ∧
        IsPaidAcquisition evidence roles acquisition time ∧
          HeldFor evidence analysisTimestamp time acquisition seconds

/-- The timestamps are of type `i64`. -/
structure TimesFit (analysisTimestamp : Int) : Prop where
  analysis : -2 ^ 63 ≤ analysisTimestamp ∧ analysisTimestamp < 2 ^ 63
  transfer : ∀ transfer ∈ evidence.events.transfers, ∀ time, transfer.timestamp = some time →
    -2 ^ 63 ≤ time ∧ time < 2 ^ 63
  sale : ∀ sale ∈ evidence.events.sales, ∀ time, sale.timestamp = some time →
    -2 ^ 63 ≤ time ∧ time < 2 ^ 63

/-- A holding time is reported: the token is disposed of within the range of `i64`, or it is not
disposed of and the analysis is not before the acquisition, as far as `i64` can tell. -/
def IsReported (analysisTimestamp time : Int) (acquisition : Text × Text) : Prop :=
  (∃ disposed, (disposals evidence time acquisition).min? = some disposed ∧
      disposed - time < 2 ^ 63) ∨
    (disposals evidence time acquisition = [] ∧ 0 ≤ wrappingSub analysisTimestamp time)

/-- Where a holding time is reported, it is that of a paid acquisition, and a token that is still
held was acquired before the analysis. -/
def MeasuredFromPaid (analysisTimestamp : Int) : Prop :=
  ∀ time, IsLeast (paidTimes evidence roles) time → ∀ acquisition,
    victimAcquisition evidence roles time = some acquisition →
      IsReported evidence analysisTimestamp time acquisition →
        IsPaidAcquisition evidence roles acquisition time ∧
          (disposals evidence time acquisition = [] → time ≤ analysisTimestamp)

end

/-- The least of some times, if there are any. -/
def LeastOf (times : Set Int) : Option Int → Prop
  | none => times = ∅
  | some time => IsLeast times time

variable {times : Set Int}

theorem LeastOf.eq_some_iff {found : Option Int} (least : LeastOf times found) (time : Int) :
    found = some time ↔ IsLeast times time := by
  cases found with
  | none =>
      have empty : times = ∅ := least
      simp [empty, IsLeast]
  | some known =>
      rw [Option.some.injEq]
      exact ⟨fun same => same ▸ least, fun other => IsLeast.unique least other⟩

theorem LeastOf.minimumTime {left right : Set Int} {first second : Option Int}
    (ofLeft : LeastOf left first) (ofRight : LeastOf right second) :
    LeastOf (left ∪ right) (minimumTime first second) := by
  cases first with
  | none =>
      have empty : left = ∅ := ofLeft
      rw [empty, Set.empty_union]
      cases second <;> exact ofRight
  | some leftTime =>
      cases second with
      | none =>
          have empty : right = ∅ := ofRight
          rw [empty, Set.union_empty]
          exact ofLeft
      | some rightTime => exact IsLeast.union ofLeft ofRight

theorem leastOf_single (time : Option Int) : LeastOf {known | time = some known} time := by
  cases time with
  | none => exact Set.eq_empty_of_forall_notMem fun known impossible => nomatch impossible
  | some time => exact ⟨rfl, fun known same => (Option.some.inj same).le⟩

theorem leastOf_foldl {State Event : Type} {part : State → Option Int}
    {step : State → Event → State} {counts : Event → Prop} [DecidablePred counts]
    {time : Event → Option Int} (steps : ∀ state event, part (step state event) =
      if counts event then minimumTime (part state) (time event) else part state)
    (events : List Event) {state : State} (known : LeastOf times (part state)) :
    LeastOf (times ∪ {found | ∃ event ∈ events, counts event ∧ time event = some found})
      (part (events.foldl step state)) := by
  induction events generalizing state times with
  | nil => simpa using known
  | cons event rest induction =>
      have next : LeastOf (times ∪ {found | counts event ∧ time event = some found})
          (part (step state event)) := by
        rw [steps]
        split
        · rename_i counted
          simpa [counted] using known.minimumTime (leastOf_single (time event))
        · rename_i ignored
          simpa [ignored] using known
      have merged : ({found | ∃ other ∈ event :: rest, counts other ∧ time other = some found} :
          Set Int) = {found | counts event ∧ time event = some found} ∪
            {found | ∃ other ∈ rest, counts other ∧ time other = some found} := by
        ext found
        simp
      rw [merged, ← Set.union_assoc]
      exact induction next

section
variable {evidence : CandidateEvidence} {roles : RoleMap}

theorem leastOf_firstTimes :
    LeastOf (paidTimes evidence roles) (firstTimes evidence roles).victim := by
  have transferSteps : ∀ (times : FirstTimes) (transfer : TransferEvent),
      (observeTransfer evidence roles times transfer).victim =
        if transfer.isMint = true ∧ hasMintPayment transfer = true ∧
            mintAcquisition evidence transfer ∈ currentVictimTokens evidence roles then
          minimumTime times.victim transfer.timestamp
        else times.victim := by
    intro times transfer
    rw [observeTransfer]
    cases transfer.isMint <;> simp [apply_ite FirstTimes.victim]
  have saleSteps : ∀ (times : FirstTimes) (sale : SaleEvent),
      (observeSale evidence roles times sale).victim =
        if isPaidSale sale = true ∧
            saleAcquisition evidence sale ∈ currentVictimTokens evidence roles then
          minimumTime times.victim sale.timestamp
        else times.victim := by
    intro times sale
    rw [observeSale, apply_ite FirstTimes.victim]
  have none : LeastOf ∅ ({} : FirstTimes).victim := rfl
  have found := leastOf_foldl saleSteps evidence.events.sales
    (leastOf_foldl transferSteps evidence.events.transfers none)
  rw [Set.empty_union] at found
  have same : paidTimes evidence roles =
      {time | ∃ transfer ∈ evidence.events.transfers, (transfer.isMint = true ∧
        hasMintPayment transfer = true ∧ mintAcquisition evidence transfer ∈
          currentVictimTokens evidence roles) ∧ transfer.timestamp = some time} ∪
      {time | ∃ sale ∈ evidence.events.sales, (isPaidSale sale = true ∧
        saleAcquisition evidence sale ∈ currentVictimTokens evidence roles) ∧
          sale.timestamp = some time} := by
    ext time
    constructor
    · intro paid
      rcases paid with ⟨acquisition, held, sold | minted⟩
      · rcases sold with ⟨sale, member, isPaid, rfl, atTime⟩
        exact Or.inr ⟨sale, member, ⟨isPaid, held⟩, atTime⟩
      · rcases minted with ⟨transfer, member, isMint, isPaid, rfl, atTime⟩
        exact Or.inl ⟨transfer, member, ⟨isMint, isPaid, held⟩, atTime⟩
    · intro observed
      rcases observed with minted | sold
      · rcases minted with ⟨transfer, member, ⟨isMint, isPaid, held⟩, atTime⟩
        exact ⟨mintAcquisition evidence transfer, held,
          Or.inr ⟨transfer, member, isMint, isPaid, rfl, atTime⟩⟩
      · rcases sold with ⟨sale, member, ⟨isPaid, held⟩, atTime⟩
        exact ⟨saleAcquisition evidence sale, held,
          Or.inl ⟨sale, member, isPaid, rfl, atTime⟩⟩
  rw [same, firstTimes]
  exact found

/-! ## Holding times -/

variable {acquisition : Text × Text} {time : Int}

theorem mem_disposals {later : Int} :
    later ∈ disposals evidence time acquisition ↔
      time < later ∧ Disposes evidence acquisition later := by
  simp only [disposals, List.mem_append, List.mem_filterMap, List.mem_filter, Bool.and_eq_true,
    decide_eq_true_eq]
  constructor
  · intro disposed
    rcases disposed with ⟨event, ⟨member, ⟨sameToken, after⟩, sender⟩, atTime⟩ |
      ⟨sale, ⟨member, ⟨sameToken, after⟩, seller⟩, atTime⟩
    · rw [atTime] at after
      exact ⟨by simpa using after, Or.inl ⟨event, member, sameToken, sender, atTime⟩⟩
    · rw [atTime] at after
      exact ⟨by simpa using after, Or.inr ⟨sale, member, sameToken, seller, atTime⟩⟩
  · intro disposed
    rcases disposed with ⟨after, ⟨event, member, sameToken, sender, atTime⟩ |
      ⟨sale, member, sameToken, seller, atTime⟩⟩
    · exact Or.inl ⟨event, ⟨member, ⟨sameToken, by simpa [atTime] using after⟩, sender⟩, atTime⟩
    · exact Or.inr ⟨sale, ⟨member, ⟨sameToken, by simpa [atTime] using after⟩, seller⟩, atTime⟩

variable {disposed : Int}

theorem isLeast_of_min? (found : (disposals evidence time acquisition).min? = some disposed) :
    IsLeast {later | time < later ∧ Disposes evidence acquisition later} disposed := by
  rw [List.min?_eq_some_iff] at found
  exact ⟨mem_disposals.mp found.1, fun later after => found.2 later (mem_disposals.mpr after)⟩

variable {right left : Int}

theorem wrappingSub_eq (atLeast : -2 ^ 63 ≤ left - right) (below : left - right < 2 ^ 63) :
    wrappingSub left right = left - right := by
  rw [wrappingSub]
  exact Int.bmod_eq_of_le (by norm_num; omega) (by norm_num; omega)

theorem wrappingSub_neg (atLeast : 2 ^ 63 ≤ left - right) (below : left - right < 2 ^ 64) :
    wrappingSub left right < 0 := by
  rw [wrappingSub, Int.bmod_def]
  norm_num at *
  split <;> omega

theorem stillHolds_of_mem (held : acquisition ∈ currentVictimTokens evidence roles) :
    stillHolds evidence acquisition = true := by
  rw [currentVictimTokens, List.mem_filterMap] at held
  rcases held with ⟨holder, member, isHeld⟩
  rw [List.mem_filter] at member
  have current := member.2
  simp only [ite_none_right_eq_some, Option.some.injEq] at isHeld
  rw [stillHolds, List.any_eq_true]
  refine ⟨holder, member.1, ?_⟩
  rw [HolderRecord.isCurrent] at current
  rw [← isHeld.2]
  cases balance : holder.balance <;> simp_all

theorem mem_of_victimAcquisition (found : victimAcquisition evidence roles time = some acquisition)
    :
    acquisition ∈ currentVictimTokens evidence roles := by
  rw [victimAcquisition, or_eq_some_iff] at found
  rcases found with sold | ⟨-, minted⟩
  · obtain ⟨sale, isFirst, rfl⟩ := map_eq_some_iff.mp sold
    have known := List.find?_some isFirst
    exact of_decide_eq_true known
  · obtain ⟨transfer, isFirst, rfl⟩ := map_eq_some_iff.mp minted
    have known := List.find?_some isFirst
    rw [Bool.and_eq_true] at known
    exact of_decide_eq_true known.2

variable {analysisTimestamp : Int}

theorem TimesFit.paid (fits : TimesFit evidence analysisTimestamp)
    (isPaid : time ∈ paidTimes evidence roles) : -2 ^ 63 ≤ time ∧ time < 2 ^ 63 := by
  rcases isPaid with ⟨acquisition, -, sold | minted⟩
  · rcases sold with ⟨sale, member, -, -, atTime⟩
    exact fits.sale sale member time atTime
  · rcases minted with ⟨transfer, member, -, -, -, atTime⟩
    exact fits.transfer transfer member time atTime

theorem TimesFit.disposes (fits : TimesFit evidence analysisTimestamp)
    (disposed : Disposes evidence acquisition time) :
    -2 ^ 63 ≤ time ∧ time < 2 ^ 63 := by
  rcases disposed with ⟨transfer, member, -, -, atTime⟩ | ⟨sale, member, -, -, atTime⟩
  · exact fits.transfer transfer member time atTime
  · exact fits.sale sale member time atTime

section
variable {analysisTimestamp time : Int} {acquisition : Text × Text}
  (fits : TimesFit evidence analysisTimestamp)
  (inRange : -2 ^ 63 ≤ time ∧ time < 2 ^ 63)
  (held : acquisition ∈ currentVictimTokens evidence roles)
include fits inRange held

omit held in
theorem holdingSeconds_of_disposed
    (found : (disposals evidence time acquisition).min? = some disposed) :
    holdingSeconds evidence analysisTimestamp time acquisition =
      if disposed - time < 2 ^ 63 then some (disposed - time) else none := by
  obtain ⟨later, disposes⟩ := (isLeast_of_min? found).1
  have disposedFits := fits.disposes disposes
  rw [holdingSeconds, found, map_some, some_or]
  split
  · rename_i small
    rw [wrappingSub_eq (by omega) small, filter_some, if_pos]
    exact decide_eq_true (by omega)
  · rename_i large
    have negative := wrappingSub_neg (not_lt.mp large) (by omega)
    rw [filter_some, if_neg]
    rw [decide_eq_true_eq]
    omega

omit fits inRange in
theorem holdingSeconds_of_kept (kept : disposals evidence time acquisition = []) :
    holdingSeconds evidence analysisTimestamp time acquisition =
      if 0 ≤ wrappingSub analysisTimestamp time then some (wrappingSub analysisTimestamp time)
      else none := by
  rw [holdingSeconds, kept, List.min?_nil, map_none, none_or,
    if_pos (stillHolds_of_mem held), filter_some]
  simp only [decide_eq_true_eq]

theorem isReported_iff :
    IsReported evidence analysisTimestamp time acquisition ↔
      ∃ seconds, holdingSeconds evidence analysisTimestamp time acquisition = some seconds := by
  cases found : (disposals evidence time acquisition).min? with
  | none =>
      have kept := List.min?_eq_none_iff.mp found
      rw [IsReported, found, holdingSeconds_of_kept held kept]
      simp [kept]
  | some disposed =>
      have notKept : disposals evidence time acquisition ≠ [] := fun kept => by
        rw [kept] at found
        cases found
      rw [IsReported, found, holdingSeconds_of_disposed fits inRange found]
      simp [notKept]

variable {seconds : Int}

theorem heldFor_of_holdingSeconds
    (found : holdingSeconds evidence analysisTimestamp time acquisition = some seconds)
    (kept : disposals evidence time acquisition = [] → time ≤ analysisTimestamp) :
    HeldFor evidence analysisTimestamp time acquisition seconds := by
  cases isFirst : (disposals evidence time acquisition).min? with
  | none =>
      have none := List.min?_eq_none_iff.mp isFirst
      have before := kept none
      have analysisFits := fits.analysis
      rw [holdingSeconds_of_kept held none] at found
      split at found
      · rename_i nonnegative
        cases found
        refine Or.inr ⟨fun later after disposed => ?_, stillHolds_of_mem held, ?_⟩
        · have member := mem_disposals.mpr ⟨after, disposed⟩
          rw [none] at member
          cases member
        · refine wrappingSub_eq (by omega) ?_
          by_contra large
          have negative := wrappingSub_neg (not_lt.mp large) (by omega)
          omega
      · cases found
  | some disposed =>
      rw [holdingSeconds_of_disposed fits inRange isFirst] at found
      split at found
      · cases found
        exact Or.inl ⟨disposed, isLeast_of_min? isFirst, rfl⟩
      · cases found

omit fits inRange in
theorem le_analysis_of_heldFor
    (found : holdingSeconds evidence analysisTimestamp time acquisition = some seconds)
    (isHeld : HeldFor evidence analysisTimestamp time acquisition seconds)
    (kept : disposals evidence time acquisition = []) : time ≤ analysisTimestamp := by
  rw [holdingSeconds_of_kept held kept] at found
  split at found
  · cases found
    rcases isHeld with ⟨disposed, isLeast, -⟩ | ⟨-, -, same⟩
    · have member := mem_disposals.mpr isLeast.1
      rw [kept] at member
      cases member
    · omega
  · cases found

end

end

/-- The timing of the first victim is right exactly when the acquisition that the search finds at
its time is a paid one, or no holding time is reported. -/
theorem buildLifecycle_victimTiming_iff (evidence : CandidateEvidence) (roles : RoleMap)
    (analysisTimestamp : Int) (fits : TimesFit evidence analysisTimestamp) :
    VictimTiming evidence roles analysisTimestamp
        (buildLifecycle evidence roles analysisTimestamp) ↔
      MeasuredFromPaid evidence roles analysisTimestamp := by
  have first (time : Int) : (buildLifecycle evidence roles analysisTimestamp).firstVictimTimestamp =
      some time ↔ IsLeast (paidTimes evidence roles) time :=
    leastOf_firstTimes.eq_some_iff time
  constructor
  · intro timing time isLeast acquisition found reported
    have inRange := fits.paid isLeast.1
    have held := mem_of_victimAcquisition found
    obtain ⟨seconds, isReported⟩ := (isReported_iff fits inRange held).mp reported
    have isFirst := (first time).mpr isLeast
    have measured : (buildLifecycle evidence roles analysisTimestamp).firstVictimHoldingSeconds =
        some seconds := by
      have victim : (firstTimes evidence roles).victim = some time := isFirst
      rw [buildLifecycle, victim, bind_some, found, bind_some, isReported]
    obtain ⟨otherTime, other, isOther, otherFound, paid, isHeld⟩ := timing.holding seconds measured
    rw [isFirst, Option.some.injEq] at isOther
    subst isOther
    rw [found, Option.some.injEq] at otherFound
    subst otherFound
    exact ⟨paid, le_analysis_of_heldFor held isReported isHeld⟩
  · intro fromPaid
    refine ⟨first, fun seconds measured => ?_⟩
    obtain ⟨time, isFirst, chosen⟩ := bind_eq_some_iff.mp measured
    obtain ⟨acquisition, found, isReported⟩ := bind_eq_some_iff.mp chosen
    have isLeast := (first time).mp isFirst
    have inRange := fits.paid isLeast.1
    have held := mem_of_victimAcquisition found
    obtain ⟨paid, kept⟩ := fromPaid time isLeast acquisition found
      ((isReported_iff fits inRange held).mpr ⟨seconds, isReported⟩)
    exact ⟨time, acquisition, isFirst, found, paid,
      heldFor_of_holdingSeconds fits inRange held isReported kept⟩

/-! A victim paid for token 1 and gave it away fifty seconds later; another one received token 2 for
free in a sale of the same second. -/

def firstVictim : Text := "0xfirst".toList

def secondVictim : Text := "0xsecond".toList

def saleAt (tokenId : String) (buyer : Text) (price : Option ℚ) : SaleEvent where
  txHash := "0x1".toList
  tokenId := tokenId.toList
  seller := "0xseller".toList
  buyer := buyer
  timestamp := some 100
  blockNumber := none
  marketplace := none
  nativeAmount := price
  usdAmount := none
  currencySymbol := none
  currencyAddress := none
  sellerProceedsNative := none
  sellerProceedsUsd := none
  marketplaceFeeNative := none
  marketplaceFeeUsd := none
  royaltyFeeNative := none
  royaltyFeeUsd := none
  royaltyRecipient := none
  gasNative := none
  feePayer := none

def givenAway : TransferEvent where
  txHash := "0x2".toList
  tokenId := "1".toList
  fromAddress := firstVictim
  toAddress := "0xother".toList
  timestamp := some 150
  blockNumber := none
  isMint := false
  gasNative := none
  feePayer := none
  mintPaymentNative := none
  mintPaymentUsd := none
  mintPaymentReceiver := none

def freeSaleEvidence : CandidateEvidence :=
  { CandidateEvidence.empty 0 "ethereum".toList "0xnft".toList with
    events :=
      { CandidateEvents.empty with
        sales := [saleAt "2" secondVictim none, saleAt "1" firstVictim (some 1)]
        transfers := [givenAway]
        holders := [⟨"1".toList, firstVictim, none⟩, ⟨"2".toList, secondVictim, none⟩] } }

def freeSaleRoles : RoleMap :=
  ((∅ : RoleMap).insert firstVictim .likelyVictim).insert secondVictim .likelyVictim

theorem freeSale_timesFit : TimesFit freeSaleEvidence 200 where
  analysis := by norm_num
  transfer := by simp [freeSaleEvidence, givenAway]
  sale := by simp [freeSaleEvidence, saleAt]

theorem buildLifecycle_victimTiming_iff_freeSale :
    VictimTiming freeSaleEvidence freeSaleRoles 200
        (buildLifecycle freeSaleEvidence freeSaleRoles 200) ↔
      MeasuredFromPaid freeSaleEvidence freeSaleRoles 200 :=
  buildLifecycle_victimTiming_iff freeSaleEvidence freeSaleRoles 200 freeSale_timesFit

theorem buildLifecycle_freeSale_untimely :
    ¬ VictimTiming freeSaleEvidence freeSaleRoles 200
      (buildLifecycle freeSaleEvidence freeSaleRoles 200) := by
  intro timing
  have measured : (buildLifecycle freeSaleEvidence freeSaleRoles 200).firstVictimHoldingSeconds =
      some 100 := by
    decide +kernel
  obtain ⟨time, acquisition, isFirst, found, paid, -⟩ := timing.holding 100 measured
  have atTime : (buildLifecycle freeSaleEvidence freeSaleRoles 200).firstVictimTimestamp =
      some 100 := by
    decide +kernel
  rw [atTime, Option.some.injEq] at isFirst
  subst isFirst
  have free : victimAcquisition freeSaleEvidence freeSaleRoles 100 =
      some (secondVictim, "2".toList) := by
    decide +kernel
  rw [free, Option.some.injEq] at found
  subst found
  revert paid
  rw [IsPaidAcquisition]
  decide +kernel

end NftData.Analysis2
