import NftData.Analysis2.Enrich.Types

namespace NftData.Analysis2

open Option

/-! # Cursor pagination

Transfers, holders and sales are fetched page by page, each page naming the cursor of the
next one. A provider is the sequence of its replies. Parsed rows only are collected, so the
parser of a row is a parameter. -/

open List

/-- What distinguishes the endpoints: the key of their messages, the error objects they
recognize, their rows and their cursor. -/
structure CursorEndpoint (Row : Type) where
  requestKey : Text
  providerError : Json → Option Json
  providerErrorLabel : Text
  rows : Json → List Row
  next : Json → Option Text

namespace CursorEndpoint

variable {Row : Type} (printJson : Json → Text) (endpoint : CursorEndpoint Row)

def partialOutcome (rows : List Row) (failure : Option Text) : FetchOutcome (List Row) :=
  { FetchOutcome.ok rows rows.length true "alchemy".toList endpoint.requestKey with
    failure := failure.map fun detail => endpoint.requestKey ++ ": ".toList ++ detail }

def failedOutcome (rows : List Row) (detail label : Text) : FetchOutcome (List Row) :=
  if rows.isEmpty then
    .failed "alchemy".toList endpoint.requestKey detail
  else
    endpoint.partialOutcome rows (some (label ++ ": ".toList ++ detail))

/-- The pages from the given one on, of which `remaining` may be requested. -/
def fetchFrom (replies : Nat → Reply) :
    (remaining page : Nat) → List Row → List Text → FetchOutcome (List Row)
  | 0, _, rows, _ => .ok rows rows.length false "alchemy".toList endpoint.requestKey
  | remaining + 1, page, rows, seen =>
      match replies page with
      | .error error => endpoint.failedOutcome rows error.toText "partial page failure".toList
      | .ok payload =>
          match endpoint.providerError payload with
          | some error =>
              endpoint.failedOutcome rows (printJson error) endpoint.providerErrorLabel
          | none =>
              let rows := rows ++ endpoint.rows payload
              match endpoint.next payload with
              | none => .ok rows rows.length false "alchemy".toList endpoint.requestKey
              | some next =>
                  if next ∈ seen then
                    endpoint.partialOutcome rows (some "repeated pagination cursor".toList)
                  else if remaining = 0 then
                    endpoint.partialOutcome rows none
                  else
                    fetchFrom replies remaining (page + 1) rows (next :: seen)

def fetch (apiKey : Option Text) (url : Text → Option Text) (chain : Text) (maxPages : Nat)
    (replies : Nat → Reply) : FetchOutcome (List Row) :=
  match apiKey with
  | none => .skipped endpoint.requestKey
  | some key =>
      match url key with
      | none => .failed "alchemy".toList endpoint.requestKey
          ("unsupported alchemy network for ".toList ++ chain)
      | some _ => endpoint.fetchFrom printJson replies (max maxPages 1) 0 [] []

end CursorEndpoint

/-! ## The endpoints -/

/-- A field with a text that is not empty. -/
def nonemptyText (value : Option Json) : Option Text :=
  (value.bind Json.asStr?).filter fun text => !text.isEmpty

/-- The items of an array, if there is one. -/
def itemsOrNone (value : Option Json) : List Json :=
  (value.bind Json.asArray?).getD []

def transfersEndpoint {Row : Type} (parseTransfer : Json → List Row) : CursorEndpoint Row where
  requestKey := "alchemy_transfers".toList
  providerError := fun payload => payload.get? "error"
  providerErrorLabel := "partial provider error".toList
  rows := fun payload =>
    (itemsOrNone ((payload.get? "result").bind (·.get? "transfers"))).flatMap parseTransfer
  next := fun payload => nonemptyText ((payload.get? "result").bind (·.get? "pageKey"))

/-- Replies with owners are not checked for an error object. -/
def holdersEndpoint {Row : Type} (parseHolder : Json → List Row) : CursorEndpoint Row where
  requestKey := "alchemy_holders".toList
  providerError := fun _ => none
  providerErrorLabel := []
  rows := fun payload => (itemsOrNone (payload.get? "owners")).flatMap parseHolder
  next := fun payload => nonemptyText (payload.get? "pageKey")

def salesEndpoint {Row : Type} (parseSale : Json → Option Row) : CursorEndpoint Row where
  requestKey := "alchemy_sales".toList
  providerError := fun payload => payload.get? "error"
  providerErrorLabel := "partial JSON-RPC failure".toList
  rows := fun payload => (itemsOrNone (payload.get? "nftSales")).filterMap parseSale
  next := fun payload =>
    (((payload.get? "pageKey").bind Json.asStr?).map Text.trim).filter fun key => !key.isEmpty

section

variable {Row : Type} (printJson : Json → Text)

def fetchTransfers (parseTransfer : Json → List Row) :=
  (transfersEndpoint parseTransfer).fetch printJson

def fetchSales (parseSale : Json → Option Row) :=
  (salesEndpoint parseSale).fetch printJson

def fetchHoldersPages (parseHolder : Json → List Row) :=
  (holdersEndpoint parseHolder).fetch printJson

def holdersFailedDueToOversize (outcome : FetchOutcome (List Row)) : Bool :=
  decide (outcome.status = .failed) &&
    outcome.failure.any fun message =>
      message.toAsciiLowercase.contains "response exceeds".toList

def ownersOnlyOutcome (outcome : FetchOutcome (List Row)) : FetchOutcome (List Row) :=
  if outcome.value.isEmpty ∨ outcome.status = .failed ∨ outcome.status = .notRequested then
    outcome
  else
    { outcome with
      truncated := true
      status := .truncated
      observation := { outcome.observation with
        status := .truncated }
      failure := some ("alchemy_holders: withTokenBalances response exceeded size limit; ".toList
        ++ "returned owner addresses only".toList) }

/-- A second run without balances follows when the first one is too large. Its requests
have replies of their own. -/
def fetchHolders (parseHolder : Json → List Row) (apiKey : Option Text)
    (url : Text → Option Text) (chain : Text) (maxPages : Nat)
    (withBalances ownersOnly : Nat → Reply) : FetchOutcome (List Row) :=
  let outcome := fetchHoldersPages printJson parseHolder apiKey url chain maxPages withBalances
  if !holdersFailedDueToOversize outcome then
    outcome
  else
    ownersOnlyOutcome
      (fetchHoldersPages printJson parseHolder apiKey url chain maxPages ownersOnly)

end

/-! ## Where a run stops

The pages that are read, as a property of the replies alone. -/

variable {url : Text → Option Text} {apiKey : Option Text} {stop : Nat} {address : Text} {page :
  Nat}

namespace CursorEndpoint

variable {Row : Type} (endpoint : CursorEndpoint Row)

def pageRows : Reply → List Row
  | .ok payload => endpoint.rows payload
  | .error _ => []

def Fails : Reply → Prop
  | .ok payload => (endpoint.providerError payload).isSome = true
  | .error _ => True

def nextOf : Reply → Option Text
  | .ok payload => endpoint.next payload
  | .error _ => none

/-- The rows of the first pages, in order. -/
def rowsBefore (replies : Nat → Reply) (pages : Nat) : List Row :=
  (List.range pages).flatMap fun page => endpoint.pageRows (replies page)

theorem rowsBefore_succ (replies : Nat → Reply) (pages : Nat) :
    endpoint.rowsBefore replies (pages + 1) =
      endpoint.rowsBefore replies pages ++ endpoint.pageRows (replies pages) := by
  rw [rowsBefore, range_succ, flatMap_append, flatMap_singleton, rowsBefore]

variable {second first : Nat}

theorem rowsBefore_prefix (replies : Nat → Reply) (ordered : first ≤ second) :
    endpoint.rowsBefore replies first <+: endpoint.rowsBefore replies second := by
  induction second, ordered using Nat.le_induction with
  | base => exact prefix_rfl
  | succ pages _ induction =>
      rw [rowsBefore_succ]
      exact induction.trans (prefix_append _ _)

/-- A page leads to another one when its cursor is new. -/
def Continues (replies : Nat → Reply) (page : Nat) : Prop :=
  ¬ endpoint.Fails (replies page) ∧ ∃ next, endpoint.nextOf (replies page) = some next ∧
    ∀ earlier < page, endpoint.nextOf (replies earlier) ≠ some next

/-- The last page that is read. -/
structure StopsAt (replies : Nat → Reply) (pages stop : Nat) : Prop where
  within : stop < pages
  before : ∀ page < stop, endpoint.Continues replies page
  here : ¬ endpoint.Continues replies stop ∨ stop + 1 = pages

theorem StopsAt.unique {endpoint : CursorEndpoint Row} {replies : Nat → Reply} {pages : Nat}
    (firstStops : endpoint.StopsAt replies pages first)
    (secondStops : endpoint.StopsAt replies pages second) : first = second := by
  have noEarlier : ∀ {early late : Nat}, endpoint.StopsAt replies pages early →
      endpoint.StopsAt replies pages late → ¬ early < late := by
    intro early late earlyStops lateStops earlier
    have within := lateStops.within
    rcases earlyStops.here with notContinues | atLimit
    · exact notContinues (lateStops.before early earlier)
    · omega
  have := noEarlier firstStops secondStops
  have := noEarlier secondStops firstStops
  omega

/-- How a run ends, by the page where it stops. In a degraded run rows are never
complete. -/
structure Closes (replies : Nat → Reply) (stop : Nat) (degraded : Bool)
    (outcome : FetchOutcome (List Row)) : Prop where
  failed : endpoint.Fails (replies stop) → endpoint.rowsBefore replies stop = [] →
    outcome.value = endpoint.rowsBefore replies stop ∧ outcome.status = .failed
  kept : endpoint.Fails (replies stop) → endpoint.rowsBefore replies stop ≠ [] →
    outcome.value = endpoint.rowsBefore replies stop ∧ outcome.status = .truncated
  last : ¬ endpoint.Fails (replies stop) → endpoint.nextOf (replies stop) = none →
    outcome.value = endpoint.rowsBefore replies (stop + 1) ∧
      outcome.status =
        .fromCount outcome.value.length (degraded && !outcome.value.isEmpty)
  left : ¬ endpoint.Fails (replies stop) → endpoint.nextOf (replies stop) ≠ none →
    outcome.value = endpoint.rowsBefore replies (stop + 1) ∧ outcome.status = .truncated
  message : ∀ error, replies stop = .error error → endpoint.rowsBefore replies stop = [] →
    outcome.failure = some (endpoint.requestKey ++ ": ".toList ++ error.toText)

theorem closes_failedOutcome {replies : Nat → Reply} (fails : endpoint.Fails (replies stop))
    {detail : Text} (message : ∀ error, replies stop = .error error → detail = error.toText)
    (label : Text) :
    endpoint.Closes replies stop false
      (endpoint.failedOutcome (endpoint.rowsBefore replies stop) detail label) where
  failed := by
    intro _ none_
    rw [failedOutcome, none_]
    exact ⟨rfl, rfl⟩
  kept := by
    intro _ some_
    rw [failedOutcome, if_neg (by rwa [List.isEmpty_iff])]
    exact ⟨rfl, rfl⟩
  last := fun notFails => absurd fails notFails
  left := fun notFails => absurd fails notFails
  message := by
    intro error transport none_
    rw [failedOutcome, none_, message error transport]
    rfl

theorem closes_page {replies : Nat → Reply} (accepted : ¬ endpoint.Fails (replies stop))
    {outcome : FetchOutcome (List Row)}
    (value : outcome.value = endpoint.rowsBefore replies (stop + 1))
    (status : outcome.status = .fromCount outcome.value.length
      (endpoint.nextOf (replies stop)).isSome) :
    endpoint.Closes replies stop false outcome where
  failed := fun fails => absurd fails accepted
  kept := fun fails => absurd fails accepted
  last := by
    intro _ none_
    rw [none_] at status
    exact ⟨value, status⟩
  left := by
    intro _ some_
    rw [isSome_iff_ne_none.mpr some_] at status
    exact ⟨value, status⟩
  message := by
    intro error transport
    rw [transport] at accepted
    exact absurd trivial accepted

/-- The loop stops at a page within the limit and closes there. -/
theorem fetchFrom_closes (printJson : Json → Text) (replies : Nat → Reply) {pages : Nat}
    (remaining : Nat) (positive : remaining ≠ 0) {seen : List Text}
    (total : page + remaining = pages)
    (before : ∀ earlier < page, endpoint.Continues replies earlier)
    (seenIff : ∀ cursor, cursor ∈ seen ↔
      ∃ earlier < page, endpoint.nextOf (replies earlier) = some cursor) :
    ∃ stop, endpoint.StopsAt replies pages stop ∧ endpoint.Closes replies stop false
      (endpoint.fetchFrom printJson replies remaining page
        (endpoint.rowsBefore replies page) seen) := by
  induction remaining generalizing page seen with
  | zero => exact absurd rfl positive
  | succ remaining induction =>
      have within : page < pages := by omega
      rw [fetchFrom]
      cases reply : replies page with
      | error error =>
          have fails : endpoint.Fails (replies page) := by
            rw [reply]
            trivial
          refine ⟨page, ⟨within, before, .inl fun continues => continues.1 fails⟩,
            endpoint.closes_failedOutcome fails ?_ _⟩
          intro other transport
          rw [reply] at transport
          rw [Except.error.inj transport]
      | ok payload =>
          cases reported : endpoint.providerError payload with
          | some error =>
              have fails : endpoint.Fails (replies page) := by
                rw [reply, Fails, reported]
                rfl
              simp only [reported]
              refine ⟨page, ⟨within, before, .inl fun continues => continues.1 fails⟩,
                endpoint.closes_failedOutcome fails ?_ _⟩
              intro other transport
              rw [reply] at transport
              cases transport
          | none =>
              have accepted : ¬ endpoint.Fails (replies page) := by
                rw [reply, Fails, reported]
                exact Bool.false_ne_true
              have rows : endpoint.rowsBefore replies page ++ endpoint.rows payload =
                  endpoint.rowsBefore replies (page + 1) := by
                rw [rowsBefore_succ, reply, pageRows]
              simp only [reported, rows]
              have nextOf : endpoint.nextOf (replies page) = endpoint.next payload := by
                rw [reply, CursorEndpoint.nextOf]
              cases next : endpoint.next payload with
              | none =>
                  rw [next] at nextOf
                  refine ⟨page, ⟨within, before, .inl ?_⟩,
                    endpoint.closes_page accepted rfl ?_⟩
                  · intro continues
                    rcases continues.2 with ⟨cursor, found, -⟩
                    rw [nextOf] at found
                    cases found
                  · rw [nextOf]
                    rfl
              | some cursor =>
                  rw [next] at nextOf
                  dsimp only
                  split
                  · next known =>
                      refine ⟨page, ⟨within, before, .inl ?_⟩,
                        endpoint.closes_page accepted rfl ?_⟩
                      · intro continues
                        rcases continues.2 with ⟨found, isNext, isNew⟩
                        rcases (seenIff cursor).mp known with ⟨earlier, less, same⟩
                        rw [nextOf] at isNext
                        exact isNew earlier less (same.trans isNext)
                      · rw [nextOf]
                        rfl
                  · next fresh =>
                      split
                      · next atLimit =>
                          refine ⟨page, ⟨within, before, .inr (by omega)⟩,
                            endpoint.closes_page accepted rfl ?_⟩
                          rw [nextOf]
                          rfl
                      · next more =>
                          have continues : endpoint.Continues replies page :=
                            ⟨accepted, cursor, nextOf, fun earlier less same =>
                              fresh ((seenIff cursor).mpr ⟨earlier, less, same⟩)⟩
                          apply induction more (by omega)
                          · intro earlier less
                            rcases Nat.lt_succ_iff_lt_or_eq.mp less with lower | equal
                            · exact before earlier lower
                            · exact equal ▸ continues
                          · intro other
                            rw [mem_cons, seenIff]
                            constructor
                            · intro known
                              rcases known with equal | ⟨earlier, less, same⟩
                              · exact ⟨page, Nat.lt_succ_self page, equal ▸ nextOf⟩
                              · exact ⟨earlier, Nat.lt_succ_of_lt less, same⟩
                            · intro known
                              rcases known with ⟨earlier, less, same⟩
                              rcases Nat.lt_succ_iff_lt_or_eq.mp less with lower | equal
                              · exact .inr ⟨earlier, lower, same⟩
                              · rw [equal, nextOf] at same
                                exact .inl (Option.some.inj same).symm

theorem fetch_closes (printJson : Json → Text) (reachable : apiKey.bind url = some address)
    (chain : Text) (maxPages : Nat) (replies : Nat → Reply) :
    ∃ stop, endpoint.StopsAt replies (max maxPages 1) stop ∧ endpoint.Closes replies stop false
      (endpoint.fetch printJson apiKey url chain maxPages replies) := by
  rcases bind_eq_some_iff.mp reachable with ⟨key, rfl, hasUrl⟩
  simp only [fetch, hasUrl]
  exact endpoint.fetchFrom_closes printJson replies (max maxPages 1) (by omega)
    (Nat.zero_add _) (by simp) (by simp)

end CursorEndpoint

/-! ## Honest outcomes -/

namespace CursorEndpoint

variable {Row : Type} (endpoint : CursorEndpoint Row) (wellFormed : Json → Prop)

/-- The run stops and keeps the rows of the pages it accepted; rows are only complete or
empty when every page up to a last one without successor was a well-formed success; and the
first reply that is not one is reported as a failure, or as a truncation after some rows. -/
structure Honest (replies : Nat → Reply) (pages : Nat) (outcome : FetchOutcome (List Row)) :
    Prop where
  keeps : ∃ stop, endpoint.StopsAt replies pages stop ∧
    (outcome.value = endpoint.rowsBefore replies (stop + 1) ∨
      (endpoint.Fails (replies stop) ∧ outcome.value = endpoint.rowsBefore replies stop))
  complete : outcome.status = .complete ∨ outcome.status = .empty →
    ∃ last < pages, (∀ page ≤ last, Succeeds wellFormed (replies page)) ∧
      (∀ page < last, endpoint.nextOf (replies page) ≠ none) ∧
      endpoint.nextOf (replies last) = none ∧
      outcome.value = endpoint.rowsBefore replies (last + 1)
  failure : ∀ page < pages,
    (∀ earlier < page, Succeeds wellFormed (replies earlier) ∧
      endpoint.Continues replies earlier) →
    ¬ Succeeds wellFormed (replies page) →
      (endpoint.rowsBefore replies page = [] → outcome.status = .failed) ∧
      (endpoint.rowsBefore replies page ≠ [] → outcome.status = .truncated ∧
        endpoint.rowsBefore replies page <+: outcome.value)

/-- The first malformed reply that is read as a page does no harm: either no row is ever
collected and the run fails later, or there are rows before it and the run still ends with a
failure or with a successor left (or is degraded anyway). -/
def HonestWhen (replies : Nat → Reply) (pages : Nat) (degraded : Bool) : Prop :=
  ∀ stop, endpoint.StopsAt replies pages stop → ∀ page ≤ stop,
    (∀ earlier < page, Succeeds wellFormed (replies earlier)) →
    ¬ Succeeds wellFormed (replies page) → ¬ endpoint.Fails (replies page) →
      (endpoint.Fails (replies stop) ∧ endpoint.rowsBefore replies stop = []) ∨
      (endpoint.rowsBefore replies page ≠ [] ∧ (endpoint.Fails (replies stop) ∨
        endpoint.nextOf (replies stop) ≠ none ∨ degraded = true))

variable {endpoint} {wellFormed} {replies : Nat → Reply} {pages stop : Nat} {degraded : Bool}
  {outcome : FetchOutcome (List Row)}

section

variable (closes : endpoint.Closes replies stop degraded outcome)
include closes

theorem Closes.truncated_of (within : page ≤ stop) (rows : endpoint.rowsBefore replies page ≠ [])
    (ends : endpoint.Fails (replies stop) ∨ endpoint.nextOf (replies stop) ≠ none ∨
      degraded = true) :
    outcome.status = .truncated ∧ endpoint.rowsBefore replies page <+: outcome.value := by
  have atStop := endpoint.rowsBefore_prefix replies within
  have afterStop := atStop.trans (endpoint.rowsBefore_prefix replies (Nat.le_succ stop))
  have nonempty : ∀ {collected : List Row}, endpoint.rowsBefore replies page <+: collected →
      collected ≠ [] := by
    intro collected isPrefix none_
    rw [none_] at isPrefix
    exact rows (prefix_nil.mp isPrefix)
  by_cases fails : endpoint.Fails (replies stop)
  · have kept := closes.kept fails (nonempty atStop)
    exact ⟨kept.2, kept.1 ▸ atStop⟩
  · by_cases last : endpoint.nextOf (replies stop) = none
    · have closed := closes.last fails last
      have isDegraded : degraded = true := by
        rcases ends with failing | left | degraded
        · exact absurd failing fails
        · exact absurd last left
        · exact degraded
      have valueNonempty : outcome.value ≠ [] := closed.1 ▸ nonempty afterStop
      refine ⟨?_, closed.1 ▸ afterStop⟩
      rw [closed.2, isDegraded, EvidenceStatus.fromCount,
        if_pos (by simpa [List.isEmpty_iff] using valueNonempty)]
    · have closed := closes.left fails last
      exact ⟨closed.2, closed.1 ▸ afterStop⟩

theorem Closes.failed_of (failed : outcome.status = .failed) :
    endpoint.Fails (replies stop) ∧ endpoint.rowsBefore replies stop = [] := by
  by_cases fails : endpoint.Fails (replies stop)
  · by_cases rows : endpoint.rowsBefore replies stop = []
    · exact ⟨fails, rows⟩
    · rw [(closes.kept fails rows).2] at failed
      cases failed
  · by_cases last : endpoint.nextOf (replies stop) = none
    · rw [(closes.last fails last).2] at failed
      exact absurd failed (EvidenceStatus.fromCount_ne_failed _ _)
    · rw [(closes.left fails last).2] at failed
      cases failed

theorem Closes.ends_of (truncated : outcome.status = .truncated) :
    endpoint.Fails (replies stop) ∨ endpoint.nextOf (replies stop) ≠ none ∨
      degraded = true := by
  by_cases fails : endpoint.Fails (replies stop)
  · exact .inl fails
  · by_cases last : endpoint.nextOf (replies stop) = none
    · rw [(closes.last fails last).2, EvidenceStatus.fromCount_eq_truncated,
        Bool.and_eq_true] at truncated
      exact .inr (.inr truncated.1)
    · exact .inr (.inl last)

theorem Closes.exhausted_of (complete : outcome.status = .complete ∨ outcome.status = .empty) :
    ¬ endpoint.Fails (replies stop) ∧ endpoint.nextOf (replies stop) = none ∧
      outcome.value = endpoint.rowsBefore replies (stop + 1) := by
  have notTruncated : outcome.status ≠ .truncated := by
    rcases complete with complete | empty
    · rw [complete]
      exact fun equal => by cases equal
    · rw [empty]
      exact fun equal => by cases equal
  by_cases fails : endpoint.Fails (replies stop)
  · by_cases rows : endpoint.rowsBefore replies stop = []
    · rw [(closes.failed fails rows).2] at complete
      rcases complete with equal | equal <;> cases equal
    · exact absurd (closes.kept fails rows).2 notTruncated
  · by_cases last : endpoint.nextOf (replies stop) = none
    · exact ⟨fails, last, (closes.last fails last).1⟩
    · exact absurd (closes.left fails last).2 notTruncated

theorem Closes.keeps :
    outcome.value = endpoint.rowsBefore replies (stop + 1) ∨
      (endpoint.Fails (replies stop) ∧
        outcome.value = endpoint.rowsBefore replies stop) := by
  by_cases fails : endpoint.Fails (replies stop)
  · by_cases rows : endpoint.rowsBefore replies stop = []
    · exact .inr ⟨fails, (closes.failed fails rows).1⟩
    · exact .inr ⟨fails, (closes.kept fails rows).1⟩
  · by_cases last : endpoint.nextOf (replies stop) = none
    · exact .inl (closes.last fails last).1
    · exact .inl (closes.left fails last).1

/-- A run that closes is honest exactly when its malformed replies do no harm. -/
theorem Closes.honest_iff (stops : endpoint.StopsAt replies pages stop)
    (checked : ∀ payload, wellFormed payload → endpoint.providerError payload = none) :
    endpoint.Honest wellFormed replies pages outcome ↔
      endpoint.HonestWhen wellFormed replies pages degraded := by
  have notFails : ∀ page, endpoint.Fails (replies page) →
      ¬ Succeeds wellFormed (replies page) := by
    intro page fails succeeds
    rcases succeeds with ⟨payload, reply, good⟩
    rw [reply, Fails, checked payload good] at fails
    exact Bool.false_ne_true fails
  constructor
  · intro honest other otherStops page within good malformed _
    have same := otherStops.unique stops
    subst same
    have reported := honest.failure page (within.trans_lt stops.within)
      (fun earlier less => ⟨good earlier less, stops.before earlier (less.trans_le within)⟩)
      malformed
    by_cases rows : endpoint.rowsBefore replies page = []
    · exact .inl (closes.failed_of (reported.1 rows))
    · exact .inr ⟨rows, closes.ends_of (reported.2 rows).1⟩
  · intro harmless
    refine ⟨⟨stop, stops, closes.keeps⟩, ?_, ?_⟩
    · intro complete
      have exhausted := closes.exhausted_of complete
      have accepted : ∀ page ≤ stop, ¬ endpoint.Fails (replies page) := by
        intro page within
        rcases within.lt_or_eq with less | equal
        · exact (stops.before page less).1
        · exact equal ▸ exhausted.1
      have good : ∀ page ≤ stop, Succeeds wellFormed (replies page) := by
        intro page
        induction page using Nat.strong_induction_on with
        | h page induction =>
            intro within
            by_contra malformed
            rcases harmless stop stops page within
                (fun earlier less => induction earlier less (less.le.trans within))
                malformed (accepted page within) with failing | ⟨rows, ends⟩
            · exact exhausted.1 failing.1
            · have truncated := (closes.truncated_of within rows ends).1
              rw [truncated] at complete
              rcases complete with equal | equal <;> cases equal
      refine ⟨stop, stops.within, good, ?_, exhausted.2⟩
      intro page less none_
      rcases (stops.before page less).2 with ⟨cursor, found, -⟩
      rw [none_] at found
      cases found
    · intro page inside before malformed
      have within : page ≤ stop := by
        by_contra later
        rcases stops.here with notContinues | atLimit
        · exact notContinues (before stop (by omega)).2
        · omega
      by_cases fails : endpoint.Fails (replies page)
      · have same : page = stop := by
          by_contra different
          exact (stops.before page (by omega)).1 fails
        subst same
        refine ⟨fun rows => (closes.failed fails rows).2, fun rows => ?_⟩
        have kept := closes.kept fails rows
        exact ⟨kept.2, kept.1 ▸ prefix_rfl⟩
      · rcases harmless stop stops page within (fun earlier less => (before earlier less).1)
            malformed fails with ⟨failing, none_⟩ | ⟨rows, ends⟩
        · have noRows : endpoint.rowsBefore replies page = [] := by
            have isPrefix := endpoint.rowsBefore_prefix replies within
            rw [none_] at isPrefix
            exact prefix_nil.mp isPrefix
          exact ⟨fun _ => (closes.failed failing none_).2, fun some_ => absurd noRows some_⟩
        · exact ⟨fun none_ => absurd none_ rows, fun _ => closes.truncated_of within rows ends⟩

end

end CursorEndpoint

section Endpoints

variable {Row : Type}

theorem CursorEndpoint.Closes.ownersOnly {endpoint : CursorEndpoint Row} {replies : Nat → Reply}
    {outcome : FetchOutcome (List Row)} (closes : endpoint.Closes replies stop false outcome) :
    endpoint.Closes replies stop true (ownersOnlyOutcome outcome) := by
  have value : (ownersOnlyOutcome outcome).value = outcome.value := by
    rw [ownersOnlyOutcome]
    split <;> rfl
  have unchanged : outcome.value = [] → (ownersOnlyOutcome outcome).status = outcome.status := by
    intro none_
    rw [ownersOnlyOutcome, if_pos (.inl (List.isEmpty_iff.mpr none_))]
  have degrades : outcome.value ≠ [] → outcome.status ≠ .failed →
      outcome.status ≠ .notRequested → (ownersOnlyOutcome outcome).status = .truncated := by
    intro some_ notFailed requested
    rw [ownersOnlyOutcome, if_neg]
    intro kept
    rcases kept with none_ | failed | skipped
    · exact some_ (List.isEmpty_iff.mp none_)
    · exact notFailed failed
    · exact requested skipped
  have stays : outcome.status = .truncated → (ownersOnlyOutcome outcome).status = .truncated := by
    intro truncated
    by_cases none_ : outcome.value = []
    · rw [unchanged none_, truncated]
    · exact degrades none_ (by rw [truncated]; exact fun equal => by cases equal)
        (by rw [truncated]; exact fun equal => by cases equal)
  refine ⟨?_, ?_, ?_, ?_, ?_⟩
  · intro fails rows
    have failed := closes.failed fails rows
    rw [value, unchanged (failed.1.trans rows)]
    exact failed
  · intro fails rows
    have kept := closes.kept fails rows
    exact ⟨value.trans kept.1, stays kept.2⟩
  · intro accepted none_
    have last := closes.last accepted none_
    refine ⟨value.trans last.1, ?_⟩
    rw [value]
    by_cases empty : outcome.value = []
    · rw [unchanged empty, last.2, empty]
      rfl
    · have truncated : (ownersOnlyOutcome outcome).status = .truncated := by
        apply degrades empty
        · rw [last.2]
          exact EvidenceStatus.fromCount_ne_failed _ _
        · rw [last.2, EvidenceStatus.fromCount]
          split
          · exact fun equal => by cases equal
          · split <;> exact fun equal => by cases equal
      rw [truncated, eq_comm, EvidenceStatus.fromCount_eq_truncated]
      simpa [List.isEmpty_iff] using empty
  · intro accepted some_
    have left := closes.left accepted some_
    exact ⟨value.trans left.1, stays left.2⟩
  · intro error transport none_
    have fails : endpoint.Fails (replies stop) := by
      rw [transport]
      trivial
    have noValue := (closes.failed fails none_).1.trans none_
    rw [ownersOnlyOutcome, if_pos (.inl (List.isEmpty_iff.mpr noValue))]
    exact closes.message error transport none_

def hasArray (value : Option Json) : Prop :=
  ((value.bind Json.asArray?)).isSome = true

def transfersWellFormed (payload : Json) : Prop :=
  payload.get? "error" = none ∧ hasArray ((payload.get? "result").bind (·.get? "transfers"))

def holdersWellFormed (payload : Json) : Prop :=
  payload.get? "error" = none ∧ hasArray (payload.get? "owners")

def salesWellFormed (payload : Json) : Prop :=
  payload.get? "error" = none ∧ hasArray (payload.get? "nftSales")

/-- Without a key or an URL nothing is requested, and nothing is claimed to be complete. -/
structure NotFetched (outcome : FetchOutcome (List Row)) : Prop where
  empty : outcome.value = []
  status : outcome.status = .notRequested ∨ outcome.status = .failed

theorem CursorEndpoint.fetch_notFetched (endpoint : CursorEndpoint Row) (printJson : Json → Text)
    (unreachable : apiKey.bind url = none) (chain : Text) (maxPages : Nat) (replies : Nat → Reply) :
    NotFetched (endpoint.fetch printJson apiKey url chain maxPages replies) := by
  cases apiKey with
  | none => exact ⟨rfl, .inl rfl⟩
  | some key =>
      rw [bind_some] at unreachable
      simp only [CursorEndpoint.fetch, unreachable]
      exact ⟨rfl, .inr rfl⟩

/-- A run without rows whose last reply is an error about the size of the response. -/
def Oversized (parseHolder : Json → List Row) (replies : Nat → Reply) (pages : Nat) : Prop :=
  ∃ stop, (holdersEndpoint parseHolder).StopsAt replies pages stop ∧
    (holdersEndpoint parseHolder).rowsBefore replies stop = [] ∧
    ∃ error, replies stop = .error error ∧
      Text.contains (Text.toAsciiLowercase
        ((holdersEndpoint parseHolder).requestKey ++ ": ".toList ++ error.toText))
        "response exceeds".toList = true

theorem holdersFailedDueToOversize_iff {parseHolder : Json → List Row} {replies : Nat → Reply}
    {pages : Nat} {outcome : FetchOutcome (List Row)}
    (stops : (holdersEndpoint parseHolder).StopsAt replies pages stop)
    (closes : (holdersEndpoint parseHolder).Closes replies stop false outcome) :
    holdersFailedDueToOversize outcome = true ↔ Oversized parseHolder replies pages := by
  rw [holdersFailedDueToOversize, Bool.and_eq_true, decide_eq_true_eq]
  constructor
  · intro oversize
    have failed := closes.failed_of oversize.1
    cases reply : replies stop with
    | ok payload =>
        rw [reply] at failed
        exact absurd failed.1 Bool.false_ne_true
    | error error =>
        have message := closes.message error reply failed.2
        rw [message, any_some] at oversize
        exact ⟨stop, stops, failed.2, error, reply, oversize.2⟩
  · intro oversized
    rcases oversized with ⟨other, otherStops, none_, error, reply, large⟩
    have same := otherStops.unique stops
    subst same
    have fails : (holdersEndpoint parseHolder).Fails (replies other) := by
      rw [reply]
      trivial
    rw [closes.message error reply none_, any_some]
    exact ⟨(closes.failed fails none_).2, large⟩

/-- The holders that are returned come from the run with balances, or from the second one
when that was too large. -/
theorem fetchHolders_closes (parseHolder : Json → List Row) (printJson : Json → Text)
    (reachable : apiKey.bind url = some address) (chain : Text) (maxPages : Nat)
    (withBalances ownersOnly : Nat → Reply) :
    let outcome := fetchHolders printJson parseHolder apiKey url chain maxPages withBalances
      ownersOnly
    let oversized := Oversized parseHolder withBalances (max maxPages 1)
    (¬ oversized → ∃ stop, (holdersEndpoint parseHolder).StopsAt withBalances (max maxPages 1)
      stop ∧ (holdersEndpoint parseHolder).Closes withBalances stop false outcome) ∧
    (oversized → ∃ stop, (holdersEndpoint parseHolder).StopsAt ownersOnly (max maxPages 1)
      stop ∧ (holdersEndpoint parseHolder).Closes ownersOnly stop true outcome) := by
  rcases (holdersEndpoint parseHolder).fetch_closes printJson reachable chain maxPages
    withBalances with ⟨stop, stops, closes⟩
  rcases (holdersEndpoint parseHolder).fetch_closes printJson reachable chain maxPages
    ownersOnly with ⟨second, secondStops, secondCloses⟩
  have decides := holdersFailedDueToOversize_iff stops closes
  constructor
  · intro fits
    have notOversized := Bool.eq_false_iff.mpr (decides.not.mpr fits)
    refine ⟨stop, stops, ?_⟩
    rw [fetchHolders, fetchHoldersPages, notOversized]
    exact closes
  · intro oversized
    refine ⟨second, secondStops, ?_⟩
    rw [fetchHolders, fetchHoldersPages, decides.mpr oversized]
    exact secondCloses.ownersOnly

theorem fetchHolders_notFetched (parseHolder : Json → List Row) (printJson : Json → Text)
    (unreachable : apiKey.bind url = none) (chain : Text) (maxPages : Nat)
    (withBalances ownersOnly : Nat → Reply) :
    NotFetched (fetchHolders printJson parseHolder apiKey url chain maxPages withBalances
      ownersOnly) := by
  have first := (holdersEndpoint parseHolder).fetch_notFetched printJson unreachable chain
    maxPages withBalances
  have second := (holdersEndpoint parseHolder).fetch_notFetched printJson unreachable chain
    maxPages ownersOnly
  rw [fetchHolders]
  split
  · exact first
  · rw [ownersOnlyOutcome, if_pos (.inl (List.isEmpty_iff.mpr second.empty))]
    exact second

end Endpoints

end NftData.Analysis2
