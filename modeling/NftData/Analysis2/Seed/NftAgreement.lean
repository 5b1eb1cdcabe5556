import NftData.Analysis2.Seed.NftDownload

namespace NftData.Analysis2

/-! # Writers and validator

What a download publishes is determined by the pages that it read: their distinct tokens,
the last announced total and whether the last page had a successor. -/

open List
open List (range range')
open Text (ofNat ofNat_injective)

/-- What counts of one page. -/
structure ServedPage where
  tokens : List Text
  total : Option Nat
  last : Bool

/-- The pages that a loop has read. -/
structure Served where
  tokens : List Text
  total : Option Nat
  exhausted : Bool

namespace Served

def start : Served := ⟨[], none, true⟩

def read (served : Served) (page : ServedPage) : Served where
  tokens := pushKeys served.tokens page.tokens
  total := page.total.or served.total
  exhausted := page.last

/-- Pages are read up to the first one without successor or the one that reaches the cap. -/
def readPages : Served → List ServedPage → Served
  | served, [] => served
  | served, page :: pages =>
      if page.last ∨ maxSeedNftsPerContract ≤ (served.read page).tokens.length then
        served.read page
      else
        readPages (served.read page) pages

/-- A total that equals the cap is only announced when there is no further page, and a last
page only goes beyond the cap when a larger total is announced. -/
def CapConsistent (served : Served) : Prop :=
  (served.exhausted = false → served.total ≠ some maxSeedNftsPerContract) ∧
  (served.exhausted = true → served.tokens.length ≤ maxSeedNftsPerContract ∨
    ∃ total, served.total = some total ∧ maxSeedNftsPerContract < total)

end Served

/-- A published cache is accepted with what was returned, and unless it is marked as
truncated it has every token that was served. -/
structure CacheAgrees (seed : SeedRecord) (tokens : List Text) (published : Published) :
    Prop where
  accepted : validateCache (some published.file) seed =
    .ok { published.cache with reused := true }
  complete : published.cache.truncated = false →
    ∀ token ∈ tokens, ∃ records, published.cache.residentRecords = some records ∧
      token ∈ records.map SeedNftRecord.tokenId

def Collected.of (seed : SeedRecord) (records : List SeedNftRecord) : Collected :=
  ⟨.writing seed records, records.map SeedNftRecord.tokenId, records⟩

variable {seed : SeedRecord} {collected : Collected}

namespace Collected

theorem start_eq_of (seed : SeedRecord) : start seed = of seed [] := rfl

theorem push_of (seed : SeedRecord) (records : List SeedNftRecord) (record : SeedNftRecord) :
    (of seed records).push record = of seed (records ++ [record]) := by
  simp only [push, of, CacheStreamWriter.writing_concat, map_append, map_cons,
    map_nil]

@[simp] theorem count_of (seed : SeedRecord) (records : List SeedNftRecord) :
    (of seed records).writer.count = records.length :=
  CacheStreamWriter.count_writing seed records

theorem pushRecords_of (seed : SeedRecord) (kept records : List SeedNftRecord) :
    (of seed kept).pushRecords records =
      of seed (takeDistinct SeedNftRecord.tokenId maxSeedNftsPerContract kept records) := by
  induction records generalizing kept with
  | nil => rfl
  | cons record records induction =>
      rw [pushRecords, takeDistinct, push_of, count_of, length_append,
        length_singleton]
      show (if record.tokenId ∈ kept.map SeedNftRecord.tokenId then _ else _) = _
      split
      · exact induction kept
      · split
        · rfl
        · exact induction (kept ++ [record])

def Holds (seed : SeedRecord) (collected : Collected) (tokens : List Text) : Prop :=
  ∃ records, collected = of seed records ∧
    records.map SeedNftRecord.tokenId = tokens.take maxSeedNftsPerContract

variable {tokens : List Text}

theorem Holds.count (holds : Holds seed collected tokens) :
    collected.writer.count = min maxSeedNftsPerContract tokens.length := by
  rcases holds with ⟨records, rfl, same⟩
  rw [count_of, ← length_map SeedNftRecord.tokenId, same, length_take]

theorem Holds.pushRecords (holds : Holds seed collected tokens)
    (below : tokens.length < maxSeedNftsPerContract) (records : List SeedNftRecord) :
    Holds seed (collected.pushRecords records)
      (pushKeys tokens (records.map SeedNftRecord.tokenId)) := by
  rcases holds with ⟨kept, rfl, same⟩
  rw [take_of_length_le below.le] at same
  have keptBelow : kept.length < maxSeedNftsPerContract := by
    rw [← length_map SeedNftRecord.tokenId, same]
    exact below
  refine ⟨_, pushRecords_of seed kept records, ?_⟩
  rw [takeDistinct_eq_take _ keptBelow, map_take, map_firstByKey, same]

end Collected

/-! ## Publishing -/

/-- What a loop leaves behind when it ends without error. -/
structure Ended (seed : SeedRecord) (collected : Collected) (served : Served) : Prop where
  holds : collected.Holds seed served.tokens
  nodup : served.tokens.Nodup
  bounded : ∀ total, served.total = some total → total < 2 ^ 64
  reached : served.exhausted = false → maxSeedNftsPerContract ≤ served.tokens.length
  notLess : ∀ total, served.total = some total → collected.writer.count ≤ total
  notMore : ∀ total, served.total = some total →
    served.tokens.length < maxSeedNftsPerContract → total ≤ collected.writer.count

def Marked (collected : Collected) (served : Served) (truncated : Bool) : Prop :=
  truncated = true ↔ maxSeedNftsPerContract ≤ served.tokens.length ∧
    (served.exhausted = false ∨
      ∃ total, served.total = some total ∧ collected.writer.count < total)

section Publishing

variable {seed : SeedRecord} {collected : Collected} {served : Served} {truncated : Bool}

theorem Collected.Holds.publish_cache (holds : collected.Holds seed served.tokens)
    (providerTotal : Option Nat) (truncated : Bool) :
    ∃ records, collected = .of seed records ∧
      records.length = min maxSeedNftsPerContract served.tokens.length ∧
      records.map SeedNftRecord.tokenId = served.tokens.take maxSeedNftsPerContract ∧
      (publish seed collected providerTotal truncated).cache = cacheRef seed
        ⟨completeKind, records.length, providerTotal, truncated⟩ false (some records) := by
  rcases holds with ⟨records, rfl, same⟩
  have length := congrArg List.length same
  rw [length_map, length_take] at length
  refine ⟨records, rfl, length, same, ?_⟩
  simp only [publish, CacheStreamWriter.finish, Collected.count_of]
  rfl

section

variable (ended : Ended seed collected served)
include ended

/-- The file is accepted unless it is marked as truncated although its total is its count. -/
theorem Ended.accepted_iff (marked : Marked collected served truncated) :
    (validateCache (some (publish seed collected served.total truncated).file) seed =
        .ok { (publish seed collected served.total truncated).cache with reused := true }) ↔
      (served.exhausted = false → served.total ≠ some maxSeedNftsPerContract) := by
  rcases ended.holds.publish_cache served.total truncated with
    ⟨records, rfl, length, -, cache⟩
  have fits : records.length ≤ maxSeedNftsPerContract := by omega
  have notLess := ended.notLess
  have notMore := ended.notMore
  rw [Marked] at marked
  simp only [Collected.count_of] at notLess notMore marked
  have file := validateCache_finish seed fits ended.bounded truncated
  rw [cache]
  rw [show (publish seed (.of seed records) served.total truncated).file =
    ((CacheStreamWriter.writing seed records).finish served.total truncated).2 from rfl, file]
  have rejected_iff :
      invalidCompletion ⟨completeKind, records.length, served.total, truncated⟩
        records.length = true ↔
      served.exhausted = false ∧ served.total = some maxSeedNftsPerContract := by
    cases total : served.total with
    | none =>
        simp only [total, reduceCtorEq, false_and, exists_false, or_false] at marked
        cases truncated with
        | false => simp [invalidCompletion]
        | true =>
            have full := (marked.mp rfl).1
            simp only [invalidCompletion, if_true, Option.any_none, Bool.or_false,
              decide_eq_true_eq, reduceCtorEq, and_false, iff_false, not_not]
            omega
    | some total' =>
        have below := notLess total' total
        have above := notMore total' total
        simp only [total, Option.some.injEq, exists_eq_left'] at marked
        cases truncated with
        | false =>
            simp only [Bool.false_eq_true, false_iff, not_and, not_or, Bool.not_eq_false,
              not_lt] at marked
            simp only [invalidCompletion, Bool.false_eq_true, if_false, Option.any_some,
              decide_eq_true_eq, Option.some.injEq]
            constructor
            · intro different
              by_cases full : maxSeedNftsPerContract ≤ served.tokens.length
              · have := (marked full).2
                omega
              · have := above (by omega)
                omega
            · intro rejected
              have full := ended.reached rejected.1
              have := (marked full).1
              rw [rejected.1] at this
              cases this
        | true =>
            have full := (marked.mp rfl).1
            have reason := (marked.mp rfl).2
            simp only [invalidCompletion, if_true, Option.any_some, Bool.or_eq_true,
              decide_eq_true_eq, Option.some.injEq]
            constructor
            · intro rejected
              have equal : total' = maxSeedNftsPerContract := by omega
              refine ⟨?_, equal⟩
              rcases reason with open_ | more
              · exact open_
              · omega
            · intro rejected
              omega
  constructor
  · intro accepted open_ atCap
    rw [if_pos (rejected_iff.mpr ⟨open_, atCap⟩)] at accepted
    cases accepted
  · intro consistent
    rw [if_neg (fun rejected => consistent (rejected_iff.mp rejected).1
      (rejected_iff.mp rejected).2)]
    rfl

theorem Ended.complete_iff (marked : Marked collected served truncated) :
    (truncated = false → ∀ token ∈ served.tokens,
      token ∈ served.tokens.take maxSeedNftsPerContract) ↔
      (served.exhausted = true → served.tokens.length ≤ maxSeedNftsPerContract ∨
        ∃ total, served.total = some total ∧ maxSeedNftsPerContract < total) := by
  have count := ended.holds.count
  rw [Marked] at marked
  have kept_iff : (∀ token ∈ served.tokens,
      token ∈ served.tokens.take maxSeedNftsPerContract) ↔
      served.tokens.length ≤ maxSeedNftsPerContract := by
    constructor
    · intro kept
      have bounded := (ended.nodup.subperm kept).length_le
      rw [length_take] at bounded
      omega
    · intro fits token member
      rwa [take_of_length_le fits]
  rw [kept_iff, ← Bool.not_eq_true, marked, count]
  constructor
  · intro complete exhausted
    by_cases fits : served.tokens.length ≤ maxSeedNftsPerContract
    · exact .inl fits
    · by_cases announced :
          ∃ total, served.total = some total ∧ maxSeedNftsPerContract < total
      · exact .inr announced
      · refine .inl (complete ?_)
        intro full
        rcases full.2 with open_ | ⟨total, known, more⟩
        · rw [exhausted] at open_
          cases open_
        · exact announced ⟨total, known, by omega⟩
  · intro consistent unmarked
    by_contra tooMany
    have full : maxSeedNftsPerContract ≤ served.tokens.length := by omega
    cases exhausted : served.exhausted with
    | false => exact unmarked ⟨full, .inl exhausted⟩
    | true =>
        rcases consistent exhausted with fits | ⟨total, known, more⟩
        · exact tooMany fits
        · exact unmarked ⟨full, .inr ⟨total, known, by omega⟩⟩

/-- Publishing agrees exactly when the totals are consistent with the cap. -/
theorem Ended.cacheAgrees_publish_iff (marked : Marked collected served truncated) :
    CacheAgrees seed served.tokens (publish seed collected served.total truncated) ↔
      served.CapConsistent := by
  rcases ended.holds.publish_cache served.total truncated with ⟨records, -, -, same, cache⟩
  have complete_iff := ended.complete_iff marked
  have accepted_iff := ended.accepted_iff marked
  constructor
  · intro agrees
    refine ⟨accepted_iff.mp agrees.accepted, complete_iff.mp ?_⟩
    intro unmarked token member
    have kept := agrees.complete (by rw [cache]; exact unmarked) token member
    rw [cache] at kept
    rcases kept with ⟨kept, isSome, inside⟩
    cases isSome
    exact same ▸ inside
  · intro consistent
    refine ⟨accepted_iff.mpr consistent.1, ?_⟩
    intro unmarked token member
    rw [cache] at unmarked ⊢
    refine ⟨records, rfl, ?_⟩
    rw [same]
    exact complete_iff.mpr consistent.2 unmarked token member

end

end Publishing

/-! ## The Alchemy loop -/

def alchemyTokens (rows : List Json) : List Text :=
  rows.filterMap fun row => text (row.get? "tokenId")

/-- The pages that Alchemy serves, up to the first listing that fails. -/
def alchemyPages : Bool → List AlchemyExchange → List ServedPage
  | _, [] => []
  | metadataFallback, exchange :: exchanges =>
      match alchemyListing metadataFallback exchange with
      | .error _ => []
      | .ok (payload, metadataFallback) =>
          match alchemyRows payload with
          | .error _ => []
          | .ok rows =>
              ⟨alchemyTokens rows, alchemyTotal payload, (alchemyNext payload rows).isNone⟩ ::
                alchemyPages metadataFallback exchanges

variable {normalization : Normalization} {record : SeedNftRecord}

theorem tokenId_of_parseAlchemyNft {row : Json}
    (parsed : parseAlchemyNft normalization row = some record) :
    text (row.get? "tokenId") = some record.tokenId := by
  rw [parseAlchemyNft] at parsed
  rcases Option.bind_eq_some_iff.mp parsed with ⟨tokenId, read, built⟩
  rw [read, ← Option.some.inj built]

variable {records : List SeedNftRecord} {rows : List Json}

theorem tokens_of_parseAlchemyRows (parsed : parseAlchemyRows normalization rows = .ok records) :
    records.map SeedNftRecord.tokenId = alchemyTokens rows := by
  induction rows generalizing records with
  | nil =>
      cases parsed
      rfl
  | cons row rows induction =>
      rw [parseAlchemyRows, mapM_cons] at parsed
      rcases bind_eq_ok parsed with ⟨record, first, rest⟩
      rcases bind_eq_ok rest with ⟨others, later, built⟩
      cases built
      cases parsedRow : parseAlchemyNft normalization row with
      | none =>
          rw [parsedRow] at first
          cases first
      | some parsedRecord =>
          rw [parsedRow] at first
          cases first
          rw [map_cons, induction later, alchemyTokens, alchemyTokens,
            filterMap_cons, tokenId_of_parseAlchemyNft parsedRow]

theorem tokens_replaceHydrated {hydrated : Text → Option SeedNftRecord}
    (keyed : ∀ tokenId record, hydrated tokenId = some record → record.tokenId = tokenId)
    (bases : List SeedNftRecord) :
    (replaceHydrated hydrated bases).map SeedNftRecord.tokenId =
      bases.map SeedNftRecord.tokenId := by
  induction bases generalizing hydrated with
  | nil => rfl
  | cons base bases induction =>
      rw [replaceHydrated, map_cons, map_cons, induction]
      · cases found : hydrated base.tokenId with
        | none => rfl
        | some record => rw [Option.getD_some, keyed _ _ found]
      · intro tokenId record found
        rw [Function.update_apply] at found
        split at found
        · cases found
        · exact keyed tokenId record found

theorem tokenId_of_hydratedByToken {tokenId : Text}
    (found : hydratedByToken records tokenId = some record) :
    record.tokenId = tokenId := by
  induction records using List.reverseRecOn with
  | nil => cases found
  | append_singleton records last induction =>
      rw [hydratedByToken, foldl_concat, ← hydratedByToken] at found
      split at found
      · next same => exact Option.some.inj found ▸ same
      · exact induction found

variable {exchange : AlchemyExchange}

theorem tokens_of_hydrateAlchemyPage
    (ok : hydrateAlchemyPage normalization seed exchange rows = .ok records) :
    records.map SeedNftRecord.tokenId = alchemyTokens rows := by
  rcases bind_eq_ok ok with ⟨bases, parsed, rest⟩
  rw [← tokens_of_parseAlchemyRows parsed]
  split at rest
  · cases rest
    rfl
  · rcases bind_eq_ok rest with ⟨payload, -, rest⟩
    rcases bind_eq_ok rest with ⟨items, -, rest⟩
    dsimp only at rest
    split at rest
    · cases rest
    · cases rest
      exact tokens_replaceHydrated (fun _ _ => tokenId_of_hydratedByToken) bases

/-- The state of the loop after the pages that were read. -/
structure AlchemyShows (seed : SeedRecord) (state : AlchemyState) (served : Served) : Prop where
  holds : state.collected.Holds seed served.tokens
  nodup : served.tokens.Nodup
  total : state.providerTotal = served.total
  bounded : ∀ total, served.total = some total → total < 2 ^ 64
  pageKey : state.pageKey.isSome = !served.exhausted

theorem AlchemyShows.start (seed : SeedRecord) :
    AlchemyShows seed (.start seed) .start where
  holds := ⟨[], Collected.start_eq_of seed, rfl⟩
  nodup := nodup_nil
  total := rfl
  bounded := by
    intro total known
    cases known
  pageKey := rfl

variable {served : Served} {state : AlchemyState}

/-- One turn reads one page, and breaks exactly on a last page. -/
theorem alchemyTurn_spec (shows : AlchemyShows seed state served)
    (below : served.tokens.length < maxSeedNftsPerContract) {turn : Turn AlchemyState}
    (ok : alchemyTurn normalization seed state exchange = .ok turn)
    (exchanges : List AlchemyExchange) :
    ∃ page next, AlchemyShows seed next (served.read page) ∧
      alchemyPages state.metadataFallback (exchange :: exchanges) =
        page :: alchemyPages next.metadataFallback exchanges ∧
      turn = (if page.last then .breaks next else .continues next) := by
  rcases bind_eq_ok ok with ⟨⟨payload, fallback⟩, listing, rest⟩
  rcases bind_eq_ok rest with ⟨rows, rowsRead, rest⟩
  rcases bind_eq_ok rest with ⟨records, recordsRead, rest⟩
  have tokens : records.map SeedNftRecord.tokenId = alchemyTokens rows := by
    rw [alchemyRecords] at recordsRead
    cases fallback with
    | true => exact tokens_of_hydrateAlchemyPage recordsRead
    | false => exact tokens_of_parseAlchemyRows recordsRead
  have holds := shows.holds.pushRecords below records
  rw [tokens] at holds
  have total : (alchemyTotal payload).or state.providerTotal =
      (alchemyTotal payload).or served.total := by
    rw [shows.total]
  have bounded : ∀ number, (alchemyTotal payload).or served.total = some number →
      number < 2 ^ 64 := by
    intro number known
    rcases Option.or_eq_some_iff.mp known with announced | ⟨-, earlier⟩
    · exact lt_of_jsonUsize announced
    · exact shows.bounded number earlier
  have nodup := nodup_pushKeys (alchemyTokens rows) shows.nodup
  refine ⟨⟨alchemyTokens rows, alchemyTotal payload, (alchemyNext payload rows).isNone⟩, ?_⟩
  cases next : alchemyNext payload rows with
  | none =>
      rw [next] at rest
      refine ⟨_, ⟨holds, nodup, total, bounded, rfl⟩, ?_, (Except.ok.inj rest).symm⟩
      rw [alchemyPages, listing]
      simp only [rowsRead, next]
  | some pageKey =>
      rw [next] at rest
      simp only at rest
      split at rest
      · cases rest
      · refine ⟨_, ⟨holds, nodup, total, bounded, rfl⟩, ?_, (Except.ok.inj rest).symm⟩
        rw [alchemyPages, listing]
        simp only [rowsRead, next]

/-- What each turn keeps of the pages holds of a finished download. -/
theorem runTurns_shows {State Exchange : Type}
    {turn : State → Exchange → Except Analysis2Error (Turn State)} {collected : State → Collected}
    {capReached : State → State} (Shows : State → Served → Prop)
    (pages : State → List Exchange → List ServedPage) (counts : ∀ state served, Shows state served →
      (collected state).writer.count = min maxSeedNftsPerContract served.tokens.length)
    (capped : ∀ state served, Shows state served → served.exhausted = false →
      Shows (capReached state) served) (spec : ∀ state served exchange outcome, Shows state served →
      served.tokens.length < maxSeedNftsPerContract → turn state exchange = .ok outcome →
      ∀ exchanges, ∃ page next, Shows next (served.read page) ∧
        pages state (exchange :: exchanges) = page :: pages next exchanges ∧
        outcome = (if page.last then .breaks next else .continues next)) {exchanges : List Exchange}
    {state final : State} (shows : Shows state served)
    (below : served.tokens.length < maxSeedNftsPerContract)
    (ran : runTurns turn collected capReached state exchanges = some (.ok final)) :
    let read := served.readPages (pages state exchanges)
    Shows final read ∧ (read.exhausted = false → maxSeedNftsPerContract ≤ read.tokens.length) := by
  induction exchanges generalizing state served with
  | nil =>
      rw [runTurns, if_neg (by rw [counts _ _ shows]; omega)] at ran
      cases ran
  | cons exchange exchanges induction =>
      rw [runTurns, if_neg (by rw [counts _ _ shows]; omega)] at ran
      cases turnOk : turn state exchange with
      | error error =>
          rw [turnOk] at ran
          cases ran
      | ok outcome =>
          rw [turnOk] at ran
          rcases spec _ _ _ _ shows below turnOk exchanges with
            ⟨page, next, nextShows, isPages, rfl⟩
          rw [isPages, Served.readPages]
          cases last : page.last with
          | true =>
              simp only [last, if_true] at ran
              cases ran
              simp only [true_or, if_true]
              refine ⟨nextShows, ?_⟩
              intro open_
              rw [Served.read, last] at open_
              cases open_
          | false =>
              simp only [last, Bool.false_eq_true, if_false] at ran
              simp only [Bool.false_eq_true, false_or]
              by_cases reached :
                  maxSeedNftsPerContract ≤ (served.read page).tokens.length
              · rw [if_pos reached]
                rw [runTurns_of_capReached (by rw [counts _ _ nextShows]; omega)] at ran
                cases ran
                exact ⟨capped _ _ nextShows last, fun _ => reached⟩
              · rw [if_neg reached]
                exact induction nextShows (by omega) ran

variable {exchanges : List AlchemyExchange}

theorem runAlchemy_shows {final : AlchemyState} (shows : AlchemyShows seed state served)
    (below : served.tokens.length < maxSeedNftsPerContract)
    (ran : runTurns (alchemyTurn normalization seed) AlchemyState.collected id state exchanges =
      some (.ok final)) :
    let read := served.readPages (alchemyPages state.metadataFallback exchanges)
    AlchemyShows seed final read ∧
      (read.exhausted = false → maxSeedNftsPerContract ≤ read.tokens.length) :=
  runTurns_shows (AlchemyShows seed) (fun state => alchemyPages state.metadataFallback)
    (fun _ _ shows => shows.holds.count) (fun _ _ shows _ => shows)
    (fun _ _ _ _ shows below ok => alchemyTurn_spec shows below ok) shows below ran

def alchemyServed (exchanges : List AlchemyExchange) : Served :=
  Served.start.readPages (alchemyPages false exchanges)

variable {published : Published}

theorem downloadAlchemy_agrees_iff
    (ok : downloadAlchemy normalization seed exchanges = some (.ok published)) :
    CacheAgrees seed (alchemyServed exchanges).tokens published ↔
      (alchemyServed exchanges).CapConsistent := by
  rcases Option.map_eq_some_iff.mp ok with ⟨outcome, ran, finished⟩
  rcases bind_eq_ok finished with ⟨final, rfl, finishedOk⟩
  clear finished
  have positive : Served.start.tokens.length < maxSeedNftsPerContract := by
    norm_num [Served.start, maxSeedNftsPerContract]
  have facts := runAlchemy_shows (AlchemyShows.start seed) positive ran
  have shows : AlchemyShows seed final (alchemyServed exchanges) := facts.1
  have count := shows.holds.count
  unfold finishAlchemy at finishedOk
  dsimp only at finishedOk
  split at finishedOk
  · cases finishedOk
  · next consistent =>
      rw [shows.total] at consistent finishedOk
      cases finishedOk
      simp only [Option.filter_eq_none_iff, Bool.or_eq_true, Bool.and_eq_true,
        decide_eq_true_eq, Bool.not_eq_true', decide_eq_false_iff_not, not_or, not_and,
        not_not, not_lt] at consistent
      have ended : Ended seed final.collected (alchemyServed exchanges) := {
        holds := shows.holds
        nodup := shows.nodup
        bounded := shows.bounded
        reached := facts.2
        notLess := fun total known => (consistent total known).1
        notMore := by
          intro total known below
          by_contra more
          have := (consistent total known).2 (by omega)
          omega }
      apply ended.cacheAgrees_publish_iff
      rw [Marked, Bool.and_eq_true, Bool.or_eq_true, shows.pageKey, Bool.not_eq_true',
        decide_eq_true_eq, Option.any_eq_true, count]
      simp only [decide_eq_true_eq]
      constructor
      · intro marked
        exact ⟨by omega, marked.2⟩
      · intro marked
        exact ⟨by omega, marked.2⟩

/-! ## The Helius loop -/

def heliusTokens (rows : List Json) : List Text :=
  (rows.filter fun row => !heliusRowIsExplicitlyNonNft row).filterMap fun row =>
    text (row.get? "id")

/-- The pages that Helius serves, up to the first reply that fails. -/
def heliusPages (normalization : Normalization) : List Reply → List ServedPage
  | [] => []
  | reply :: replies =>
      match reply.bind (heliusRows normalization) with
      | .error _ => []
      | .ok rows =>
          ⟨heliusTokens rows, none, decide (rows.length < heliusPageSize)⟩ ::
            heliusPages normalization replies

def heliusRecords (normalization : Normalization) (rows : List Json) : List SeedNftRecord :=
  (rows.filter fun row => !heliusRowIsExplicitlyNonNft row).filterMap
    (parseHeliusNft normalization)

theorem tokenId_parseHeliusNft (normalization : Normalization) (row : Json) :
    (parseHeliusNft normalization row).map SeedNftRecord.tokenId = text (row.get? "id") := by
  rw [parseHeliusNft]
  cases text (row.get? "id") <;> rfl

theorem tokens_heliusRecords (normalization : Normalization) (rows : List Json) :
    (heliusRecords normalization rows).map SeedNftRecord.tokenId = heliusTokens rows := by
  rw [heliusRecords, map_filterMap, heliusTokens]
  simp only [tokenId_parseHeliusNft]

theorem pushHeliusRows_of {kept : List SeedNftRecord}
    (ok : pushHeliusRows normalization (.of seed kept) rows = .ok collected) :
    collected = .of seed (takeDistinct SeedNftRecord.tokenId maxSeedNftsPerContract kept
      (heliusRecords normalization rows)) := by
  induction rows generalizing kept with
  | nil =>
      cases ok
      rfl
  | cons row rows induction =>
      rw [pushHeliusRows] at ok
      rw [heliusRecords]
      cases nonNft : heliusRowIsExplicitlyNonNft row with
      | true =>
          rw [nonNft, if_pos rfl] at ok
          rw [filter_cons_of_neg (by simp [nonNft])]
          exact induction ok
      | false =>
          rw [nonNft, if_neg Bool.false_ne_true] at ok
          rw [filter_cons_of_pos (by simp [nonNft])]
          cases parsed : parseHeliusNft normalization row with
          | none =>
              rw [parsed] at ok
              cases ok
          | some record =>
              rw [parsed] at ok
              simp only [Collected.push_of, Collected.count_of, length_append,
                length_singleton] at ok
              rw [filterMap_cons_some parsed, takeDistinct]
              change (if record.tokenId ∈ kept.map SeedNftRecord.tokenId then _ else _) = _ at ok
              split at ok
              · next known =>
                  rw [if_pos known]
                  exact induction ok
              · next fresh =>
                  rw [if_neg fresh]
                  split at ok
                  · next full =>
                      rw [if_pos full]
                      exact (Except.ok.inj ok).symm
                  · next room =>
                      rw [if_neg room]
                      exact induction ok

structure HeliusShows (seed : SeedRecord) (state : HeliusState) (served : Served) : Prop where
  holds : state.collected.Holds seed served.tokens
  nodup : served.tokens.Nodup
  total : served.total = none
  hasMore : state.hasMore = !served.exhausted

theorem HeliusShows.start (seed : SeedRecord) :
    HeliusShows seed ⟨.start seed, false, []⟩ .start where
  holds := ⟨[], Collected.start_eq_of seed, rfl⟩
  nodup := nodup_nil
  total := rfl
  hasMore := rfl

theorem heliusTurn_spec {state : HeliusState} (shows : HeliusShows seed state served)
    (below : served.tokens.length < maxSeedNftsPerContract) {reply : Reply}
    {turn : Turn HeliusState} (ok : heliusTurn normalization state reply = .ok turn)
    (replies : List Reply) :
    ∃ page next, HeliusShows seed next (served.read page) ∧
      heliusPages normalization (reply :: replies) =
        page :: heliusPages normalization replies ∧
      turn = (if page.last then .breaks next else .continues next) := by
  rcases bind_eq_ok ok with ⟨payload, rfl, rest⟩
  rcases bind_eq_ok rest with ⟨rows, rowsRead, rest⟩
  dsimp only at rest
  split at rest
  · cases rest
  · rcases bind_eq_ok rest with ⟨collected, pushed, rest⟩
    have holds : collected.Holds seed (pushKeys served.tokens (heliusTokens rows)) := by
      rcases shows.holds with ⟨kept, same, keptTokens⟩
      rw [same] at pushed
      rw [pushHeliusRows_of pushed, ← Collected.pushRecords_of, ← same,
        ← tokens_heliusRecords normalization]
      exact shows.holds.pushRecords below _
    have pages : heliusPages normalization (.ok payload :: replies) =
        ⟨heliusTokens rows, none, decide (rows.length < heliusPageSize)⟩ ::
          heliusPages normalization replies := by
      rw [heliusPages]
      simp only [Except.bind, rowsRead]
    have total : (none : Option Nat).or served.total = none := shows.total
    have nextShows : ∀ seenPages, HeliusShows seed
        ⟨collected, decide (heliusPageSize ≤ rows.length), seenPages⟩
        (served.read ⟨heliusTokens rows, none, decide (rows.length < heliusPageSize)⟩) := by
      intro seenPages
      refine ⟨holds, nodup_pushKeys _ shows.nodup, total, ?_⟩
      exact (decide_eq_decide.mpr not_lt.symm).trans decide_not
    split at rest
    · next short =>
        cases rest
        exact ⟨_, _, nextShows _, pages, (if_pos (decide_eq_true short)).symm⟩
    · next full =>
        cases rest
        refine ⟨_, _, nextShows _, pages, (if_neg ?_).symm⟩
        exact ne_of_eq_of_ne (decide_eq_false full) Bool.false_ne_true

def heliusServed (normalization : Normalization) (replies : List Reply) : Served :=
  Served.start.readPages (heliusPages normalization replies)

theorem downloadHelius_agrees_iff {replies : List Reply}
    (ok : downloadHelius normalization seed replies = some (.ok published)) :
    CacheAgrees seed (heliusServed normalization replies).tokens published ↔
      (heliusServed normalization replies).CapConsistent := by
  rcases Option.map_eq_some_iff.mp ok with ⟨outcome, ran, finished⟩
  cases outcome with
  | error error => cases finished
  | ok final =>
      cases finished
      have positive : Served.start.tokens.length < maxSeedNftsPerContract := by
        norm_num [Served.start, maxSeedNftsPerContract]
      have facts := runTurns_shows (HeliusShows seed) (fun _ => heliusPages normalization)
        (fun _ _ shows => shows.holds.count)
        (by
          intro _ _ shows exhausted
          exact ⟨shows.holds, shows.nodup, shows.total, by simp [exhausted]⟩)
        (fun _ _ _ _ shows below ok => heliusTurn_spec shows below ok)
        (HeliusShows.start seed) positive ran
      have shows : HeliusShows seed final (heliusServed normalization replies) := facts.1
      have count := shows.holds.count
      have ended : Ended seed final.collected (heliusServed normalization replies) := {
        holds := shows.holds
        nodup := shows.nodup
        bounded := by simp [shows.total]
        reached := facts.2
        notLess := by simp [shows.total]
        notMore := by simp [shows.total] }
      rw [finishHelius, ← shows.total]
      apply ended.cacheAgrees_publish_iff
      rw [Marked, Bool.and_eq_true, shows.hasMore, decide_eq_true_eq, shows.total, count]
      simp

/-! ## Both downloads -/

/-- A published cache is accepted again and complete exactly when the pages that were read
are consistent with the cap. -/
theorem downloads_agree_iff (normalization : Normalization) (seed : SeedRecord) :
    (∀ exchanges published,
      downloadAlchemy normalization seed exchanges = some (.ok published) →
        (CacheAgrees seed (alchemyServed exchanges).tokens published ↔
          (alchemyServed exchanges).CapConsistent)) ∧
    (∀ replies published, downloadHelius normalization seed replies = some (.ok published) →
      (CacheAgrees seed (heliusServed normalization replies).tokens published ↔
        (heliusServed normalization replies).CapConsistent)) :=
  ⟨fun _ _ => downloadAlchemy_agrees_iff, fun _ _ => downloadHelius_agrees_iff⟩

def bareNormalization : Normalization where
  normalizeName := Text.toAsciiLowercase
  normalizeUrl := fun _ => none
  validatedMetadata := fun _ => none
  printJson := fun _ => []

def bareSeed : SeedRecord := ⟨"ethereum".toList, "0xa".toList, none⟩

def bareRow (token : Nat) : Json := .object [("tokenId", .string (ofNat token))]

theorem downloads_agree_iff_one_row :
    (∃ published, downloadAlchemy bareNormalization bareSeed
        [⟨.ok (.object [("nfts", .array [bareRow 7])]), .ok .null, .ok .null, .ok .null⟩] =
          some (.ok published) ∧
      (CacheAgrees bareSeed (alchemyServed
        [⟨.ok (.object [("nfts", .array [bareRow 7])]), .ok .null, .ok .null, .ok .null⟩]).tokens
          published ↔
        (alchemyServed [⟨.ok (.object [("nfts", .array [bareRow 7])]),
          .ok .null, .ok .null, .ok .null⟩]).CapConsistent)) ∧
    (∃ published, downloadHelius bareNormalization bareSeed
        [.ok (.object [("result", .object [("items", .array [])])])] = some (.ok published) ∧
      (CacheAgrees bareSeed (heliusServed bareNormalization
        [.ok (.object [("result", .object [("items", .array [])])])]).tokens published ↔
        (heliusServed bareNormalization
          [.ok (.object [("result", .object [("items", .array [])])])]).CapConsistent)) :=
  ⟨⟨_, rfl, (downloads_agree_iff bareNormalization bareSeed).1 _ _ rfl⟩,
    ⟨_, rfl, (downloads_agree_iff bareNormalization bareSeed).2 _ _ rfl⟩⟩

/-! ## A collection of exactly the cap

A provider that hands out a page key with its last full page and announces the exact total. -/

def bareRecord (token : Nat) : SeedNftRecord := ⟨ofNat token, [], [], [], []⟩

def fullPage (page : Nat) : Json :=
  .object [
    ("nfts", .array ((range' (100 * page) 100).map bareRow)),
    ("totalCount", .integer 50000),
    ("pageKey", .string (ofNat (page + 1)))]

def fullExchange (page : Nat) : AlchemyExchange :=
  ⟨.ok (fullPage page), .ok .null, .ok .null, .ok .null⟩

def fullState (page : Nat) : AlchemyState where
  collected := .of bareSeed ((range (100 * page)).map bareRecord)
  pageKey := if page = 0 then none else some (ofNat page)
  seenKeys := ((range page).map fun earlier => ofNat (earlier + 1)).reverse
  providerTotal := if page = 0 then none else some 50000
  metadataFallback := false

theorem text_ofNat (value : Nat) :
    text (some (.string (ofNat value))) = some (ofNat value) := by
  have nonempty : (ofNat value).isEmpty = false :=
    isEmpty_eq_false_iff.mpr Nat.toDigits_ne_nil
  simp [text, Json.asStr?, Text.trim_ofNat, nonempty]

theorem parseAlchemyRows_bare (tokens : List Nat) :
    parseAlchemyRows bareNormalization (tokens.map bareRow) = .ok (tokens.map bareRecord) := by
  have parsed : ∀ token, parseAlchemyNft bareNormalization (bareRow token) =
      some (bareRecord token) := by
    intro token
    simp only [parseAlchemyNft, bareRow, Json.get?_object_cons, if_true, text_ofNat]
    rfl
  induction tokens with
  | nil => rfl
  | cons token tokens induction =>
      rw [parseAlchemyRows] at induction
      rw [map_cons, parseAlchemyRows, mapM_cons, parsed, induction]
      rfl

variable {page : Nat}

theorem fullState_next (inside : page < 500) :
    alchemyTurn bareNormalization bareSeed (fullState page) (fullExchange page) =
      .ok (.continues (fullState (page + 1))) := by
  have rows : alchemyRows (fullPage page) =
      .ok ((range' (100 * page) 100).map bareRow) := by
    simp [alchemyRows, fullPage, Json.asArray?]
  have total : alchemyTotal (fullPage page) = some 50000 := rfl
  have next : alchemyNext (fullPage page) ((range' (100 * page) 100).map bareRow) =
      some (ofNat (page + 1)) := by
    rw [alchemyNext, if_neg (by simp)]
    simp [fullPage, text_ofNat]
  have fresh : ofNat (page + 1) ∉ (fullState page).seenKeys := by
    rw [fullState, mem_reverse]
    intro seen
    rcases mem_map.mp seen with ⟨earlier, before, same⟩
    have := ofNat_injective same
    have := mem_range.mp before
    omega
  have collected : (fullState page).collected.pushRecords
      ((range' (100 * page) 100).map bareRecord) = (fullState (page + 1)).collected := by
    have all : (range (100 * page)).map bareRecord ++
        (range' (100 * page) 100).map bareRecord =
          (range (100 * (page + 1))).map bareRecord := by
      rw [← map_append, range_eq_range', range_eq_range', Nat.mul_succ]
      have joined := @List.range'_append 0 (100 * page) 100 1
      rw [Nat.one_mul, Nat.zero_add] at joined
      exact congrArg _ joined
    have nodup : (((range (100 * (page + 1))).map bareRecord).map
        SeedNftRecord.tokenId).Nodup := by
      rw [map_map]
      exact nodup_range.map ofNat_injective
    have below : ((range (100 * page)).map bareRecord).length < maxSeedNftsPerContract := by
      simp only [length_map, length_range, maxSeedNftsPerContract]
      omega
    have fits : ((range (100 * (page + 1))).map bareRecord).length ≤
        maxSeedNftsPerContract := by
      simp only [length_map, length_range, maxSeedNftsPerContract]
      omega
    rw [fullState, Collected.pushRecords_of, takeDistinct_eq_take _ below,
      firstByKey_of_nodup _ (all ▸ nodup), all, take_of_length_le fits]
    rfl
  have listing : alchemyListing (fullState page).metadataFallback (fullExchange page) =
      .ok (fullPage page, false) := rfl
  have records : alchemyRecords bareNormalization bareSeed false (fullExchange page)
      ((range' (100 * page) 100).map bareRow) =
        .ok ((range' (100 * page) 100).map bareRecord) :=
    parseAlchemyRows_bare _
  rw [alchemyTurn, listing, ok_bind]
  simp only [rows, records, total, next, collected, ok_bind, if_neg fresh, Option.some_or]
  rw [fullState, fullState, if_neg (Nat.succ_ne_zero page), if_neg (Nat.succ_ne_zero page),
    range_succ, map_append, map_cons, map_nil, reverse_concat]

theorem count_fullState (page : Nat) : (fullState page).collected.writer.count = 100 * page := by
  rw [fullState, Collected.count_of, length_map, length_range]

variable {last : Nat}

theorem runTurns_fullState (atCap : last = 500) (pages : Nat) (total : page + pages = last) :
    runTurns (alchemyTurn bareNormalization bareSeed) AlchemyState.collected id (fullState page)
      ((range' page pages).map fullExchange) = some (.ok (fullState last)) := by
  induction pages generalizing page with
  | zero =>
      have full : maxSeedNftsPerContract ≤ (fullState page).collected.writer.count := by
        rw [count_fullState, maxSeedNftsPerContract]
        omega
      rw [← total]
      exact runTurns_of_capReached full _
  | succ pages induction =>
      have below : ¬ maxSeedNftsPerContract ≤ (fullState page).collected.writer.count := by
        rw [count_fullState, maxSeedNftsPerContract]
        omega
      rw [range'_succ, map_cons, runTurns, if_neg below,
        fullState_next (by omega)]
      exact induction (by omega)

theorem download_fullPages (atCap : last = 500) :
    ∃ published, downloadAlchemy bareNormalization bareSeed
        ((range' 0 last).map fullExchange) = some (.ok published) ∧
      ¬ CacheAgrees bareSeed (alchemyServed ((range' 0 last).map fullExchange)).tokens
        published := by
  have zeroState : fullState 0 = .start bareSeed := rfl
  have ran := runTurns_fullState atCap last (Nat.zero_add last)
  rw [zeroState] at ran
  have count : (fullState last).collected.writer.count = maxSeedNftsPerContract := by
    rw [count_fullState, atCap, maxSeedNftsPerContract]
  have total : (fullState last).providerTotal = some maxSeedNftsPerContract :=
    if_neg (by omega)
  have pageKey : (fullState last).pageKey = some (ofNat last) := if_neg (by omega)
  have finished : finishAlchemy bareSeed (fullState last) =
      .ok (publish bareSeed (fullState last).collected (some maxSeedNftsPerContract) true) := by
    unfold finishAlchemy
    simp only [count, total, pageKey, lt_irrefl, le_refl, decide_true, decide_false,
      Bool.not_true, Bool.and_self, Bool.or_self, Option.filter_some, Bool.false_eq_true,
      if_false, Option.isSome_some, Bool.true_or]
  have ok : downloadAlchemy bareNormalization bareSeed ((range' 0 last).map fullExchange) =
      some (.ok (publish bareSeed (fullState last).collected
        (some maxSeedNftsPerContract) true)) := by
    rw [downloadAlchemy, ran]
    exact congrArg some finished
  have positive : Served.start.tokens.length < maxSeedNftsPerContract := by
    norm_num [Served.start, maxSeedNftsPerContract]
  have shows : AlchemyShows bareSeed (fullState last)
      (alchemyServed ((range' 0 last).map fullExchange)) :=
    (runAlchemy_shows (AlchemyShows.start bareSeed) positive ran).1
  refine ⟨_, ok, ?_⟩
  intro agrees
  have consistent := (downloadAlchemy_agrees_iff ok).mp agrees
  have open_ : (alchemyServed ((range' 0 last).map fullExchange)).exhausted = false := by
    have known := shows.pageKey
    rwa [pageKey, Option.isSome_some, eq_comm, Bool.not_eq_eq_eq_not, Bool.not_true] at known
  exact consistent.1 open_ (shows.total.symm.trans total)

/-- Five hundred full pages of an exactly announced collection with a last page key: the
published cache is marked as truncated, which its own total contradicts. -/
theorem downloads_not_agree_at_cap :
    ∃ published, downloadAlchemy bareNormalization bareSeed
        ((range' 0 500).map fullExchange) = some (.ok published) ∧
      ¬ CacheAgrees bareSeed (alchemyServed ((range' 0 500).map fullExchange)).tokens
        published :=
  download_fullPages rfl

end NftData.Analysis2
