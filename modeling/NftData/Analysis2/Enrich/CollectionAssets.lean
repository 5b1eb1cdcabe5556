import NftData.Analysis2.Enrich.Pagination
import NftData.Foundation.TakeDistinct

namespace NftData.Analysis2

open Option

/-! # Collection assets

The assets of a Solana collection are fetched by page number. A page that is not full is the
last one, and a page that was seen before ends the run. -/

open List

structure SolanaAsset where
  mint : Text
  owner : Option Text
  compressed : Bool
  deriving DecidableEq, Repr

structure SolanaAssetSnapshot where
  assets : List SolanaAsset
  total : Option Nat
  truncated : Bool
  openLicense : Bool
  authority : List Text
  deriving Inhabited

/-- What is read from an item besides the asset: whether its license is open, and the
authorities that it and its page name for the collection. -/
structure AssetReader where
  isOpenLicense : Json → Bool
  authorities : (item result : Json) → (collection : Text) → List Text

def isExplicitFungibleInterface (interface : Text) : Bool :=
  ["fungibleasset".toList, "fungibletoken".toList].contains interface.toAsciiLowercase

def isExplicitNonNftInterface (interface : Text) : Bool :=
  ["identity".toList, "executable".toList, "mplcorecollection".toList,
    "mplcoregroup".toList].contains interface.toAsciiLowercase

def itemIsExplicitlyNonNft (item : Json) : Bool :=
  ((item.get? "interface").bind Json.asStr?).any fun interface =>
    isExplicitFungibleInterface interface || isExplicitNonNftInterface interface

def parseAsset (item : Json) : Option SolanaAsset := do
  let mint ← ((item.get? "id").bind Json.asStr?).map Text.trim
  if mint.isEmpty then
    none
  else
    some {
      mint := mint
      owner := ((((item.get? "ownership").bind (·.get? "owner")).bind Json.asStr?).map
        Text.trim).filter fun owner => !owner.isEmpty
      compressed := (((item.get? "compression").bind (·.get? "compressed")).bind
        Json.asBool?).getD false }

def nftAsset (item : Json) : Option SolanaAsset :=
  if itemIsExplicitlyNonNft item then none else parseAsset item

/-! ## The loop -/

structure AssetsState where
  snapshot : SolanaAssetSnapshot
  seenMints : List Text
  seenPages : List Text

namespace AssetsState

def start : AssetsState := ⟨default, [], []⟩

def readItem (state : AssetsState) (reader : AssetReader) (result : Json) (collection : Text)
    (item : Json) : AssetsState :=
  { state with
    snapshot := { state.snapshot with
      openLicense := state.snapshot.openLicense || reader.isOpenLicense item
      authority :=
        if state.snapshot.authority.isEmpty then
          reader.authorities item result collection
        else
          state.snapshot.authority } }

def push (state : AssetsState) (asset : SolanaAsset) : AssetsState :=
  { state with
    snapshot := { state.snapshot with
      assets := state.snapshot.assets ++ [asset] }
    seenMints := asset.mint :: state.seenMints }

def truncate (state : AssetsState) : AssetsState :=
  { state with
    snapshot := { state.snapshot with
      truncated := true } }

def pushItems (reader : AssetReader) (result : Json) (collection : Text) (maxAssets : Nat) :
    AssetsState → List Json → AssetsState
  | state, [] => state
  | state, item :: items =>
      let state := state.readItem reader result collection item
      match nftAsset item with
      | none => pushItems reader result collection maxAssets state items
      | some asset =>
          if asset.mint ∈ state.seenMints then
            pushItems reader result collection maxAssets state items
          else if maxAssets ≤ (state.push asset).snapshot.assets.length then
            (state.push asset).truncate
          else
            pushItems reader result collection maxAssets (state.push asset) items

end AssetsState

inductive AssetsTurn where
  | continues (state : AssetsState)
  | finishes (state : AssetsState)
  | fails (detail : Text)

def assetsFailure (state : AssetsState) (detail : Text) : AssetsTurn :=
  if state.snapshot.assets.isEmpty then .fails detail else .finishes state.truncate

def assetsPageSize (maxAssets : Nat) : Nat := min 1000 (max maxAssets 1)

/-- The size of the page that is requested when some assets are known. -/
def assetsLimit (maxAssets known : Nat) : Nat :=
  min (assetsPageSize maxAssets) (max (maxAssets - known) 1)

def assetsTurn (reader : AssetReader) (printJson : Json → Text) (collection : Text)
    (maxAssets : Nat) (state : AssetsState) (reply : Reply) : AssetsTurn :=
  match reply with
  | .error error => assetsFailure state error.toText
  | .ok payload =>
      match payload.get? "error" with
      | some error => assetsFailure state (printJson error)
      | none =>
          match payload.get? "result" with
          | none => assetsFailure state "getAssetsByGroup omitted result".toList
          | some result =>
              let items := itemsOrNone (result.get? "items")
              let identity := pageIdentity items
              if items.isEmpty then
                .finishes state
              else if ¬ identity.isEmpty ∧ identity ∈ state.seenPages then
                .finishes state.truncate
              else
                let seenPages :=
                  if identity.isEmpty then state.seenPages else identity :: state.seenPages
                let limit := assetsLimit maxAssets state.snapshot.assets.length
                let next := AssetsState.pushItems reader result collection maxAssets
                  { state with
                    seenPages := seenPages } items
                if items.length < limit then .finishes next else .continues next

/-- The returned snapshot. Its total is a hint that only ever adds a truncation. -/
def finishAssets (showUnverified : Bool) (state : AssetsState) :
    FetchOutcome SolanaAssetSnapshot :=
  let count := state.snapshot.assets.length
  let truncated :=
    state.snapshot.truncated || state.snapshot.total.any fun total => decide (count < total)
  .ok { state.snapshot with
    truncated := truncated } count truncated "helius".toList
    (if showUnverified then "helius_assets_unverified".toList else "helius_assets".toList)

/-- The pages from the given one on. The loop has no bound of its own, so it may run out of
fuel. -/
def fetchAssetsFrom (reader : AssetReader) (printJson : Json → Text) (collection : Text)
    (maxAssets : Nat) (showUnverified : Bool) (replies : Nat → Reply) :
    (fuel page : Nat) → AssetsState → Option (FetchOutcome SolanaAssetSnapshot)
  | 0, _, _ => none
  | fuel + 1, page, state =>
      if maxAssets ≤ state.snapshot.assets.length then
        some (finishAssets showUnverified state.truncate)
      else
        match assetsTurn reader printJson collection maxAssets state (replies page) with
        | .fails detail => some (.failed "helius".toList "helius_assets".toList detail)
        | .finishes state => some (finishAssets showUnverified state)
        | .continues state =>
            fetchAssetsFrom reader printJson collection maxAssets showUnverified replies fuel
              (page + 1) state

def fetchCollectionAssets (reader : AssetReader) (printJson : Json → Text)
    (apiKey : Option Text) (collection : Text) (maxAssets : Nat) (showUnverified : Bool)
    (replies : Nat → Reply) (fuel : Nat) : Option (FetchOutcome SolanaAssetSnapshot) :=
  match apiKey with
  | none => some (.skipped "helius_assets".toList)
  | some _ => fetchAssetsFrom reader printJson collection maxAssets showUnverified replies
      fuel 0 .start

/-! ## Where a run stops

The pages that are read, as a property of the replies alone. -/

section Stops

variable (maxAssets : Nat) (replies : Nat → Reply)

def AssetsFail : Reply → Prop
  | .error _ => True
  | .ok payload => (payload.get? "error").isSome = true ∨ payload.get? "result" = none

def assetItems : Reply → List Json
  | .error _ => []
  | .ok payload => itemsOrNone ((payload.get? "result").bind (·.get? "items"))

/-- The distinct assets of the first pages, in order and up to the limit. -/
def assetsBefore (pages : Nat) : List SolanaAsset :=
  (firstByKey SolanaAsset.mint [] ((List.range pages).flatMap fun page =>
    (assetItems (replies page)).filterMap nftAsset)).take maxAssets

/-- Enough assets are known before the page, so that it is not requested. -/
def AssetsCapped (page : Nat) : Prop := maxAssets ≤ (assetsBefore maxAssets replies page).length

instance (page : Nat) : Decidable (AssetsCapped maxAssets replies page) :=
  inferInstanceAs (Decidable (maxAssets ≤ (assetsBefore maxAssets replies page).length))

def AssetsRepeat (page : Nat) : Prop :=
  pageIdentity (assetItems (replies page)) ≠ [] ∧ ∃ earlier < page,
    pageIdentity (assetItems (replies earlier)) = pageIdentity (assetItems (replies page))

/-- A page that is not full has no successor. -/
def AssetsExhausted (page : Nat) : Prop :=
  (assetItems (replies page)).length <
    assetsLimit maxAssets (assetsBefore maxAssets replies page).length

structure AssetsContinue (page : Nat) : Prop where
  requested : ¬ AssetsCapped maxAssets replies page
  accepted : ¬ AssetsFail (replies page)
  fresh : ¬ AssetsRepeat replies page
  full : ¬ AssetsExhausted maxAssets replies page

structure AssetsStopAt (stop : Nat) : Prop where
  before : ∀ page < stop, AssetsContinue maxAssets replies page
  here : ¬ AssetsContinue maxAssets replies stop

/-- How a run ends, by the page where it stops. -/
structure AssetsClose (stop : Nat) (outcome : FetchOutcome SolanaAssetSnapshot) : Prop where
  capped : AssetsCapped maxAssets replies stop →
    outcome.value.assets = assetsBefore maxAssets replies stop ∧ outcome.status = .truncated
  failed : ¬ AssetsCapped maxAssets replies stop → AssetsFail (replies stop) →
    outcome.value.assets = assetsBefore maxAssets replies stop ∧
      outcome.status =
        if assetsBefore maxAssets replies stop = [] then .failed else .truncated
  repeated : ¬ AssetsCapped maxAssets replies stop → ¬ AssetsFail (replies stop) →
    AssetsRepeat replies stop →
      outcome.value.assets = assetsBefore maxAssets replies stop ∧ outcome.status = .truncated
  exhausted : ¬ AssetsCapped maxAssets replies stop → ¬ AssetsFail (replies stop) →
    ¬ AssetsRepeat replies stop →
      outcome.value.assets = assetsBefore maxAssets replies (stop + 1) ∧
        outcome.status = .fromCount (assetsBefore maxAssets replies (stop + 1)).length
          (decide (AssetsCapped maxAssets replies (stop + 1)))

end Stops

/-! ## Reading pages -/

/-- The state of the loop that knows the given assets, before the limit is reached. -/
structure AssetsState.Knows (maxAssets : Nat) (state : AssetsState)
    (assets : List SolanaAsset) : Prop where
  known : state.snapshot.assets = assets
  seenMints : ∀ mint, mint ∈ state.seenMints ↔ mint ∈ assets.map SolanaAsset.mint
  total : state.snapshot.total = none
  truncated : assets.length < maxAssets → state.snapshot.truncated = false

variable {page : Nat} {outcome : FetchOutcome SolanaAssetSnapshot} {stop : Nat}

section Reading

variable {maxAssets : Nat} {replies : Nat → Reply}

theorem assetsBefore_succ (requested : ¬ AssetsCapped maxAssets replies page) :
    assetsBefore maxAssets replies (page + 1) =
      takeDistinct SolanaAsset.mint maxAssets (assetsBefore maxAssets replies page)
        ((assetItems (replies page)).filterMap nftAsset) := by
  have below : (assetsBefore maxAssets replies page).length < maxAssets := not_le.mp requested
  have whole : assetsBefore maxAssets replies page =
      firstByKey SolanaAsset.mint [] ((List.range page).flatMap fun page =>
        (assetItems (replies page)).filterMap nftAsset) := by
    rw [assetsBefore, length_take] at below
    exact take_of_length_le (by omega)
  rw [takeDistinct_eq_take _ below, whole, ← firstByKey_append, assetsBefore, range_succ,
    flatMap_append, flatMap_singleton]

variable {state : AssetsState}

/-- Reading the items of a page keeps the distinct assets up to the limit. -/
theorem AssetsState.Knows.pushItems {assets : List SolanaAsset}
    (knows : state.Knows maxAssets assets) (below : assets.length < maxAssets)
    (reader : AssetReader) (result : Json) (collection : Text) (items : List Json) :
    let next := AssetsState.pushItems reader result collection maxAssets state items
    let read := takeDistinct SolanaAsset.mint maxAssets assets (items.filterMap nftAsset)
    next.Knows maxAssets read ∧ next.seenPages = state.seenPages ∧
      next.snapshot.truncated = decide (maxAssets ≤ read.length) := by
  induction items generalizing state assets with
  | nil =>
      refine ⟨knows, rfl, ?_⟩
      rw [AssetsState.pushItems, knows.truncated below, eq_comm, decide_eq_false_iff_not]
      exact not_le.mpr below
  | cons item items induction =>
      have read : (state.readItem reader result collection item).Knows maxAssets assets :=
        ⟨knows.known, knows.seenMints, knows.total, knows.truncated⟩
      rw [AssetsState.pushItems]
      cases parsed : nftAsset item with
      | none =>
          rw [filterMap_cons_none parsed]
          exact induction read below
      | some asset =>
          rw [filterMap_cons_some parsed, takeDistinct]
          dsimp only
          have seen : asset.mint ∈ (state.readItem reader result collection item).seenMints ↔
              asset.mint ∈ assets.map SolanaAsset.mint := read.seenMints asset.mint
          split
          · next known =>
              rw [if_pos (seen.mp known)]
              exact induction read below
          · next fresh =>
              rw [if_neg (seen.not.mp fresh)]
              have length : ((state.readItem reader result collection item).push
                  asset).snapshot.assets.length = assets.length + 1 := by
                rw [AssetsState.push, read.known]
                exact length_append
              have mints : ∀ mint, mint ∈ asset.mint ::
                  (state.readItem reader result collection item).seenMints ↔
                    mint ∈ (assets ++ [asset]).map SolanaAsset.mint := by
                intro mint
                rw [mem_cons, read.seenMints, map_append, mem_append,
                  map_singleton, mem_singleton]
                exact or_comm
              have pushed : ((state.readItem reader result collection item).push
                  asset).snapshot.assets = assets ++ [asset] := by
                rw [AssetsState.push, read.known]
              rw [length]
              split
              · next reached =>
                  have full : maxAssets ≤ (assets ++ [asset]).length := by
                    rw [length_append]
                    exact reached
                  refine ⟨⟨pushed, mints, knows.total, ?_⟩, rfl, ?_⟩
                  · intro room
                    omega
                  · exact (decide_eq_true full).symm
              · next room =>
                  apply induction ⟨pushed, mints, knows.total, fun _ => knows.truncated below⟩
                  rw [length_append]
                  exact not_le.mp room

/-- The state of the loop before the given page. -/
structure AssetsShow (maxAssets : Nat) (replies : Nat → Reply) (page : Nat)
    (state : AssetsState) : Prop where
  knows : state.Knows maxAssets (assetsBefore maxAssets replies page)
  seenPages : ∀ identity, identity ∈ state.seenPages ↔ identity ≠ [] ∧
    ∃ earlier < page, pageIdentity (assetItems (replies earlier)) = identity
  before : ∀ earlier < page, AssetsContinue maxAssets replies earlier

theorem assetsBefore_zero : assetsBefore maxAssets replies 0 = [] := take_nil

theorem AssetsShow.start : AssetsShow maxAssets replies 0 .start where
  knows := by
    rw [assetsBefore_zero]
    exact ⟨rfl, fun _ => Iff.rfl, rfl, fun _ => rfl⟩
  seenPages := by simp [AssetsState.start]
  before := by simp

theorem finishAssets_truncate (state : AssetsState) (showUnverified : Bool) :
    (finishAssets showUnverified state.truncate).value.assets = state.snapshot.assets ∧
      (finishAssets showUnverified state.truncate).status = .truncated := by
  refine ⟨rfl, ?_⟩
  rw [finishAssets, FetchOutcome.ok, EvidenceStatus.fromCount_eq_truncated]
  rfl

theorem finishAssets_of_total (total : state.snapshot.total = none) (showUnverified : Bool) :
    (finishAssets showUnverified state).value.assets = state.snapshot.assets ∧
      (finishAssets showUnverified state).status =
        .fromCount state.snapshot.assets.length state.snapshot.truncated := by
  refine ⟨rfl, ?_⟩
  rw [finishAssets, FetchOutcome.ok, total, any_none, Bool.or_false]

theorem mem_seenPages {seenPages : List Text}
    (seen : ∀ identity, identity ∈ seenPages ↔ identity ≠ [] ∧
      ∃ earlier < page, pageIdentity (assetItems (replies earlier)) = identity) {items : List Json}
    (read : assetItems (replies page) = items) (identity : Text) :
    (identity ∈ if (pageIdentity items).isEmpty then seenPages
        else pageIdentity items :: seenPages) ↔
      identity ≠ [] ∧ ∃ earlier < page + 1,
        pageIdentity (assetItems (replies earlier)) = identity := by
  have split_ : (∃ earlier < page + 1,
      pageIdentity (assetItems (replies earlier)) = identity) ↔
      (∃ earlier < page, pageIdentity (assetItems (replies earlier)) = identity) ∨
        pageIdentity items = identity := by
    constructor
    · intro found
      rcases found with ⟨earlier, less, same⟩
      rcases Nat.lt_succ_iff_lt_or_eq.mp less with lower | equal
      · exact .inl ⟨earlier, lower, same⟩
      · rw [equal, read] at same
        exact .inr same
    · intro found
      rcases found with ⟨earlier, less, same⟩ | same
      · exact ⟨earlier, Nat.lt_succ_of_lt less, same⟩
      · exact ⟨page, Nat.lt_succ_self page, by rw [read, same]⟩
  rw [split_]
  split
  · next none_ =>
      rw [List.isEmpty_iff] at none_
      rw [seen, none_]
      constructor
      · exact fun known => ⟨known.1, .inl known.2⟩
      · intro known
        rcases known.2 with earlier | same
        · exact ⟨known.1, earlier⟩
        · exact absurd same.symm known.1
  · next some_ =>
      rw [List.isEmpty_iff] at some_
      rw [mem_cons, seen]
      constructor
      · intro known
        rcases known with same | known
        · exact ⟨same ▸ some_, .inr same.symm⟩
        · exact ⟨known.1, .inl known.2⟩
      · intro known
        rcases known.2 with earlier | same
        · exact .inr ⟨known.1, earlier⟩
        · exact .inl same.symm

/-- What one turn does with a page. -/
theorem assetsTurn_spec (shows : AssetsShow maxAssets replies page state)
    (requested : ¬ AssetsCapped maxAssets replies page) (reader : AssetReader)
    (printJson : Json → Text) (collection : Text) :
    (AssetsFail (replies page) ∧ ∃ detail,
      assetsTurn reader printJson collection maxAssets state (replies page) =
        assetsFailure state detail) ∨
    (¬ AssetsFail (replies page) ∧ AssetsRepeat replies page ∧
      assetsTurn reader printJson collection maxAssets state (replies page) =
        .finishes state.truncate) ∨
    (¬ AssetsFail (replies page) ∧ ¬ AssetsRepeat replies page ∧ ∃ next : AssetsState,
      next.Knows maxAssets (assetsBefore maxAssets replies (page + 1)) ∧
      next.snapshot.truncated = decide (AssetsCapped maxAssets replies (page + 1)) ∧
      (assetsTurn reader printJson collection maxAssets state (replies page) =
          .finishes next ∧ AssetsExhausted maxAssets replies page ∨
        assetsTurn reader printJson collection maxAssets state (replies page) =
          .continues next ∧ ¬ AssetsExhausted maxAssets replies page ∧
          AssetsShow maxAssets replies (page + 1) next)) := by
  have below : (assetsBefore maxAssets replies page).length < maxAssets := not_le.mp requested
  cases reply : replies page with
  | error error => exact .inl ⟨trivial, error.toText, rfl⟩
  | ok payload =>
      rw [assetsTurn]
      cases reported : payload.get? "error" with
      | some error => exact .inl ⟨.inl (by rw [reported]; rfl), printJson error, rfl⟩
      | none =>
          cases found : payload.get? "result" with
          | none => exact .inl ⟨.inr found, _, rfl⟩
          | some result =>
              have accepted : ¬ AssetsFail (.ok payload) := by
                rw [AssetsFail, reported, found]
                exact fun fails => by rcases fails with absent | absent <;> cases absent
              have items : assetItems (replies page) = itemsOrNone (result.get? "items") := by
                rw [reply, assetItems, found, bind_some]
              dsimp only
              by_cases noItems : (itemsOrNone (result.get? "items")).isEmpty = true
              · have none_ := List.isEmpty_iff.mp noItems
                have unchanged : assetsBefore maxAssets replies (page + 1) =
                    assetsBefore maxAssets replies page := by
                  rw [assetsBefore_succ requested, items, none_, filterMap_nil,
                    takeDistinct]
                have notRepeat : ¬ AssetsRepeat replies page := by
                  intro repeats
                  rw [AssetsRepeat, items, none_] at repeats
                  exact repeats.1 rfl
                refine .inr (.inr ⟨accepted, notRepeat, state, ?_, ?_, .inl ⟨?_, ?_⟩⟩)
                · rw [unchanged]
                  exact shows.knows
                · rw [shows.knows.truncated below, eq_comm, decide_eq_false_iff_not,
                    AssetsCapped, unchanged]
                  exact requested
                · rw [if_pos noItems]
                · rw [AssetsExhausted, items, none_, assetsLimit, assetsPageSize]
                  simp only [length_nil]
                  omega
              · rw [if_neg noItems]
                split
                · next known =>
                    refine .inr (.inl ⟨accepted, ?_, rfl⟩)
                    have seen := (shows.seenPages _).mp known.2
                    rw [AssetsRepeat, items]
                    exact seen
                · next fresh =>
                    have notRepeat : ¬ AssetsRepeat replies page := by
                      intro repeats
                      rw [AssetsRepeat, items] at repeats
                      refine fresh ⟨?_, (shows.seenPages _).mpr repeats⟩
                      rw [List.isEmpty_iff]
                      exact repeats.1
                    have length : state.snapshot.assets.length =
                        (assetsBefore maxAssets replies page).length := by
                      rw [shows.knows.known]
                    rw [length]
                    have extended : ∀ seenPages, AssetsState.Knows maxAssets
                        { state with
                          seenPages := seenPages } (assetsBefore maxAssets replies page) :=
                      fun _ => ⟨shows.knows.known, shows.knows.seenMints, shows.knows.total,
                        shows.knows.truncated⟩
                    have read := (extended (if
                      (pageIdentity (itemsOrNone (result.get? "items"))).isEmpty then
                        state.seenPages
                      else
                        pageIdentity (itemsOrNone (result.get? "items")) ::
                          state.seenPages)).pushItems below reader result collection
                      (itemsOrNone (result.get? "items"))
                    rw [← items, ← assetsBefore_succ requested, items] at read
                    refine .inr (.inr ⟨accepted, notRepeat, _, read.1, read.2.2, ?_⟩)
                    split
                    · next short =>
                        refine .inl ⟨rfl, ?_⟩
                        rw [AssetsExhausted, items]
                        exact short
                    · next full =>
                        have notExhausted : ¬ AssetsExhausted maxAssets replies page := by
                          rw [AssetsExhausted, items]
                          exact full
                        refine .inr ⟨rfl, notExhausted, read.1, ?_, ?_⟩
                        · intro identity
                          rw [read.2.1]
                          exact mem_seenPages shows.seenPages items identity
                        · intro earlier less
                          rcases Nat.lt_succ_iff_lt_or_eq.mp less with lower | equal
                          · exact shows.before earlier lower
                          · rw [equal]
                            exact ⟨requested, by rw [reply]; exact accepted, notRepeat,
                              notExhausted⟩

/-- A run with enough fuel to return ends where the pages stop. -/
theorem fetchAssetsFrom_closes {fuel : Nat} (shows : AssetsShow maxAssets replies page state)
    {reader : AssetReader} {printJson : Json → Text} {collection : Text} {showUnverified : Bool}
    (returned : fetchAssetsFrom reader printJson collection maxAssets showUnverified replies
      fuel page state = some outcome) :
    ∃ stop, AssetsStopAt maxAssets replies stop ∧
      AssetsClose maxAssets replies stop outcome := by
  induction fuel generalizing page state with
  | zero => cases returned
  | succ fuel induction =>
      rw [fetchAssetsFrom, shows.knows.known] at returned
      split at returned
      · next capped =>
          cases returned
          have finished := finishAssets_truncate state showUnverified
          rw [shows.knows.known] at finished
          exact ⟨page, ⟨shows.before, fun continues => continues.requested capped⟩,
            fun _ => finished, fun requested => absurd capped requested,
            fun requested => absurd capped requested, fun requested => absurd capped requested⟩
      · next requested =>
          rcases assetsTurn_spec shows requested reader printJson collection with
            ⟨fails, detail, turn⟩ | ⟨accepted, repeats, turn⟩ |
              ⟨accepted, notRepeat, next, knows, truncated, turn⟩
          · rw [turn, assetsFailure, shows.knows.known] at returned
            refine ⟨page, ⟨shows.before, fun continues => continues.accepted fails⟩,
              fun capped => absurd capped requested, fun _ _ => ?_,
              fun _ accepted => absurd fails accepted,
              fun _ accepted => absurd fails accepted⟩
            by_cases none_ : assetsBefore maxAssets replies page = []
            · rw [if_pos (List.isEmpty_iff.mpr none_)] at returned
              cases returned
              rw [none_, if_pos rfl]
              exact ⟨rfl, rfl⟩
            · rw [if_neg (by rwa [List.isEmpty_iff])] at returned
              cases returned
              have finished := finishAssets_truncate state showUnverified
              rw [shows.knows.known] at finished
              rw [if_neg none_]
              exact finished
          · rw [turn] at returned
            cases returned
            have finished := finishAssets_truncate state showUnverified
            rw [shows.knows.known] at finished
            exact ⟨page, ⟨shows.before, fun continues => continues.fresh repeats⟩,
              fun capped => absurd capped requested, fun _ fails => absurd fails accepted,
              fun _ _ _ => finished, fun _ _ notRepeat => absurd repeats notRepeat⟩
          · rcases turn with ⟨turn, exhausted⟩ | ⟨turn, -, nextShows⟩
            · rw [turn] at returned
              cases returned
              have finished := finishAssets_of_total knows.total showUnverified
              rw [knows.known, truncated] at finished
              exact ⟨page, ⟨shows.before, fun continues => continues.full exhausted⟩,
                fun capped => absurd capped requested, fun _ fails => absurd fails accepted,
                fun _ _ repeats => absurd repeats notRepeat, fun _ _ _ => finished⟩
            · rw [turn] at returned
              exact induction nextShows returned

theorem fetchAssetsFrom_returns (stops : AssetsStopAt maxAssets replies stop) (reader : AssetReader)
    (printJson : Json → Text) (collection : Text) (showUnverified : Bool) (remaining : Nat)
    (total : page + remaining = stop) (shows : AssetsShow maxAssets replies page state) :
    ∃ outcome, fetchAssetsFrom reader printJson collection maxAssets showUnverified replies
      (remaining + 1) page state = some outcome := by
  induction remaining generalizing page state with
  | zero =>
      have atStop : page = stop := total
      subst atStop
      rw [fetchAssetsFrom, shows.knows.known]
      split
      · exact ⟨_, rfl⟩
      · next requested =>
          rcases assetsTurn_spec shows requested reader printJson collection with
            ⟨-, detail, turn⟩ | ⟨-, -, turn⟩ |
              ⟨accepted, notRepeat, next, -, -, ⟨turn, -⟩ | ⟨-, full, -⟩⟩
          · rw [turn, assetsFailure]
            cases state.snapshot.assets.isEmpty <;> exact ⟨_, rfl⟩
          · rw [turn]
            exact ⟨_, rfl⟩
          · rw [turn]
            exact ⟨_, rfl⟩
          · exact absurd ⟨requested, accepted, notRepeat, full⟩ stops.here
  | succ remaining induction =>
      have continues := stops.before page (by omega)
      have requested : ¬ maxAssets ≤ (assetsBefore maxAssets replies page).length :=
        continues.requested
      rw [fetchAssetsFrom, shows.knows.known, if_neg requested]
      rcases assetsTurn_spec shows continues.requested reader printJson collection with
        ⟨fails, -⟩ | ⟨-, repeats, -⟩ | ⟨-, -, next, -, -, ⟨-, exhausted⟩ | ⟨turn, -, nextShows⟩⟩
      · exact absurd fails continues.accepted
      · exact absurd repeats continues.fresh
      · exact absurd exhausted continues.full
      · rw [turn]
        exact induction (by omega) nextShows

end Reading

/-! ## Honest outcomes -/

def assetsWellFormed (payload : Json) : Prop :=
  payload.get? "error" = none ∧ hasArray ((payload.get? "result").bind (·.get? "items"))

section Honest

variable (maxAssets : Nat) (replies : Nat → Reply)

/-- The analogue of `CursorEndpoint.Honest` for pages with numbers: a page is accepted
unless it fails or repeats an earlier one. -/
structure AssetsHonest (outcome : FetchOutcome SolanaAssetSnapshot) : Prop where
  keeps : ∃ stop, AssetsStopAt maxAssets replies stop ∧
    ((¬ AssetsCapped maxAssets replies stop ∧ ¬ AssetsFail (replies stop) ∧
        ¬ AssetsRepeat replies stop ∧
        outcome.value.assets = assetsBefore maxAssets replies (stop + 1)) ∨
      ((AssetsCapped maxAssets replies stop ∨ AssetsFail (replies stop) ∨
        AssetsRepeat replies stop) ∧
        outcome.value.assets = assetsBefore maxAssets replies stop))
  complete : outcome.status = .complete ∨ outcome.status = .empty →
    ∃ last, (∀ page ≤ last, Succeeds assetsWellFormed (replies page)) ∧
      (∀ page < last, ¬ AssetsExhausted maxAssets replies page) ∧
      AssetsExhausted maxAssets replies last ∧
      outcome.value.assets = assetsBefore maxAssets replies (last + 1)
  failure : ∀ page, ¬ AssetsCapped maxAssets replies page →
    (∀ earlier < page, Succeeds assetsWellFormed (replies earlier) ∧
      AssetsContinue maxAssets replies earlier) →
    ¬ Succeeds assetsWellFormed (replies page) →
      (assetsBefore maxAssets replies page = [] → outcome.status = .failed) ∧
      (assetsBefore maxAssets replies page ≠ [] → outcome.status = .truncated ∧
        assetsBefore maxAssets replies page <+: outcome.value.assets)

/-- The provider does not answer with full new pages for ever, and the reply where the pages
stop is not a result without items. -/
structure AssetsHonestWhen : Prop where
  stops : ∃ stop, AssetsStopAt maxAssets replies stop
  recognized : ∀ stop, AssetsStopAt maxAssets replies stop →
    ¬ AssetsCapped maxAssets replies stop →
      Succeeds assetsWellFormed (replies stop) ∨ AssetsFail (replies stop)

variable {maxAssets} {replies}

theorem AssetsStopAt.unique {first second : Nat}
    (firstStops : AssetsStopAt maxAssets replies first)
    (secondStops : AssetsStopAt maxAssets replies second) : first = second := by
  by_contra different
  rcases Nat.lt_or_gt_of_ne different with less | greater
  · exact firstStops.here (secondStops.before first less)
  · exact secondStops.here (firstStops.before second greater)

theorem assetItems_of_not_succeeds {reply : Reply} (accepted : ¬ AssetsFail reply)
    (malformed : ¬ Succeeds assetsWellFormed reply) : assetItems reply = [] := by
  cases reply with
  | error error => exact absurd trivial accepted
  | ok payload =>
      rw [AssetsFail, not_or, Bool.not_eq_true, isSome_eq_false_iff,
        isNone_iff_eq_none] at accepted
      rw [assetItems, itemsOrNone]
      cases items : ((payload.get? "result").bind (·.get? "items")).bind Json.asArray? with
      | none => rfl
      | some array =>
          refine absurd ⟨payload, rfl, accepted.1, ?_⟩ malformed
          rw [hasArray, items]
          rfl

theorem AssetsContinue.succeeds (continues : AssetsContinue maxAssets replies page) :
    Succeeds assetsWellFormed (replies page) := by
  by_contra malformed
  apply continues.full
  rw [AssetsExhausted, assetItems_of_not_succeeds continues.accepted malformed,
    length_nil, assetsLimit, assetsPageSize]
  omega

/-- A run that closes is honest exactly when the reply where it stops is recognized. -/
theorem AssetsClose.honest_iff (closes : AssetsClose maxAssets replies stop outcome)
    (stops : AssetsStopAt maxAssets replies stop) :
    AssetsHonest maxAssets replies outcome ↔ AssetsHonestWhen maxAssets replies := by
  constructor
  · intro honest
    refine ⟨⟨stop, stops⟩, ?_⟩
    intro other otherStops requested
    have same := otherStops.unique stops
    subst same
    by_contra unrecognized
    rw [not_or] at unrecognized
    have noItems := assetItems_of_not_succeeds unrecognized.2 unrecognized.1
    have notRepeat : ¬ AssetsRepeat replies other := by
      intro repeats
      rw [AssetsRepeat, noItems] at repeats
      exact repeats.1 rfl
    have closed := closes.exhausted requested unrecognized.2 notRepeat
    have unchanged : assetsBefore maxAssets replies (other + 1) =
        assetsBefore maxAssets replies other := by
      rw [assetsBefore_succ requested, noItems, filterMap_nil, takeDistinct]
    have room : decide (AssetsCapped maxAssets replies (other + 1)) = false := by
      rw [decide_eq_false_iff_not, AssetsCapped, unchanged]
      exact requested
    rw [room] at closed
    have reported := honest.failure other requested
      (fun earlier less => ⟨(stops.before earlier less).succeeds, stops.before earlier less⟩)
      unrecognized.1
    by_cases none_ : assetsBefore maxAssets replies other = []
    · have failed := reported.1 none_
      rw [closed.2] at failed
      exact EvidenceStatus.fromCount_ne_failed _ _ failed
    · have truncated := (reported.2 none_).1
      rw [closed.2, EvidenceStatus.fromCount_eq_truncated] at truncated
      cases truncated
  · intro harmless
    refine ⟨⟨stop, stops, ?_⟩, ?_, ?_⟩
    · by_cases capped : AssetsCapped maxAssets replies stop
      · exact .inr ⟨.inl capped, (closes.capped capped).1⟩
      · by_cases fails : AssetsFail (replies stop)
        · exact .inr ⟨.inr (.inl fails), (closes.failed capped fails).1⟩
        · by_cases repeats : AssetsRepeat replies stop
          · exact .inr ⟨.inr (.inr repeats), (closes.repeated capped fails repeats).1⟩
          · exact .inl ⟨capped, fails, repeats, (closes.exhausted capped fails repeats).1⟩
    · intro complete
      have notTruncated : outcome.status ≠ .truncated := by
        intro truncated
        rw [truncated] at complete
        rcases complete with equal | equal <;> cases equal
      have requested : ¬ AssetsCapped maxAssets replies stop :=
        fun capped => notTruncated (closes.capped capped).2
      have accepted : ¬ AssetsFail (replies stop) := by
        intro fails
        have failed := (closes.failed requested fails).2
        split at failed
        · rw [failed] at complete
          rcases complete with equal | equal <;> cases equal
        · exact notTruncated failed
      have fresh : ¬ AssetsRepeat replies stop :=
        fun repeats => notTruncated (closes.repeated requested accepted repeats).2
      have exhausted : AssetsExhausted maxAssets replies stop := by
        by_contra full
        exact stops.here ⟨requested, accepted, fresh, full⟩
      refine ⟨stop, ?_, fun page less => (stops.before page less).full, exhausted,
        (closes.exhausted requested accepted fresh).1⟩
      intro page within
      rcases within.lt_or_eq with less | equal
      · exact (stops.before page less).succeeds
      · rw [equal]
        exact (harmless.recognized stop stops requested).resolve_right accepted
    · intro page requested before malformed
      have within : page ≤ stop := by
        by_contra later
        exact stops.here (before stop (by omega)).2
      have atStop : page = stop := by
        by_contra different
        exact malformed (stops.before page (by omega)).succeeds
      subst atStop
      have fails := (harmless.recognized page stops requested).resolve_left malformed
      have closed := closes.failed requested fails
      constructor
      · intro none_
        rw [closed.2, if_pos none_]
      · intro some_
        rw [closed.2, if_neg some_, closed.1]
        exact ⟨rfl, prefix_rfl⟩

theorem fetchCollectionAssets_honest_iff (reader : AssetReader) (printJson : Json → Text)
    {apiKey : Option Text} (hasKey : apiKey.isSome = true) (collection : Text)
    (maxAssets : Nat) (showUnverified : Bool) (replies : Nat → Reply) :
    (∃ fuel outcome, fetchCollectionAssets reader printJson apiKey collection maxAssets
        showUnverified replies fuel = some outcome ∧
      AssetsHonest maxAssets replies outcome) ↔ AssetsHonestWhen maxAssets replies := by
  rcases isSome_iff_exists.mp hasKey with ⟨key, rfl⟩
  simp only [fetchCollectionAssets]
  constructor
  · intro found
    rcases found with ⟨fuel, outcome, returned, honest⟩
    rcases fetchAssetsFrom_closes AssetsShow.start returned with ⟨stop, stops, closes⟩
    exact (closes.honest_iff stops).mp honest
  · intro harmless
    rcases harmless.stops with ⟨stop, stops⟩
    rcases fetchAssetsFrom_returns stops reader printJson collection showUnverified stop
      (Nat.zero_add stop) AssetsShow.start with ⟨outcome, returned⟩
    rcases fetchAssetsFrom_closes AssetsShow.start returned with ⟨other, otherStops, closes⟩
    exact ⟨stop + 1, outcome, returned, (closes.honest_iff otherStops).mpr harmless⟩

end Honest

/-! ## The four fetches -/

/-- A fetch is honest: what was requested is reported as it was, and what was not requested
is not claimed to be known. -/
def FetchHonest {Row : Type} (endpoint : CursorEndpoint Row) (wellFormed : Json → Prop)
    (address : Option Text) (replies : Nat → Reply) (pages : Nat)
    (outcome : FetchOutcome (List Row)) : Prop :=
  match address with
  | none => NotFetched outcome
  | some _ => endpoint.Honest wellFormed replies pages outcome

theorem FetchHonest.iff_of_closes {Row : Type} {endpoint : CursorEndpoint Row}
    {wellFormed : Json → Prop} {address : Option Text} {replies : Nat → Reply} {pages : Nat}
    {outcome : FetchOutcome (List Row)} {degraded : Bool}
    (checked : ∀ payload, wellFormed payload → endpoint.providerError payload = none)
    (unreachable : address = none → NotFetched outcome)
    (reachable : ∀ url, address = some url → ∃ stop, endpoint.StopsAt replies pages stop ∧
      endpoint.Closes replies stop degraded outcome) :
    FetchHonest endpoint wellFormed address replies pages outcome ↔
      (address ≠ none → endpoint.HonestWhen wellFormed replies pages degraded) := by
  cases address with
  | none => exact ⟨fun _ requested => absurd rfl requested, fun _ => unreachable rfl⟩
  | some url =>
      rcases reachable url rfl with ⟨stop, stops, closes⟩
      rw [FetchHonest, closes.honest_iff stops checked]
      exact ⟨fun honest _ => honest, fun honest => honest (fun none_ => by cases none_)⟩

section Fetches

variable {Transfer Holder Sale : Type}

def HoldersHonest (parseHolder : Json → List Holder) (address : Option Text)
    (withBalances ownersOnly : Nat → Reply) (pages : Nat)
    (outcome : FetchOutcome (List Holder)) : Prop :=
  (¬ Oversized parseHolder withBalances pages →
    FetchHonest (holdersEndpoint parseHolder) holdersWellFormed address withBalances pages
      outcome) ∧
  (Oversized parseHolder withBalances pages →
    FetchHonest (holdersEndpoint parseHolder) holdersWellFormed address ownersOnly pages
      outcome)

def AssetsFetchHonest (reader : AssetReader) (printJson : Json → Text) (apiKey : Option Text)
    (collection : Text) (maxAssets : Nat) (showUnverified : Bool) (replies : Nat → Reply) :
    Prop :=
  ∃ fuel outcome, fetchCollectionAssets reader printJson apiKey collection maxAssets
    showUnverified replies fuel = some outcome ∧
      match apiKey with
      | none => outcome.value.assets = [] ∧ outcome.status = .notRequested
      | some _ => AssetsHonest maxAssets replies outcome

def rateLimited : Reply := .ok (.object [("error", .string "rate limit".toList)])

end Fetches

end NftData.Analysis2
