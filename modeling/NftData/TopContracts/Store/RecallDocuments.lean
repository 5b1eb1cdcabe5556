import NftData.TopContracts.Types
import NftData.Foundation.TakeDistinct

namespace NftData.TopContracts

/-! # Recall documents of metadata

The store keeps one document for each contract of a chain, by which the contract is found
again. SQL chooses a row for each contract, and the rows it chose are read in batches. -/

open List

structure FeatureRow (Token : Type) where
  rowid : Nat
  contractAddress : Text
  tokenId : Token
  metadataJson : Option Text
  deriving DecidableEq

structure PreparedMetadataRecallRow where
  featureRowid : Nat
  contractAddress : Text
  recallDoc : Text
  deriving DecidableEq

/-- A chain of the store over the database and the libraries: `arg_min` picks a row with the
smallest key, `ORDER BY` puts the rows of a contract in the order of their token ids, and an
empty document has no terms. -/
structure RecallStore (Token : Type) [LinearOrder Token] where
  chain : Chain
  lower : Text → Text
  argMin : List (FeatureRow Token) → Option (FeatureRow Token)
  argMin_isSome : ∀ rows, rows ≠ [] → (argMin rows).isSome
  argMin_least : ∀ rows, ∀ row ∈ argMin rows,
    row ∈ rows ∧ ∀ other ∈ rows, row.tokenId ≤ other.tokenId
  orderBy : (FeatureRow Token → Text) → List (FeatureRow Token) → List (FeatureRow Token)
  orderBy_perm : ∀ contract rows, (orderBy contract rows).Perm rows
  orderBy_sorted : ∀ contract rows, (orderBy contract rows).Pairwise fun first second =>
    contract first = contract second → first.tokenId ≤ second.tokenId
  prefilterDocument : Text → Text
  hasTerms : Text → Bool
  hasTerms_nil : hasTerms [] = false

def maxMetadataBytesForDedup : Nat := 64 * 1024

/-- The `trim` of SQL removes spaces only. -/
def sqlTrim (text : Text) : Text := (text.dropWhile (· = ' ')).rdropWhile (· = ' ')

def sqlMetadataJsonEligible (metadataJson : Option Text) : Bool :=
  let trimmed := sqlTrim (metadataJson.getD [])
  trimmed.length ≤ maxMetadataBytesForDedup && (trimmed.startsWith '{' || trimmed.startsWith '[')

def metadataIsDedupEligible (metadataJson : Text) : Bool :=
  let trimmed := metadataJson.trim
  trimmed ≠ [] && trimmed.utf8Length ≤ maxMetadataBytesForDedup &&
    (trimmed.startsWith '{' || trimmed.startsWith '[')

namespace RecallStore

variable {Token : Type} [LinearOrder Token] (store : RecallStore Token)

def metadataRecallDocument (metadataJson : Text) : Text :=
  if metadataIsDedupEligible metadataJson then store.prefilterDocument metadataJson else []

def sqlContract (row : FeatureRow Token) : Text :=
  if store.chain = .solana then sqlTrim row.contractAddress
  else store.lower (sqlTrim row.contractAddress)

/-- `MetadataRecallSourceRow::prepare`. -/
def prepare (row : FeatureRow Token) : Option PreparedMetadataRecallRow :=
  let recallDoc := store.metadataRecallDocument (row.metadataJson.getD [])
  if store.hasTerms recallDoc then some ⟨row.rowid, store.sqlContract row, recallDoc⟩ else none

/-- The rows that `refresh_contract_representatives_for_chain` chooses for metadata. -/
def contractRepresentatives (rows : List (FeatureRow Token)) : List (FeatureRow Token) :=
  (rows.map store.sqlContract).dedup.filterMap fun contract =>
    store.argMin (rows.filter fun row =>
      store.sqlContract row = contract && sqlMetadataJsonEligible row.metadataJson)

def readBatch (batchSize : Nat) (rows : List (FeatureRow Token)) (last : Int) :
    List (FeatureRow Token) :=
  ((rows.filter fun row => last < row.rowid).insertionSort
    fun first second => first.rowid ≤ second.rowid).take batchSize

omit [LinearOrder Token] in
theorem mem_readBatch {batchSize : Nat} {rows : List (FeatureRow Token)} {last : Int}
    {row : FeatureRow Token} (member : row ∈ readBatch batchSize rows last) :
    row ∈ rows ∧ last < row.rowid := by
  simpa using mem_of_mem_take member

omit [LinearOrder Token] in
theorem filter_behind {rows : List (FeatureRow Token)} {last cursor : Int} (later : last < cursor) :
    (rows.filter fun row => cursor < row.rowid) =
      (rows.filter fun row => last < row.rowid).filter fun row => cursor < row.rowid := by
  rw [filter_filter]
  apply filter_congr
  grind

def readBatches (batchSize : Nat) (rows : List (FeatureRow Token)) (last : Int) :
    List (FeatureRow Token) :=
  let fetched := readBatch batchSize rows last
  match _isLast : fetched.getLast? with
  | none => []
  | some lastRow =>
      if fetched.length < batchSize then fetched
      else fetched ++ readBatches batchSize rows lastRow.rowid
termination_by (rows.filter fun row => last < row.rowid).length
decreasing_by
  have read := mem_readBatch (List.mem_of_getLast? _isLast)
  rw [filter_behind read.2, length_filter_lt_length_iff_exists]
  exact ⟨lastRow, mem_filter.mpr ⟨read.1, by simpa using read.2⟩, by simp⟩

/-- The first usable row of each contract whose representative was not usable. -/
def resolveMetadataRepresentativeFallbacks (rows : List (FeatureRow Token))
    (unusable : List Text) : List (FeatureRow Token) :=
  let candidates := store.orderBy store.sqlContract (rows.filter fun row =>
    store.sqlContract row ∈ unusable && sqlMetadataJsonEligible row.metadataJson)
  firstByKey store.sqlContract [] (candidates.filter fun row =>
    (store.prepare row).isSome)

def refreshMetadataRecallDocs (batchSize : Nat) (rows : List (FeatureRow Token)) :
    List PreparedMetadataRecallRow :=
  let prepare := store.prepare
  let read := readBatches batchSize (store.contractRepresentatives rows) (-1)
  let unusable := (read.filter fun row => (prepare row).isNone).map store.sqlContract
  read.filterMap prepare ++ (store.resolveMetadataRepresentativeFallbacks rows unusable).filterMap prepare


omit [LinearOrder Token] in
/-- What is behind the last row of a sorted batch is what the batch leaves. -/
theorem readBatches_perm {batchSize : Nat} (positive : 0 < batchSize)
    {rows : List (FeatureRow Token)} (distinct : (rows.map FeatureRow.rowid).Nodup) (last : Int) :
    (readBatches batchSize rows last).Perm (rows.filter fun row => last < row.rowid) := by
  fun_induction readBatches batchSize rows last with
  | case1 last fetched isLast =>
      have empty : fetched = [] := List.getLast?_eq_none_iff.mp isLast
      rcases take_eq_nil_iff.mp empty with zero | empty
      · omega
      · exact ((perm_insertionSort _ _).symm.trans (.of_eq empty)).symm
  | case2 last fetched lastRow isLast short =>
      have whole : fetched = _ := take_of_length_le (by
        have length : fetched.length = _ := length_take
        omega)
      rw [whole]
      exact perm_insertionSort _ _
  | case3 last fetched lastRow isLast full induction =>
      have perm := perm_insertionSort (fun first second : FeatureRow Token =>
        first.rowid ≤ second.rowid) (rows.filter fun row => last < row.rowid)
      have ordered := pairwise_insertionSort (fun first second : FeatureRow Token =>
        first.rowid ≤ second.rowid) (rows.filter fun row => last < row.rowid)
      generalize isSorted : (rows.filter fun row => last < row.rowid).insertionSort
        (fun first second => first.rowid ≤ second.rowid) = values at ordered perm
      have apart := (perm.map _).nodup_iff.mpr (distinct.sublist (filter_sublist.map _))
      have sorted : values.Pairwise fun first second => first.rowid < second.rowid :=
        ordered.imp₂ (fun _ _ => lt_of_le_of_ne) (pairwise_map.mp apart)
      have isFetched : fetched = values.take batchSize := congrArg (List.take batchSize) isSorted
      rw [isFetched] at isLast ⊢
      have behind : (values.filter fun row => (lastRow.rowid : Int) < row.rowid) =
          values.drop batchSize := by
        obtain ⟨front, isFront⟩ := List.getLast?_eq_some_iff.mp isLast
        rw [← take_append_drop batchSize values, isFront] at sorted
        have behindLast := pairwise_append.mp sorted
        have beforeLast := pairwise_append.mp behindLast.1
        nth_rewrite 1 [← take_append_drop batchSize values]
        rw [filter_append, filter_eq_nil_iff.mpr, nil_append,
          filter_eq_self.mpr]
        · intro row member
          simpa using behindLast.2.2 lastRow (by simp) row member
        · intro row member
          rw [isFront, mem_append, mem_singleton] at member
          rcases member with inFront | rfl
          · have less := beforeLast.2.2 row inFront lastRow (by simp)
            simp
            omega
          · simp
      have later := (mem_readBatch (List.mem_of_getLast? (isFetched ▸ isLast))).2
      refine (induction.append_left _).trans ?_
      rw [filter_behind later]
      refine ((perm.symm.filter _).append_left _).trans ?_
      rw [behind, take_append_drop]
      exact perm

variable {store} {rows : List (FeatureRow Token)} {row other : FeatureRow Token}

def Usable (store : RecallStore Token) (row : FeatureRow Token) : Prop :=
  metadataIsDedupEligible (row.metadataJson.getD []) = true ∧
    store.hasTerms (store.prefilterDocument (row.metadataJson.getD [])) = true

theorem prepare_isSome : (store.prepare row).isSome ↔ store.Usable row := by
  unfold prepare metadataRecallDocument Usable
  by_cases eligible : metadataIsDedupEligible (row.metadataJson.getD []) = true <;>
    simp [eligible, store.hasTerms_nil]

theorem prepare_recalled {entry : PreparedMetadataRecallRow}
    (prepared : store.prepare row = some entry) :
    entry.featureRowid = row.rowid ∧ entry.contractAddress = store.sqlContract row := by
  simp only [prepare, Option.ite_none_right_eq_some, Option.some.injEq] at prepared
  rw [← prepared.2]
  exact ⟨rfl, rfl⟩

theorem argMin_contract {contract : Text}
    (chosen : row ∈ store.argMin (rows.filter fun row =>
      store.sqlContract row = contract && sqlMetadataJsonEligible row.metadataJson)) :
    (row ∈ rows ∧ store.sqlContract row = contract ∧
        sqlMetadataJsonEligible row.metadataJson = true) ∧
      ∀ other ∈ rows, store.sqlContract other = contract →
        sqlMetadataJsonEligible other.metadataJson = true → row.tokenId ≤ other.tokenId := by
  have least := store.argMin_least _ row chosen
  simp only [mem_filter, Bool.and_eq_true, decide_eq_true_eq] at least
  exact ⟨least.1, fun other inRows same eligible => least.2 other ⟨inRows, same, eligible⟩⟩

theorem mem_contractRepresentatives (member : row ∈ store.contractRepresentatives rows) :
    (row ∈ rows ∧ sqlMetadataJsonEligible row.metadataJson = true) ∧ ∀ other ∈ rows,
      store.sqlContract other = store.sqlContract row →
        sqlMetadataJsonEligible other.metadataJson = true → row.tokenId ≤ other.tokenId := by
  obtain ⟨contract, _, chosen⟩ := mem_filterMap.mp member
  obtain ⟨⟨inRows, rfl, eligible⟩, least⟩ := argMin_contract chosen
  exact ⟨⟨inRows, eligible⟩, least⟩

theorem exists_representative (member : row ∈ rows)
    (eligible : sqlMetadataJsonEligible row.metadataJson = true) :
    ∃ chosen ∈ store.contractRepresentatives rows,
      store.sqlContract chosen = store.sqlContract row := by
  have present : row ∈ rows.filter fun other =>
      store.sqlContract other = store.sqlContract row &&
        sqlMetadataJsonEligible other.metadataJson := by
    simp [member, eligible]
  obtain ⟨chosen, isChosen⟩ :=
    Option.isSome_iff_exists.mp (store.argMin_isSome _ (ne_nil_of_mem present))
  have ofRow : store.sqlContract row ∈ (rows.map store.sqlContract).dedup :=
    mem_dedup.mpr (mem_map_of_mem member)
  exact ⟨chosen, mem_filterMap.mpr ⟨_, ofRow, isChosen⟩, (argMin_contract isChosen).1.2.1⟩

theorem nodup_contractRepresentatives :
    ((store.contractRepresentatives rows).map store.sqlContract).Nodup := by
  rw [contractRepresentatives, map_filterMap]
  refine (nodup_dedup _).filterMap fun first second contract inFirst inSecond => ?_
  obtain ⟨row, chosen, isRow⟩ := Option.map_eq_some_iff.mp inFirst
  obtain ⟨other, otherChosen, isOther⟩ := Option.map_eq_some_iff.mp inSecond
  rw [← (argMin_contract chosen).1.2.1, isRow, ← isOther, (argMin_contract otherChosen).1.2.1]

theorem first_of_mem_firstByKey {key : FeatureRow Token → Text} {values : List (FeatureRow Token)}
    (sorted : values.Pairwise fun first second => key first = key second →
      first.tokenId ≤ second.tokenId)
    (member : row ∈ firstByKey key [] values) (inValues : other ∈ values)
    (same : key row = key other) : row.tokenId ≤ other.tokenId := by
  induction values using List.reverseRecOn with
  | nil => cases inValues
  | append_singleton values last induction =>
      have ordered := pairwise_append.mp sorted
      rw [firstByKey_append, firstByKey, foldl_cons, foldl_nil] at member
      rw [mem_append, mem_singleton] at inValues
      by_cases before : row ∈ firstByKey key [] values
      · rcases inValues with inside | rfl
        · exact induction ordered.1 before inside
        · have inFront := (mem_of_mem_firstByKey key before).resolve_left not_mem_nil
          exact ordered.2.2 row inFront _ (mem_singleton_self _) same
      · split at member
        · exact absurd member before
        · next fresh =>
            have isLast : row = last := by simpa [before] using member
            rcases inValues with inside | isOther
            · refine absurd ?_ fresh
              rw [mem_keys_firstByKey, ← isLast, same]
              exact .inr (mem_map_of_mem inside)
            · rw [isLast, isOther]

theorem mem_candidates {unusable : List Text} :
    row ∈ (store.orderBy store.sqlContract (rows.filter fun row =>
        store.sqlContract row ∈ unusable && sqlMetadataJsonEligible row.metadataJson)).filter
          (fun row => (store.prepare row).isSome) ↔
      (row ∈ rows ∧ store.sqlContract row ∈ unusable ∧
        sqlMetadataJsonEligible row.metadataJson = true) ∧ store.Usable row := by
  rw [mem_filter, (store.orderBy_perm _ _).mem_iff, mem_filter, Bool.and_eq_true,
    decide_eq_true_eq, prepare_isSome]

/-! ## The table -/

def recalledRows (store : RecallStore Token) (rows : List (FeatureRow Token)) :
    List (FeatureRow Token) :=
  let usable := fun row => (store.prepare row).isSome
  let chosen := store.contractRepresentatives rows
  chosen.filter usable ++ store.resolveMetadataRepresentativeFallbacks rows
    ((chosen.filter fun row => !usable row).map store.sqlContract)

theorem recalledRows_least (member : row ∈ store.recalledRows rows) :
    ((row ∈ rows ∧ sqlMetadataJsonEligible row.metadataJson = true) ∧ store.Usable row) ∧
      ∀ other ∈ rows, store.sqlContract other = store.sqlContract row →
        sqlMetadataJsonEligible other.metadataJson = true → store.Usable other →
          row.tokenId ≤ other.tokenId := by
  rcases mem_append.mp member with chosen | resolved
  · have inside := mem_filter.mp chosen
    have least := mem_contractRepresentatives inside.1
    exact ⟨⟨least.1, prepare_isSome.mp inside.2⟩,
      fun other inRows same eligible _ => least.2 other inRows same eligible⟩
  · have inside := (mem_of_mem_firstByKey _ resolved).resolve_left not_mem_nil
    obtain ⟨⟨inRows, unusable, eligible⟩, usable⟩ := mem_candidates.mp inside
    refine ⟨⟨⟨inRows, eligible⟩, usable⟩, fun other otherRows same otherEligible otherUsable => ?_⟩
    refine first_of_mem_firstByKey ((store.orderBy_sorted _ _).filter _) resolved ?_ same.symm
    exact mem_candidates.mpr ⟨⟨otherRows, same ▸ unusable, otherEligible⟩, otherUsable⟩

theorem exists_recalledRow (member : row ∈ rows)
    (eligible : sqlMetadataJsonEligible row.metadataJson = true) (usable : store.Usable row) :
    ∃ recalled ∈ store.recalledRows rows,
      store.sqlContract recalled = store.sqlContract row := by
  obtain ⟨chosen, isChosen, same⟩ :
      ∃ chosen ∈ store.contractRepresentatives rows, _ = store.sqlContract row :=
    exists_representative member eligible
  by_cases isUsable : (store.prepare chosen).isSome = true
  · exact ⟨chosen, mem_append_left _ (mem_filter.mpr ⟨isChosen, isUsable⟩), same⟩
  · have resolved : store.sqlContract row ∈
        (store.resolveMetadataRepresentativeFallbacks rows
          (((store.contractRepresentatives rows).filter fun row =>
            !(store.prepare row).isSome).map store.sqlContract)).map store.sqlContract := by
      rw [resolveMetadataRepresentativeFallbacks, mem_keys_firstByKey]
      refine .inr (mem_map_of_mem (mem_candidates.mpr ⟨⟨member, ?_, eligible⟩, usable⟩))
      exact mem_map.mpr
        ⟨chosen, mem_filter.mpr ⟨isChosen, by simpa using isUsable⟩, same⟩
    obtain ⟨recalled, inFallbacks, isContract⟩ := mem_map.mp resolved
    exact ⟨recalled, mem_append_right _ inFallbacks, isContract⟩

theorem nodup_recalledRows :
    ((store.recalledRows rows).map store.sqlContract).Nodup := by
  rw [recalledRows, map_append, nodup_append']
  refine ⟨nodup_contractRepresentatives.sublist (filter_sublist.map _),
    nodup_keys_firstByKey _ _ nodup_nil, ?_⟩
  rw [disjoint_left]
  intro contract inChosen inFallbacks
  obtain ⟨chosen, isChosen, rfl⟩ := mem_map.mp inChosen
  obtain ⟨row, inside, same⟩ := mem_map.mp inFallbacks
  have candidate := mem_candidates.mp
    ((mem_of_mem_firstByKey _ inside).resolve_left not_mem_nil)
  obtain ⟨other, isOther, sameContract⟩ := mem_map.mp candidate.1.2.1
  rw [mem_filter] at isChosen isOther
  have isSame := inj_on_of_nodup_map nodup_contractRepresentatives isOther.1 isChosen.1
    (sameContract.trans same)
  subst isSame
  simpa [isChosen.2] using isOther.2

variable (store rows)

theorem refreshMetadataRecallDocs_perm {batchSize : Nat} (positive : 0 < batchSize)
    (distinct : (rows.map FeatureRow.rowid).Nodup) :
    (store.refreshMetadataRecallDocs batchSize rows).Perm
      ((store.recalledRows rows).filterMap store.prepare) := by
  have rowids : ((store.contractRepresentatives rows).map FeatureRow.rowid).Nodup := by
    refine nodup_contractRepresentatives.of_map.map_on fun first inFirst second inSecond same => ?_
    exact inj_on_of_nodup_map distinct (mem_contractRepresentatives inFirst).1.1
      (mem_contractRepresentatives inSecond).1.1 same
  have read := readBatches_perm positive rowids (-1)
  rw [filter_eq_self.mpr fun row _ => by simp; omega] at read
  have fallbacks : ∀ unusable others : List Text, unusable.Perm others →
      store.resolveMetadataRepresentativeFallbacks rows unusable =
        store.resolveMetadataRepresentativeFallbacks rows others := by
    intro unusable others perm
    simp only [resolveMetadataRepresentativeFallbacks, perm.mem_iff]
  have prepared : ∀ values : List (FeatureRow Token),
      (values.filter fun row => (store.prepare row).isSome).filterMap store.prepare =
        values.filterMap store.prepare := by
    intro values
    rw [filterMap_filter]
    refine filterMap_congr fun row _ => ?_
    cases store.prepare row <;> rfl
  rw [refreshMetadataRecallDocs, recalledRows, filterMap_append, prepared]
  refine (read.filterMap _).append (.of_eq (congrArg (List.filterMap _) (fallbacks _ _ ?_)))
  simp only [Option.not_isSome]
  exact (read.filter _).map _

theorem map_contractAddress_recalled :
    ((store.recalledRows rows).filterMap store.prepare).map
        PreparedMetadataRecallRow.contractAddress =
      (store.recalledRows rows).map store.sqlContract := by
  rw [map_filterMap, ← filterMap_eq_map]
  refine filterMap_congr fun row member => ?_
  obtain ⟨entry, prepared⟩ := Option.isSome_iff_exists.mp
    (prepare_isSome.mpr (recalledRows_least member).1.2)
  rw [prepared]
  exact congrArg some (prepare_recalled prepared).2

variable {store rows} {table : List PreparedMetadataRecallRow}

/-- Each contract with a usable row has one document, of its smallest usable token. -/
structure IsRecallTable (store : RecallStore Token) (rows : List (FeatureRow Token))
    (table : List PreparedMetadataRecallRow) : Prop where
  once : (table.map PreparedMetadataRecallRow.contractAddress).Nodup
  least : ∀ entry ∈ table, ∃ row ∈ rows, store.prepare row = some entry ∧
    ∀ other ∈ rows, store.sqlContract other = store.sqlContract row → store.Usable other →
      row.tokenId ≤ other.tokenId
  complete : ∀ row ∈ rows, store.Usable row →
    store.sqlContract row ∈ table.map PreparedMetadataRecallRow.contractAddress

theorem IsRecallTable.perm {other : List PreparedMetadataRecallRow}
    (isTable : store.IsRecallTable rows other) (perm : table.Perm other) :
    store.IsRecallTable rows table where
  once := (perm.map _).nodup_iff.mpr isTable.once
  least entry member := isTable.least entry (perm.mem_iff.mp member)
  complete row member usable := (perm.map _).mem_iff.mpr (isTable.complete row member usable)

/-- The table is complete when SQL accepts the smallest usable token of each contract. -/
theorem refreshMetadataRecallDocs_iff (store : RecallStore Token) (rows : List (FeatureRow Token))
    (distinct : (rows.map FeatureRow.rowid).Nodup) {batchSize : Nat} (positive : 0 < batchSize) :
    store.IsRecallTable rows (store.refreshMetadataRecallDocs batchSize rows) ↔
      ∀ row ∈ rows, store.Usable row → ∃ chosen ∈ rows,
        store.sqlContract chosen = store.sqlContract row ∧ store.Usable chosen ∧
          sqlMetadataJsonEligible chosen.metadataJson = true ∧
            ∀ other ∈ rows, store.sqlContract other = store.sqlContract row →
              store.Usable other → chosen.tokenId ≤ other.tokenId := by
  have perm := store.refreshMetadataRecallDocs_perm rows positive distinct
  have addresses := store.map_contractAddress_recalled rows
  constructor
  · intro isTable row member usable
    have table := isTable.perm perm.symm
    have inTable := table.complete row member usable
    rw [addresses] at inTable
    obtain ⟨recalled, isRecalled, same⟩ := mem_map.mp inTable
    have least := recalledRows_least isRecalled
    obtain ⟨entry, prepared⟩ := Option.isSome_iff_exists.mp (prepare_isSome.mpr least.1.2)
    obtain ⟨source, inRows, ofSource, smallest⟩ :=
      table.least entry (mem_filterMap.mpr ⟨recalled, isRecalled, prepared⟩)
    have isSource := inj_on_of_nodup_map distinct inRows least.1.1.1
      ((prepare_recalled ofSource).1.symm.trans (prepare_recalled prepared).1)
    subst isSource
    exact ⟨source, inRows, same, least.1.2, least.1.1.2,
      fun other otherRows sameOther => smallest other otherRows (sameOther.trans same.symm)⟩
  · intro condition
    refine IsRecallTable.perm ⟨?_, ?_, ?_⟩ perm
    · rw [addresses]
      exact nodup_recalledRows
    · intro entry member
      obtain ⟨recalled, isRecalled, prepared⟩ := mem_filterMap.mp member
      have least := recalledRows_least isRecalled
      refine ⟨recalled, least.1.1.1, prepared, fun other otherRows same usable => ?_⟩
      obtain ⟨chosen, inRows, sameChosen, chosenUsable, eligible, smallest⟩ :=
        condition recalled least.1.1.1 least.1.2
      exact (least.2 chosen inRows sameChosen eligible chosenUsable).trans
        (smallest other otherRows same usable)
    · intro row member usable
      obtain ⟨chosen, inRows, same, chosenUsable, eligible, _⟩ := condition row member usable
      obtain ⟨recalled, isRecalled, sameChosen⟩ :=
        exists_recalledRow inRows eligible chosenUsable
      rw [addresses, ← same, ← sameChosen]
      exact mem_map_of_mem isRecalled

end RecallStore

/-! ### A line break in front -/

/-- Texts that are no JSON are documents themselves. -/
def plainStore : RecallStore Nat where
  chain := .ethereum
  lower := Text.toAsciiLowercase
  argMin := List.argmin FeatureRow.tokenId
  argMin_isSome rows nonempty := by
    rw [← Option.ne_none_iff_isSome, Ne, argmin_eq_none]
    exact nonempty
  argMin_least rows row isRow :=
    ⟨argmin_mem isRow, fun other member => le_of_mem_argmin member isRow⟩
  orderBy _ rows := rows.insertionSort fun first second => first.tokenId ≤ second.tokenId
  orderBy_perm _ rows := perm_insertionSort _ rows
  orderBy_sorted _ rows := by
    apply List.Pairwise.imp _ (pairwise_insertionSort _ rows)
    exact fun less _ => less
  prefilterDocument := Text.trim
  hasTerms document := 2 ≤ document.length
  hasTerms_nil := rfl

def plainRow (metadataJson : Text) : FeatureRow Nat := ⟨0, "0xa".toList, 1, some metadataJson⟩

theorem refreshMetadataRecallDocs_plain :
    plainStore.IsRecallTable [plainRow "[cat".toList]
      (plainStore.refreshMetadataRecallDocs 2 [plainRow "[cat".toList]) := by
  apply (RecallStore.refreshMetadataRecallDocs_iff plainStore _ (by decide) (by decide)).mpr
  intro row member usable
  refine ⟨row, member, rfl, usable, ?_, fun other inRows _ _ => ?_⟩
  · rw [mem_singleton.mp member]
    decide
  · rw [mem_singleton.mp member, mem_singleton.mp inRows]

/-- SQL rejects a text with a line break in front. -/
theorem refreshMetadataRecallDocs_lineBreak :
    ¬plainStore.IsRecallTable [plainRow "\n[cat".toList]
      (plainStore.refreshMetadataRecallDocs 2 [plainRow "\n[cat".toList]) := by
  intro isTable
  have perm := plainStore.refreshMetadataRecallDocs_perm [plainRow "\n[cat".toList]
    (show 0 < 2 by decide) (by decide)
  have known := (isTable.perm perm.symm).complete _ mem_cons_self ⟨by decide, by decide⟩
  rw [RecallStore.map_contractAddress_recalled] at known
  obtain ⟨recalled, isRecalled, _⟩ := mem_map.mp known
  have accepted := (RecallStore.recalledRows_least isRecalled).1.1
  rw [mem_singleton.mp accepted.1] at accepted
  exact absurd accepted.2 (by decide)

end NftData.TopContracts
