import NftData.Foundation.Json
import NftData.Foundation.LastByKey

namespace NftData.Analysis2

/-! # Transactions of Solana signatures

A batch request asks for the transactions of many signatures. The rows of the reply are found by
their ids, or else by their positions. -/

section

-- How the library prints a JSON value.
variable (print : Json → Text)

/-- A transaction, nothing where the provider knows none, or a failure. -/
abbrev TransactionResult := Except Text (Option Json)

abbrev TransactionRow := Text × TransactionResult

/-- `matches!(result, Ok(Some(_)))`. -/
def isTransaction : TransactionResult → Bool
  | .ok (some _) => true
  | _ => false

def requestId (batchIdx index : Nat) : Text :=
  "tx-".toList ++ Text.ofNat batchIdx ++ "-".toList ++ Text.ofNat index

def rowId (response : Json) : Option Text :=
  match response.get? "id" with
  | some (.string text) => some text
  | some (.integer value) => some (print (.integer value))
  | some (.float value) => some (print (.float value))
  | _ => none

def transactionFromRpcResponse (response : Json) : TransactionResult :=
  match response.get? "error" with
  | some failure => .error (print failure)
  | none =>
      .ok (match response.get? "result" with
        | none | some .null => none
        | some result => some result)

def batchResult (responses : List Json) (batchIdx index : Nat) : TransactionResult :=
  match (lastByKey (rowId print) responses (requestId batchIdx index)).or responses[index]? with
  | some response => transactionFromRpcResponse print response
  | none => .error "missing batch response".toList

def parseTransactionBatchPayload (payload : Json) (batchIdx : Nat) (signatures : List Text) :
    Option (List TransactionRow) := do
  let responses ← payload.asArray?
  some (signatures.zipIdx.map fun entry =>
    (entry.1, batchResult print responses batchIdx entry.2))

/-- How the requests of a batch end: the batch request with a payload or the text of its error,
and every request of its own likewise, unless its task ends with a join error. -/
structure BatchReply where
  posted : Except Text Json
  single : Nat → Except Text (Except Text Json)

def singleRow (reply : BatchReply) (signature : Text) (index : Nat) : TransactionRow :=
  match reply.single index with
  | .ok (.ok payload) => (signature, transactionFromRpcResponse print payload)
  | .ok (.error failure) => (signature, .error failure)
  | .error failure => ([], .error ("getTransaction join failed: ".toList ++ failure))

def fetchTransactionsSingles (signatures : List Text) (reply : BatchReply) :
    List TransactionRow :=
  signatures.zipIdx.map fun entry => singleRow print reply entry.1 entry.2

def fetchTransactionsBatch (batchIdx : Nat) (signatures : List Text) (reply : BatchReply) :
    List TransactionRow :=
  if signatures.isEmpty then
    []
  else
    match reply.posted with
    | .ok payload =>
        (parseTransactionBatchPayload print payload batchIdx signatures).getD
          (fetchTransactionsSingles print signatures reply)
    | .error _ => fetchTransactionsSingles print signatures reply

/-! ## Pairing -/

/-- A row answers a request when it has the request's id, or when no row has an id and it stands
at the request's position. -/
def IsRowOf (responses : List Json) (batchIdx index : Nat) (response : Json) : Prop :=
  (response ∈ responses ∧ rowId print response = some (requestId batchIdx index)) ∨
    ((∀ other ∈ responses, rowId print other = none) ∧ responses[index]? = some response)

/-- A result is what a row of the request says, and a failure when the request has no row. -/
def Paired (responses : List Json) (batchIdx index : Nat) (result : TransactionResult) : Prop :=
  (∃ response, IsRowOf print responses batchIdx index response ∧
      result = transactionFromRpcResponse print response) ∨
    ((∀ response, ¬ IsRowOf print responses batchIdx index response) ∧
      ∃ failure, result = .error failure)

/-- A request has a row, or no successful row stands at its position. -/
def RowFound (responses : List Json) (batchIdx index : Nat) : Prop :=
  (∃ response, IsRowOf print responses batchIdx index response) ∨
    ∀ response, responses[index]? = some response → (response.get? "error").isSome

/-- Every signature has its result, in order. Over a batch reply it is paired with its own row,
and otherwise with the reply to its own request. -/
def PairsEachSignature (batchIdx : Nat) (signatures : List Text) (reply : BatchReply) : Prop :=
  ∀ index signature, signatures[index]? = some signature →
    ∃ row, (fetchTransactionsBatch print batchIdx signatures reply)[index]? = some row ∧
      match reply.posted with
      | .ok (.array responses) => row.1 = signature ∧ Paired print responses batchIdx index row.2
      | _ => (∃ failure, row.2 = .error failure) ∨
          ∃ payload, reply.single index = .ok (.ok payload) ∧
            row = (signature, transactionFromRpcResponse print payload)

/-- The condition on a reply: over a batch reply every request has a row, or no successful row
stands at its position. -/
def RowsFound (batchIdx : Nat) (signatures : List Text) (reply : BatchReply) : Prop :=
  ∀ responses, reply.posted = .ok (.array responses) →
    ∀ index < signatures.length, RowFound print responses batchIdx index

variable {print} {responses : List Json} {batchIdx index : Nat} {response : Json}

theorem isError_transactionFromRpcResponse :
    (∃ failure, transactionFromRpcResponse print response = .error failure) ↔
      (response.get? "error").isSome := by
  unfold transactionFromRpcResponse
  cases response.get? "error" <;> simp

theorem batchResult_of_id (member : response ∈ responses)
    (own : rowId print response = some (requestId batchIdx index)) :
    ∃ row, IsRowOf print responses batchIdx index row ∧
      batchResult print responses batchIdx index = transactionFromRpcResponse print row := by
  cases found : lastByKey (rowId print) responses (requestId batchIdx index) with
  | none => exact absurd own (lastByKey_eq_none_iff.mp found response member)
  | some row =>
      exact ⟨row, .inl ⟨mem_of_lastByKey found, key_of_lastByKey found⟩, by
        rw [batchResult, found, Option.some_or]⟩

theorem batchResult_of_no_id
    (missing : ∀ response ∈ responses,
      rowId print response ≠ some (requestId batchIdx index)) :
    batchResult print responses batchIdx index =
      match responses[index]? with
      | some response => transactionFromRpcResponse print response
      | none => .error "missing batch response".toList := by
  rw [batchResult, lastByKey_eq_none_iff.mpr missing, Option.none_or]

theorem paired_batchResult_iff :
    Paired print responses batchIdx index (batchResult print responses batchIdx index) ↔
      RowFound print responses batchIdx index := by
  by_cases named : ∃ response ∈ responses,
      rowId print response = some (requestId batchIdx index)
  · rcases named with ⟨response, member, own⟩
    rcases batchResult_of_id member own with ⟨row, isRow, result⟩
    exact ⟨fun _ => .inl ⟨row, isRow⟩, fun _ => .inl ⟨row, isRow, result⟩⟩
  · have missing : ∀ response ∈ responses,
        rowId print response ≠ some (requestId batchIdx index) :=
      fun response member own => named ⟨response, member, own⟩
    have taken := batchResult_of_no_id missing
    have isRow_iff : ∀ row, IsRowOf print responses batchIdx index row ↔
        (∀ other ∈ responses, rowId print other = none) ∧ responses[index]? = some row := by
      intro row
      exact or_iff_right fun own => missing row own.1 own.2
    constructor
    · rintro (⟨row, isRow, -⟩ | ⟨-, failure, isFailure⟩)
      · exact .inl ⟨row, isRow⟩
      · right
        intro response here
        rw [taken, here] at isFailure
        exact isError_transactionFromRpcResponse.mp ⟨failure, isFailure⟩
    · rintro (⟨row, isRow⟩ | failed)
      · refine .inl ⟨row, isRow, ?_⟩
        rw [taken, ((isRow_iff row).mp isRow).2]
      · by_cases some_row : ∃ row, IsRowOf print responses batchIdx index row
        · rcases some_row with ⟨row, isRow⟩
          refine .inl ⟨row, isRow, ?_⟩
          rw [taken, ((isRow_iff row).mp isRow).2]
        · refine .inr ⟨fun row isRow => some_row ⟨row, isRow⟩, ?_⟩
          rw [taken]
          cases here : responses[index]? with
          | none => exact ⟨_, rfl⟩
          | some response =>
              exact isError_transactionFromRpcResponse.mpr (failed response here)

variable {signatures : List Text} {reply : BatchReply}

theorem fetchTransactionsBatch_array (posted : reply.posted = .ok (.array responses)) :
    fetchTransactionsBatch print batchIdx signatures reply =
      signatures.zipIdx.map fun entry =>
        (entry.1, batchResult print responses batchIdx entry.2) := by
  unfold fetchTransactionsBatch
  split
  · next empty => rw [List.isEmpty_iff.mp empty, List.zipIdx_nil, List.map_nil]
  · simp [posted, parseTransactionBatchPayload, Json.asArray?]

theorem fetchTransactionsBatch_singles
    (notArray : ∀ responses, reply.posted ≠ .ok (.array responses)) :
    fetchTransactionsBatch print batchIdx signatures reply =
      fetchTransactionsSingles print signatures reply := by
  unfold fetchTransactionsBatch
  split
  · next empty => rw [List.isEmpty_iff.mp empty, fetchTransactionsSingles, List.zipIdx_nil,
      List.map_nil]
  · cases isPosted : reply.posted with
    | error failure => rfl
    | ok payload =>
        cases payload with
        | array responses => exact absurd isPosted (notArray responses)
        | _ => rfl

theorem pairsEachSignature_iff :
    PairsEachSignature print batchIdx signatures reply ↔
      RowsFound print batchIdx signatures reply := by
  by_cases isArray : ∃ responses, reply.posted = .ok (.array responses)
  · rcases isArray with ⟨responses, posted⟩
    have only : RowsFound print batchIdx signatures reply ↔
        ∀ index < signatures.length, RowFound print responses batchIdx index := by
      constructor
      · exact fun found => found responses posted
      · intro found other isOther
        rw [posted] at isOther
        cases isOther
        exact found
    rw [only]
    simp only [PairsEachSignature, fetchTransactionsBatch_array posted, posted,
      List.getElem?_map, List.getElem?_zipIdx, Nat.zero_add, ← paired_batchResult_iff]
    constructor
    · intro pairs index bound
      rcases pairs index signatures[index] (List.getElem?_eq_getElem bound) with
        ⟨row, isRow, -, paired⟩
      rw [List.getElem?_eq_getElem bound] at isRow
      cases isRow
      exact paired
    · intro pairs index signature found
      have bound := (List.getElem?_eq_some_iff.mp found).1
      exact ⟨_, by rw [found]; rfl, rfl, pairs index bound⟩
  · have notArray : ∀ responses, reply.posted ≠ .ok (.array responses) :=
      fun responses posted => isArray ⟨responses, posted⟩
    refine iff_of_true ?_ fun responses posted => absurd posted (notArray responses)
    intro index signature found
    have isRow : (fetchTransactionsSingles print signatures reply)[index]? =
        some (singleRow print reply signature index) := by
      simp [fetchTransactionsSingles, List.getElem?_zipIdx, found]
    refine ⟨_, fetchTransactionsBatch_singles notArray ▸ isRow, ?_⟩
    have own : (∃ failure, (singleRow print reply signature index).2 = .error failure) ∨
        ∃ payload, reply.single index = .ok (.ok payload) ∧
          singleRow print reply signature index =
            (signature, transactionFromRpcResponse print payload) := by
      unfold singleRow
      split
      · next payload isSingle => exact .inr ⟨payload, isSingle, rfl⟩
      · next failure isSingle => exact .inl ⟨failure, rfl⟩
      · next failure isSingle => exact .inl ⟨_, rfl⟩
    split
    · next responses posted => exact absurd posted (notArray responses)
    · exact own

end

/-- Of two requests only the second is answered. -/
def partialReply : BatchReply where
  posted := .ok (.array [.object [("id", .string "tx-0-1".toList), ("result", .bool true)]])
  single _ := .error []

/-- The first signature then gets the transaction of the second. -/
theorem fetchTransactionsBatch_misplaced :
    fetchTransactionsBatch (fun _ => []) 0 ["first".toList, "second".toList] partialReply =
        [("first".toList, .ok (some (.bool true))), ("second".toList, .ok (some (.bool true)))] ∧
      ¬ PairsEachSignature (fun _ => []) 0 ["first".toList, "second".toList] partialReply := by
  refine ⟨rfl, fun pairs => ?_⟩
  rcases pairsEachSignature_iff.mp pairs _ rfl 0 (by decide) with ⟨response, own⟩ | failed
  · rcases own with ⟨member, isOwn⟩ | ⟨nameless, -⟩
    · rcases List.mem_singleton.mp member with rfl
      exact absurd isOwn (by decide)
    · exact absurd (nameless _ List.mem_cons_self) (by decide)
  · exact absurd (failed _ rfl) (by decide)

end NftData.Analysis2
