import NftData.Ethereum.MetadataBatch
import NftData.Foundation.LastByKey
import NftData.Foundation.Numerals

namespace NftData.Ethereum

open Option
open Text (contains ofNat)

/-! # Token URIs over JSON-RPC

One batch request asks the contracts of many tokens for their URIs. The items of the reply are
placed by their ids. -/

open List

/-- An entry of `tokens`: `(contract_address, token_id, standard)`. -/
structure TokenQuery where
  contractAddress : Text
  tokenId : Nat
  standard : TokenStandard
  deriving DecidableEq

def erc721TokenUriSelector : Text := "c87b56dd".toList

def erc1155UriSelector : Text := "0e89341c".toList

def buildTokenUriCallData (tokenId : Nat) (standard : TokenStandard) : Text :=
  "0x".toList ++
    (match standard with
      | .erc721 => erc721TokenUriSelector
      | .erc1155 => erc1155UriSelector) ++ paddedHex tokenId

/-- A call of the batch: its id, the contract and the call data. -/
structure TokenUriCall where
  id : Nat
  contract : Text
  data : Text
  deriving DecidableEq

def tokenUriCalls (tokens : List TokenQuery) : List TokenUriCall :=
  tokens.zipIdx.map fun entry =>
    ⟨entry.2, entry.1.contractAddress, buildTokenUriCallData entry.1.tokenId entry.1.standard⟩

def placeholder : Text := "{id}".toList

/-- `uri.replace("{id}", replacement)`. -/
def replacePlaceholder (replacement : Text) : Text → Text
  | [] => []
  | '{' :: 'i' :: 'd' :: '}' :: rest => replacement ++ replacePlaceholder replacement rest
  | character :: rest => character :: replacePlaceholder replacement rest

def expandUri (tokenId : Nat) (uri : Text) : Text :=
  if !uri.isEmpty && contains uri placeholder then
    replacePlaceholder (ofNat tokenId) uri
  else
    uri

/-- `fetch_token_uri` of one token, where a failed call answers nothing. -/
def fetchTokenUri (tokenId : Nat) (called : Option Text) : Option Text :=
  called.map (expandUri tokenId)

def hexDigit (character : Char) : Option Nat :=
  if '0' ≤ character ∧ character ≤ '9' then
    some (character.toNat - '0'.toNat)
  else if 'a' ≤ character ∧ character ≤ 'f' then
    some (character.toNat - 'a'.toNat + 10)
  else if 'A' ≤ character ∧ character ≤ 'F' then
    some (character.toNat - 'A'.toNat + 10)
  else
    none

def isAsciiSpace (character : Char) : Bool :=
  character == ' ' || (9 ≤ character.toNat && character.toNat ≤ 13)

/-- `bytes.fromhex`, which passes over white space between two bytes. -/
def fromHex : Text → Option Bytes
  | [] => some []
  | [character] => if isAsciiSpace character then some [] else none
  | first :: second :: rest =>
      if isAsciiSpace first then
        fromHex (second :: rest)
      else do
        let high ← hexDigit first
        let low ← hexDigit second
        let bytes ← fromHex rest
        some (UInt8.ofNat (high * 16 + low) :: bytes)

example : fromHex "0a FF".toList = some [10, 255] := by decide

/-- `bytes.decode("utf-8")`. -/
def decodeUtf8 (bytes : Bytes) : Option Text :=
  (String.fromUTF8? ⟨bytes.toArray⟩).map String.toList

def decodeAbiStringResult (result : Option Json) : Option Text := do
  let text ← result.bind Json.asStr?
  match text with
  | '0' :: 'x' :: digits => do
      let raw ← fromHex digits
      if raw.length < 64 then
        none
      else
        let offset := fromBytes (slice raw 0 32)
        if raw.length < offset + 32 then
          none
        else
          let length := fromBytes (slice raw offset (offset + 32))
          let start := offset + 32
          let stop := start + length
          if raw.length < stop then
            none
          else
            decodeUtf8 (slice raw start stop)
  | _ => none

/-- `isinstance(value, int)`: the truth values are integers as well. -/
def asInt? : Json → Option Int
  | .integer value => some value
  | .bool value => some (if value then 1 else 0)
  | _ => none

def itemIndex (count : Nat) (item : Json) : Option Nat := do
  let id ← (item.get? "id").bind asInt?
  if id < 0 ∨ count ≤ id then none else some id.toNat

def hasError (item : Json) : Bool := (item.get? "error").any isTruthy

def decodedUri (item : Json) : Option Text := decodeAbiStringResult (item.get? "result")

/-- Where an item is placed, and what. An item that is no object has no id. -/
def placedItem (tokens : List TokenQuery) (item : Json) : Option (Nat × Option Text) := do
  let index ← itemIndex tokens.length item
  if hasError item then
    none
  else
    let token ← tokens[index]?
    some (index, (decodedUri item).map (expandUri token.tokenId))

/-- What the attempts of a request come to. An attempt raises an exception or yields a document;
a document that is no list is taken for a failure. -/
def receivedItems (attempts : Nat → Option Json) : Option (List Json) :=
  (List.range 3).findSome? fun attempt => (attempts attempt).bind Json.asArray?

def fetchTokenUriBatch (tokens : List TokenQuery) (attempts : Nat → Option Json) :
    List (Option Text) :=
  if tokens.isEmpty then
    []
  else
    match receivedItems attempts with
    | none => List.replicate tokens.length none
    | some items => placeEntries (placedItem tokens) (List.replicate tokens.length none) items

def Answers (index : Nat) (item : Json) : Prop :=
  item.get? "id" = some (.integer index) ∧ hasError item = false

/-- The entry of a token is what a successful item with its id says, with the placeholders
replaced as the stored URIs have them. -/
def IsAnswered (items : List Json) (index tokenId : Nat) (uri : Option Text) : Prop :=
  ((∀ item ∈ items, ¬ Answers index item) → uri = none) ∧
    ((∃ item ∈ items, Answers index item) → ∃ item ∈ items, Answers index item ∧
      uri = (decodedUri item).map (replaceTokenIdPlaceholder tokenId))

def UrisAnswered (tokens : List TokenQuery) (items : List Json) (uris : List (Option Text)) :
    Prop :=
  uris.length = tokens.length ∧
    ∀ index token, tokens[index]? = some token →
      ∃ uri, uris[index]? = some uri ∧ IsAnswered items index token.tokenId uri

/-- The items that a batch works on: none, when every attempt fails. -/
def batchItems (attempts : Nat → Option Json) : List Json := (receivedItems attempts).getD []

/-- The item without an error that is placed last at a token. -/
def lastPlaced (tokens : List TokenQuery) (items : List Json) (index : Nat) : Option Json :=
  lastByKey (fun item => if hasError item then none else itemIndex tokens.length item) items index

/-- The item that is placed last has the integer id of its token and spells no placeholder; or
nothing at all is read from it and no item has the integer id; or another item happens to spell
out what is made of it. -/
def PlainlyAnswered (items : List Json) (index tokenId : Nat) (placed : Json) : Prop :=
  (Answers index placed ∧ ∀ uri ∈ decodedUri placed, contains uri placeholder = false) ∨
    ((∀ item ∈ items, ¬ Answers index item) ∧ decodedUri placed = none) ∨
    ∃ item ∈ items, item ≠ placed ∧ Answers index item ∧
      (decodedUri item).map (replaceTokenIdPlaceholder tokenId) =
        (decodedUri placed).map (replacePlaceholder (ofNat tokenId))

/-! ## Placeholders -/

theorem replaceTokenIdPlaceholder_eq (tokenId : Nat) (uri : Text) :
    replaceTokenIdPlaceholder tokenId uri = replacePlaceholder (paddedHex tokenId) uri := by
  fun_induction replaceTokenIdPlaceholder tokenId uri with
  | case1 => rfl
  | case2 rest induction => rw [replacePlaceholder, induction]
  | case3 character rest noPlaceholder induction =>
      rw [replacePlaceholder.eq_3 _ _ _ noPlaceholder, induction]

variable {uri : Text}

theorem replacePlaceholder_of_absent (absent : contains uri placeholder = false)
    (replacement : Text) :
    replacePlaceholder replacement uri = uri := by
  fun_induction replacePlaceholder replacement uri with
  | case1 => rfl
  | case2 rest induction =>
      have present : contains ('{' :: 'i' :: 'd' :: '}' :: rest) placeholder = true :=
        decide_eq_true (prefix_append placeholder rest).isInfix
      rw [present] at absent
      cases absent
  | case3 character rest noPlaceholder induction =>
      rw [induction]
      apply decide_eq_false
      intro inside
      exact of_decide_eq_false absent (inside.trans (suffix_cons character rest).isInfix)

theorem expandUri_eq (tokenId : Nat) (uri : Text) :
    expandUri tokenId uri = replacePlaceholder (ofNat tokenId) uri := by
  rw [expandUri]
  split
  · rfl
  · next absent =>
      symm
      cases uri with
      | nil => rfl
      | cons head tail =>
          apply replacePlaceholder_of_absent
          simpa using absent

theorem length_replacePlaceholder (uri : Text) :
    ∃ kept count, ∀ replacement,
      (replacePlaceholder replacement uri).length = kept + count * replacement.length := by
  fun_induction replacePlaceholder ([] : Text) uri with
  | case1 => exact ⟨0, 0, fun _ => by simp [replacePlaceholder]⟩
  | case2 rest induction =>
      rcases induction with ⟨kept, count, lengths⟩
      refine ⟨kept, count + 1, fun replacement => ?_⟩
      rw [replacePlaceholder, length_append, lengths]
      ring
  | case3 character rest noPlaceholder induction =>
      rcases induction with ⟨kept, count, lengths⟩
      refine ⟨kept + 1, count, fun replacement => ?_⟩
      rw [replacePlaceholder.eq_3 _ _ _ noPlaceholder, length_cons, lengths]
      ring

theorem absent_of_replacePlaceholder_eq {first second : Text} (different : first ≠ second)
    (same : replacePlaceholder first uri = replacePlaceholder second uri) :
    contains uri placeholder = false := by
  fun_induction replacePlaceholder first uri with
  | case1 => decide
  | case2 rest induction =>
      rw [replacePlaceholder] at same
      rcases length_replacePlaceholder rest with ⟨kept, count, lengths⟩
      have whole := congrArg List.length same
      rw [length_append, length_append, lengths, lengths] at whole
      have shares : (count + 1) * first.length = (count + 1) * second.length := by linarith
      have sameLength := Nat.eq_of_mul_eq_mul_left (Nat.succ_pos count) shares
      exact absurd (append_inj_left same sameLength) different
  | case3 character rest noPlaceholder induction =>
      rw [replacePlaceholder.eq_3 _ _ _ noPlaceholder] at same
      have absent := induction (List.cons.inj same).2
      apply decide_eq_false
      intro inside
      rcases infix_cons_iff.mp inside with atHead | inRest
      · rcases atHead with ⟨tail, split⟩
        cases split
        exact noPlaceholder tail rfl rfl
      · exact of_decide_eq_false absent inRest

theorem ten_pow_le_sixteen_pow {exponent : Nat} (large : 5 ≤ exponent) :
    10 ^ (exponent + 1) ≤ 16 ^ exponent := by
  induction exponent, large using Nat.le_induction with
  | base => norm_num
  | succ exponent _ induction =>
      rw [pow_succ 10, pow_succ 16]
      exact Nat.mul_le_mul induction (by norm_num)

theorem paddedHex_ne_ofNat (tokenId : Nat) : paddedHex tokenId ≠ ofNat tokenId := by
  intro same
  have shortest : ∀ base length, 1 < base → 0 < length →
      ((Nat.toDigits base tokenId).length ≤ length ↔ tokenId < base ^ length) :=
    fun base length large positive => Nat.length_toDigits_le_iff large positive
  have lengths := congrArg List.length same
  rw [paddedHex, length_append, length_replicate] at lengths
  have long : 64 ≤ (Nat.toDigits 10 tokenId).length := by
    rw [ofNat] at lengths
    omega
  by_cases short : (Nat.toDigits 16 tokenId).length < 64
  · -- The padding starts with a zero, which no positive number in decimal does.
    have nonzero : tokenId ≠ 0 := by
      rintro rfl
      rw [Nat.toDigits_zero] at long
      exact absurd long (by decide)
    have isHead : (ofNat tokenId).head? = some '0' := by
      rw [← same, paddedHex]
      cases missing : 64 - (Nat.toDigits 16 tokenId).length with
      | zero => omega
      | succ count => rfl
    exact Numeral.noLeadingZero_ofNat nonzero '0' isHead rfl
  · -- Without padding both have the same number of digits, which only small numbers have.
    obtain ⟨exponent, isLength⟩ : ∃ exponent, (Nat.toDigits 10 tokenId).length = exponent + 1 :=
      ⟨_, (Nat.succ_pred_eq_of_pos (by omega)).symm⟩
    rw [ofNat, isLength] at lengths
    have below := (shortest 10 (exponent + 1) (by norm_num) (by omega)).mp isLength.le
    have above : ¬ tokenId < 16 ^ exponent := by
      rw [← shortest 16 exponent (by norm_num) (by omega)]
      omega
    have powers := ten_pow_le_sixteen_pow (show 5 ≤ exponent by omega)
    omega

variable {index : Nat} {count : Nat} {item : Json}

theorem itemIndex_eq_some (isIndex : itemIndex count item = some index)
    : index < count := by
  rw [itemIndex] at isIndex
  rcases bind_eq_some_iff.mp isIndex with ⟨id, _, inRange⟩
  split at inRange
  · cases inRange
  · next bounds =>
      cases inRange
      omega

theorem Answers.itemIndex (answers : Answers index item) (inside : index < count) :
    itemIndex count item = some index := by
  rw [Ethereum.itemIndex, answers.1]
  simp [asInt?, Nat.not_le_of_lt inside]

theorem placedItem_eq (tokens : List TokenQuery) (item : Json) :
    placedItem tokens item = if hasError item then none else
      (itemIndex tokens.length item).bind fun index =>
        tokens[index]?.map fun token =>
          (index, (decodedUri item).map (expandUri token.tokenId)) := by
  rw [placedItem]
  cases itemIndex tokens.length item with
  | none => simp
  | some index =>
      cases hasError item with
      | true => rfl
      | false => cases isToken : tokens[index]? <;> simp [isToken]

theorem position_placedItem (tokens : List TokenQuery) (item : Json) :
    (placedItem tokens item).map Prod.fst =
      if hasError item then none else itemIndex tokens.length item := by
  rw [placedItem_eq]
  cases hasError item with
  | true => rfl
  | false =>
      cases isIndex : itemIndex tokens.length item with
      | none => rfl
      | some index =>
          simp [List.getElem?_eq_getElem (itemIndex_eq_some isIndex)]

variable {token : TokenQuery}

theorem getElem?_placeItems (tokens : List TokenQuery) (items : List Json)
    (isToken : tokens[index]? = some token) :
    (placeEntries (placedItem tokens) (List.replicate tokens.length none) items)[index]? =
      some ((lastPlaced tokens items index).bind fun item =>
        (decodedUri item).map (replacePlaceholder (ofNat token.tokenId))) := by
  have inside := (List.getElem?_eq_some_iff.mp isToken).1
  rw [getElem?_placeEntries, List.getElem?_replicate_of_lt inside, map_some, lastPlaced,
    funext (position_placedItem tokens)]
  cases found : lastByKey (fun item =>
      if hasError item then none else itemIndex tokens.length item) items index with
  | none => rfl
  | some item =>
      have isIndex := key_of_lastByKey found
      rw [ite_eq_iff] at isIndex
      rcases isIndex with ⟨_, impossible⟩ | ⟨noError, isIndex⟩
      · cases impossible
      · rw [bind_some, placedItem_eq, if_neg noError, isIndex, bind_some, isToken,
          bind_some, ← funext (expandUri_eq token.tokenId)]
        rfl

variable {tokens : List TokenQuery} {items : List Json} {placed : Json}

theorem lastPlaced_eq_some (found : lastPlaced tokens items index = some placed) :
    placed ∈ items ∧ hasError placed = false ∧ itemIndex tokens.length placed = some index := by
  have isIndex := key_of_lastByKey found
  rw [ite_eq_iff] at isIndex
  rcases isIndex with ⟨_, impossible⟩ | ⟨noError, isIndex⟩
  · cases impossible
  · exact ⟨mem_of_lastByKey found, Bool.eq_false_iff.mpr noError, isIndex⟩

theorem not_answers_of_lastPlaced (inside : index < tokens.length)
    (nothing : lastPlaced tokens items index = none) (item : Json) (member : item ∈ items) :
    ¬ Answers index item := by
  intro answers
  apply lastByKey_eq_none_iff.mp nothing item member
  rw [answers.2]
  exact answers.itemIndex inside

theorem isAnswered_iff (found : lastPlaced tokens items index = some placed) :
    IsAnswered items index token.tokenId
        ((decodedUri placed).map (replacePlaceholder (ofNat token.tokenId))) ↔
      PlainlyAnswered items index token.tokenId placed := by
  have member := (lastPlaced_eq_some found).1
  have plain : ∀ {uri}, uri ∈ decodedUri placed → contains uri placeholder = false →
      (decodedUri placed).map (replacePlaceholder (ofNat token.tokenId)) =
        (decodedUri placed).map (replaceTokenIdPlaceholder token.tokenId) := by
    intro uri isUri absent
    rw [mem_def.mp isUri, map_some, map_some, replaceTokenIdPlaceholder_eq,
      replacePlaceholder_of_absent absent, replacePlaceholder_of_absent absent]
  constructor
  · intro answered
    by_cases anyAnswers : ∃ item ∈ items, Answers index item
    · rcases answered.2 anyAnswers with ⟨item, itemMember, answers, same⟩
      by_cases isPlaced : item = placed
      · subst isPlaced
        refine .inl ⟨answers, fun uri isUri => ?_⟩
        rw [mem_def.mp isUri, map_some, map_some, Option.some.injEq,
          replaceTokenIdPlaceholder_eq] at same
        exact absent_of_replacePlaceholder_eq (paddedHex_ne_ofNat token.tokenId) same.symm
      · exact .inr (.inr ⟨item, itemMember, isPlaced, answers, same.symm⟩)
    · have nobody : ∀ item ∈ items, ¬ Answers index item :=
        fun item itemMember answers => anyAnswers ⟨item, itemMember, answers⟩
      exact .inr (.inl ⟨nobody, map_eq_none_iff.mp (answered.1 nobody)⟩)
  · rintro (⟨answers, absent⟩ | ⟨nobody, nothing⟩ | ⟨item, itemMember, _, answers, same⟩)
    · refine ⟨fun nobody => absurd answers (nobody placed member), fun _ => ?_⟩
      refine ⟨placed, member, answers, ?_⟩
      cases isUri : decodedUri placed with
      | none => rfl
      | some uri => rw [← isUri, plain isUri (absent uri isUri)]
    · refine ⟨fun _ => by rw [nothing, map_none], fun ⟨item, itemMember, answers⟩ => ?_⟩
      exact absurd answers (nobody item itemMember)
    · exact ⟨fun nobody => absurd answers (nobody item itemMember),
        fun _ => ⟨item, itemMember, answers, same.symm⟩⟩

theorem length_fetchTokenUriBatch (tokens : List TokenQuery) (attempts : Nat → Option Json) :
    (fetchTokenUriBatch tokens attempts).length = tokens.length := by
  rw [fetchTokenUriBatch]
  split
  · next empty => simp [List.isEmpty_iff.mp empty]
  · split
    · exact length_replicate
    · rw [length_placeEntries, length_replicate]

theorem getElem?_fetchTokenUriBatch (tokens : List TokenQuery) (attempts : Nat → Option Json)
    (isToken : tokens[index]? = some token) :
    (fetchTokenUriBatch tokens attempts)[index]? =
      some ((lastPlaced tokens (batchItems attempts) index).bind fun item =>
        (decodedUri item).map (replacePlaceholder (ofNat token.tokenId))) := by
  have inside := (List.getElem?_eq_some_iff.mp isToken).1
  rw [fetchTokenUriBatch, if_neg (by simpa using ne_nil_of_length_pos (by omega)),
    batchItems]
  cases receivedItems attempts with
  | none => exact List.getElem?_replicate_of_lt inside
  | some items => exact getElem?_placeItems tokens items isToken

/-- A batch answers every token exactly when, at each token, the item that is placed last is
plain. -/
theorem fetchTokenUriBatch_answered_iff (tokens : List TokenQuery)
    (attempts : Nat → Option Json) :
    UrisAnswered tokens (batchItems attempts) (fetchTokenUriBatch tokens attempts) ↔
      ∀ index token placed, tokens[index]? = some token →
        lastPlaced tokens (batchItems attempts) index = some placed →
        PlainlyAnswered (batchItems attempts) index token.tokenId placed := by
  constructor
  · intro answered index token placed isToken found
    rcases answered.2 index token isToken with ⟨uri, isUri, isAnswer⟩
    rw [getElem?_fetchTokenUriBatch tokens attempts isToken, found, bind_some,
      Option.some.injEq] at isUri
    rw [← isUri] at isAnswer
    exact (isAnswered_iff found).mp isAnswer
  · intro plain
    refine ⟨length_fetchTokenUriBatch tokens attempts, fun index token isToken => ?_⟩
    refine ⟨_, getElem?_fetchTokenUriBatch tokens attempts isToken, ?_⟩
    cases found : lastPlaced tokens (batchItems attempts) index with
    | some placed => exact (isAnswered_iff found).mpr (plain index token placed isToken found)
    | none =>
        have inside := (List.getElem?_eq_some_iff.mp isToken).1
        have nobody := not_answers_of_lastPlaced inside found
        exact ⟨fun _ => rfl, fun ⟨item, member, answers⟩ => absurd answers (nobody item member)⟩

def editionToken : TokenQuery :=
  ⟨"0x1111111111111111111111111111111111111111".toList, 5, .erc1155⟩

/-- The contract answers with the text `{id}`. -/
def editionReply : Json :=
  .array [.object [("id", .integer 0), ("result", .string
    ("0x".toList ++ paddedHex 32 ++ paddedHex 4 ++ "7b69647d".toList))]]

/-- A placeholder is expanded in decimal, so the entry is no answer. -/
theorem fetchTokenUriBatch_edition :
    ¬ UrisAnswered [editionToken] (batchItems fun _ => some editionReply)
      (fetchTokenUriBatch [editionToken] fun _ => some editionReply) := by
  have entries : fetchTokenUriBatch [editionToken] (fun _ => some editionReply) =
      [some "5".toList] := by decide +kernel
  intro answered
  rcases answered.2 0 editionToken rfl with ⟨uri, isUri, isAnswer⟩
  rw [entries] at isUri
  cases isUri
  have answers : ∃ item ∈ batchItems fun _ => some editionReply, Answers 0 item :=
    ⟨_, mem_singleton.mpr rfl, rfl, rfl⟩
  rcases isAnswer.2 answers with ⟨item, member, _, same⟩
  cases mem_singleton.mp member
  exact absurd same (by decide +kernel)

end NftData.Ethereum
