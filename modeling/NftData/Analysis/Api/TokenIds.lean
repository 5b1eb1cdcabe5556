import NftData.Analysis.Resident.Store
import NftData.Foundation.Json
import NftData.Foundation.Numerals
import NftData.Foundation.Substrings

namespace NftData.Analysis

/-! # Token ids

The store and the providers' rows spell the token id of an NFT each in its own way, in
decimal or in hexadecimal digits. A selection compares the texts. -/

open List
open Text (isWhiteSpace ofNat toAsciiLowercase trim_eq_self)

/-- `char::to_digit` for hexadecimal digits. -/
def toDigit (character : Char) : Option Nat :=
  let code := character.toNat
  if 48 ≤ code ∧ code ≤ 57 then some (code - 48)
  else if 97 ≤ code ∧ code ≤ 102 then some (code - 87)
  else if 65 ≤ code ∧ code ≤ 70 then some (code - 55)
  else none

/-- Multiply decimal digits, the lowest first, by 16 and add the carry. The digits of the
last carry are pushed behind them. -/
def pushHexDigit : List Nat → Nat → List Nat
  | [], carry => Nat.digits 10 carry
  | digit :: digits, carry =>
      (digit * 16 + carry) % 10 :: pushHexDigit digits ((digit * 16 + carry) / 10)

def hexToDecimal (hex : Text) : Option Text := do
  let digits ← hex.foldlM (fun digits character => (toDigit character).map (pushHexDigit digits))
    [0]
  let digits := digits.rdropWhile (· = 0)
  some ((if digits = [] then [0] else digits).reverse.map Nat.digitChar)

def hexNumber (hex : Text) (start : Nat) : Option Nat :=
  hex.foldlM (fun number character => (toDigit character).map (16 * number + ·)) start

/-- Leading zeros dropped, and `0` when nothing is left. -/
def trimZeros (text : Text) : Text :=
  let trimmed := text.dropWhile (· = '0')
  if trimmed = [] then ['0'] else trimmed

def stripHexPrefix : Text → Option Text
  | '0' :: 'x' :: hex => some hex
  | '0' :: 'X' :: hex => some hex
  | _ => none

def canonicalDecimalDigits (value : Text) : Option Text :=
  if value ≠ [] ∧ value.all Char.isDigit then some (trimZeros value) else none

/-- The address and the token id of a row as `push_borrowed` interns them. A row without one
of them is an error. -/
def pushKey (chain : ChainId) (contractAddress tokenId : Text) : Option NftKey :=
  let rawAddress := contractAddress.trim
  let address := if chain.isEvm then rawAddress.toAsciiLowercase else rawAddress
  let rawToken := tokenId.trim
  let token :=
    if chain.isEvm then (canonicalDecimalDigits rawToken).getD rawToken.toAsciiLowercase
    else rawToken
  if address = [] ∨ token = [] then none else some ⟨chain, address, token⟩

variable (floatText : ℚ → Text)

def normalizeTokenId (value : Json) : Text :=
  let raw := match value with
    | .string text => text
    | .integer number => Numeral.ofInt number
    | .float number => floatText number
    | _ => []
  let raw := raw.trim
  match stripHexPrefix raw with
  | some hex => (hexToDecimal hex).getD raw
  | none => trimZeros raw

def selected (selection : NftSelection) (tokenId : Text) : Bool :=
  match selection with
  | .allInContract _ _ => true
  | .explicit nfts => nfts.any (·.tokenId = tokenId)

/-- A provider's row: a transfer, one of Etherscan's transfers, the NFT of a sale, or a
positive balance of a holder. -/
inductive ProviderRow where
  | transfer (item : Json)
  | etherscan (item : Json)
  | sale (nft : Json)
  | holder (balance : Json)

def ProviderRow.tokenValues : ProviderRow → List Json
  | .transfer item =>
      match (item.get? "erc1155Metadata").bind Json.asArray? with
      | some values => values.map fun value => (value.get? "tokenId").getD .null
      | none => [((item.get? "tokenId").or ((item.get? "erc721TokenId").or
          (item.get? "tokenID"))).getD .null]
  | .etherscan item => [((item.get? "tokenID").or (item.get? "tokenId")).getD .null]
  | .sale nft => [((nft.get? "identifier").or (nft.get? "token_id")).getD .null]
  | .holder balance => [(balance.get? "tokenId").getD .null]

/-- The token ids of a row's events or holders. Only Etherscan's rows keep an empty one. -/
def ProviderRow.tokenIds (row : ProviderRow) (selection : NftSelection) : List Text :=
  let tokens := row.tokenValues.map (normalizeTokenId floatText)
  let tokens := match row with
    | .etherscan _ => tokens
    | _ => tokens.filter (· ≠ [])
  tokens.filter (selected selection)

/-- No value that a token id is read from holds one. -/
def ProviderRow.LacksTokenId (row : ProviderRow) : Prop :=
  ∀ value ∈ row.tokenValues, value = .null ∨ ∃ text, value = .string text ∧ text.trim = []

/-- A text is a number's decimal spelling, with zeros in front, or a hexadecimal one. -/
inductive Spells : Text → Nat → Prop
  | decimal (zeros number : Nat) : Spells (List.replicate zeros '0' ++ ofNat number) number
  | hexadecimal {marker : Char} {hex : Text} {number : Nat} (isMarker : marker = 'x' ∨ marker = 'X')
      (isNumber : hexNumber hex 0 = some number) : Spells ('0' :: marker :: hex) number

/-- Where a token id is read: in the store's input or in a provider's row. -/
inductive Sighting where
  | stored (tokenId : Text)
  | provided (value : Json)

namespace Sighting

inductive Of : Sighting → Nat → Prop
  | stored {text : Text} {number : Nat} (spells : Spells text number) : Of (.stored text) number
  | text {text : Text} {number : Nat} (spells : Spells text number) :
      Of (.provided (.string text)) number
  | integer (number : Nat) : Of (.provided (.integer number)) number

def key? (chain : ChainId) (contract : Text) : Sighting → Option NftKey
  | .stored tokenId => pushKey chain contract tokenId
  | .provided _ => none

def tokenText (chain : ChainId) (contract : Text) : Sighting → Option Text
  | .stored tokenId => (pushKey chain contract tokenId).map NftKey.tokenId
  | .provided value => some (normalizeTokenId floatText value)

def hexText? : Sighting → Option Text
  | .stored tokenId => (stripHexPrefix tokenId).map fun _ => tokenId.toAsciiLowercase
  | .provided _ => none

end Sighting

theorem ofDigits_pushHexDigit (digits : List Nat) (carry : Nat) :
    Nat.ofDigits 10 (pushHexDigit digits carry) = 16 * Nat.ofDigits 10 digits + carry := by
  induction digits generalizing carry with
  | nil => simp [pushHexDigit, Nat.ofDigits_digits]
  | cons digit digits induction =>
      have split := Nat.mod_add_div (digit * 16 + carry) 10
      rw [pushHexDigit, Nat.ofDigits_cons, induction, Nat.ofDigits_cons]
      omega

variable {digits : List Nat}

theorem pushHexDigit_lt {carry : Nat} (small : ∀ digit ∈ digits, digit < 10) :
    ∀ digit ∈ pushHexDigit digits carry, digit < 10 := by
  induction digits generalizing carry with
  | nil => exact fun digit member => Nat.digits_lt_base (by decide) member
  | cons head digits induction =>
      intro digit member
      rcases mem_cons.mp member with rfl | inRest
      · exact Nat.mod_lt _ (by decide)
      · exact induction (fun other inDigits => small other (mem_cons_of_mem _ inDigits)) digit
          inRest

variable {number : Nat} {hex : Text}

theorem foldlM_pushHexDigit (small : ∀ digit ∈ digits, digit < 10)
    (isNumber : hexNumber hex (Nat.ofDigits 10 digits) = some number) :
    ∃ result, hex.foldlM
        (fun digits character => (toDigit character).map (pushHexDigit digits)) digits =
        some result ∧ (∀ digit ∈ result, digit < 10) ∧ Nat.ofDigits 10 result = number := by
  induction hex generalizing digits with
  | nil => exact ⟨digits, rfl, small, Option.some.inj isNumber⟩
  | cons character hex induction =>
      rw [hexNumber, foldlM_cons] at isNumber
      rw [foldlM_cons]
      cases isDigit : toDigit character with
      | none => simp [isDigit] at isNumber
      | some value =>
          rw [isDigit] at isNumber
          apply induction (pushHexDigit_lt small)
          rw [ofDigits_pushHexDigit]
          exact isNumber

theorem ofDigits_rdropWhile (digits : List Nat) :
    Nat.ofDigits 10 (digits.rdropWhile (· = 0)) = Nat.ofDigits 10 digits := by
  induction digits using List.reverseRecOn with
  | nil => rfl
  | append_singleton digits digit induction =>
      by_cases zero : digit = 0
      · rw [rdropWhile_concat_pos _ _ _ (by simpa using zero), induction,
          Nat.ofDigits_append, zero, Nat.ofDigits_singleton, mul_zero, add_zero]
      · rw [rdropWhile_concat_neg _ _ _ (by simpa using zero)]

theorem ofNat_eq_digits (nonzero : number ≠ 0) :
    ofNat number = (Nat.digits 10 number).reverse.map Nat.digitChar := by
  induction number using Nat.strong_induction_on with
  | h number induction =>
      rw [Nat.digits_eq_cons_digits_div (by decide) nonzero, reverse_cons, map_append]
      by_cases small : number < 10
      · rw [ofNat, Nat.toDigits_of_lt_base small, Nat.div_eq_of_lt small,
          Nat.mod_eq_of_lt small]
        rfl
      · rw [ofNat, Nat.toDigits_of_base_le (by decide) (by omega)]
        exact congrArg (· ++ _) (induction (number / 10) (by omega) (by omega))

theorem hexToDecimal_eq (isNumber : hexNumber hex 0 = some number) :
    hexToDecimal hex = some (ofNat number) := by
  obtain ⟨digits, isDigits, small, value⟩ :=
    foldlM_pushHexDigit (show ∀ digit ∈ [0], digit < 10 by decide) isNumber
  have kept := ofDigits_rdropWhile digits
  rw [value] at kept
  rw [hexToDecimal, isDigits]
  simp only [Option.bind_eq_bind, Option.bind_some, Option.some.injEq]
  split
  · next empty =>
      rw [empty] at kept
      rw [← kept]
      rfl
  · next nonempty =>
      have isReduced := Nat.digits_ofDigits 10 (by decide) (digits.rdropWhile (· = 0))
        (fun digit member => small digit ((List.rdropWhile_prefix _ _).subset member))
        (fun present => by simpa using rdropWhile_last_not (· = 0) digits present)
      rw [kept] at isReduced
      rw [ofNat_eq_digits, isReduced]
      rintro rfl
      exact nonempty (isReduced.symm.trans (Nat.digits_zero 10))

/-! ## What a spelling becomes -/

theorem toDigit_toLower (character : Char) : toDigit character.toLower = toDigit character :=
  Text.apply_toLower toDigit (fun code above below => by interval_cases code <;> rfl) character

theorem hexNumber_toAsciiLowercase (hex : Text) (start : Nat) :
    hexNumber hex.toAsciiLowercase start = hexNumber hex start := by
  rw [hexNumber, toAsciiLowercase, foldlM_map]
  simp only [toDigit_toLower]
  rfl

theorem isWhiteSpace_of_toDigit {character : Char} {value : Nat}
    (isDigit : toDigit character = some value) : isWhiteSpace character = false := by
  have bounds : 48 ≤ character.toNat ∧ character.toNat ≤ 102 := by
    unfold toDigit at isDigit
    grind
  simp only [isWhiteSpace, Bool.or_eq_false_iff, Bool.and_eq_false_iff,
    decide_eq_false_iff_not, beq_eq_false_iff_ne]
  omega

theorem isWhiteSpace_of_mem_hex {start : Nat} (isNumber : hexNumber hex start = some number) :
    ∀ character ∈ hex, isWhiteSpace character = false := by
  induction hex generalizing start with
  | nil => exact fun _ member => absurd member not_mem_nil
  | cons head hex induction =>
      rw [hexNumber, foldlM_cons] at isNumber
      cases isDigit : toDigit head with
      | none => simp [isDigit] at isNumber
      | some value =>
          rw [isDigit] at isNumber
          exact forall_mem_cons.mpr ⟨isWhiteSpace_of_toDigit isDigit, induction isNumber⟩

theorem trimZeros_decimal (zeros number : Nat) :
    trimZeros (List.replicate zeros '0' ++ ofNat number) = ofNat number := by
  by_cases zero : number = 0
  · rw [trimZeros, zero, dropWhile_append_of_pos fun digit member => by
      rw [eq_of_mem_replicate member]
      rfl]
    rfl
  · have nonempty := Numeral.ofNat_ne_nil number
    have dropped := Numeral.dropWhile_zeros (Numeral.noLeadingZero_ofNat zero) nonempty zeros []
    rw [append_nil] at dropped
    rw [trimZeros, dropped, if_neg nonempty]

theorem isDigits_decimal (zeros number : Nat) :
    Numeral.IsDigits (List.replicate zeros '0' ++ ofNat number) :=
  (Numeral.isDigits_zeros zeros).append (Numeral.isDigits_ofNat number)

variable {text : Text}

theorem stripHexPrefix_digits (digits : Numeral.IsDigits text) :
    stripHexPrefix text = none := by
  unfold stripHexPrefix
  split
  · exact absurd (digits 'x' (by simp)) (by decide)
  · exact absurd (digits 'X' (by simp)) (by decide)
  · rfl

theorem trim_digits (digits : Numeral.IsDigits text) : text.trim = text :=
  trim_eq_self fun character member =>
    Text.not_isWhiteSpace_of_isDigit (digits character member)

variable {marker : Char}

theorem trim_hex (isMarker : marker = 'x' ∨ marker = 'X') (isNumber : hexNumber hex 0 = some number)
    :
    Text.trim ('0' :: marker :: hex) = '0' :: marker :: hex := by
  apply trim_eq_self
  rw [forall_mem_cons, forall_mem_cons]
  refine ⟨rfl, ?_, isWhiteSpace_of_mem_hex isNumber⟩
  rcases isMarker with rfl | rfl <;> rfl

theorem stripHexPrefix_hex (isMarker : marker = 'x' ∨ marker = 'X') (hex : Text) :
    stripHexPrefix ('0' :: marker :: hex) = some hex := by
  rcases isMarker with rfl | rfl <;> rfl

section Sightings

variable {text contract : Text} {number : Nat} {chain : ChainId}

theorem normalizeTokenId_spells (spells : Spells text number) :
    normalizeTokenId floatText (.string text) = ofNat number := by
  cases spells with
  | decimal zeros =>
      have digits := isDigits_decimal zeros number
      simp only [normalizeTokenId, trim_digits digits, stripHexPrefix_digits digits,
        trimZeros_decimal]
  | hexadecimal isMarker isNumber =>
      simp only [normalizeTokenId, trim_hex isMarker isNumber, stripHexPrefix_hex isMarker,
        hexToDecimal_eq isNumber, Option.getD_some]

theorem normalizeTokenId_integer (number : Nat) :
    normalizeTokenId floatText (.integer number) = ofNat number := by
  have digits := isDigits_decimal 0 number
  rw [replicate_zero, nil_append] at digits
  have trimmed := trimZeros_decimal 0 number
  rw [replicate_zero, nil_append] at trimmed
  have plain : Numeral.ofInt number = ofNat number := if_neg (by omega)
  simp only [normalizeTokenId, plain, trim_digits digits, stripHexPrefix_digits digits, trimmed]

theorem tokenText_spells (isEvm : chain.isEvm = true) (present : contract.trim ≠ [])
    (spells : Spells text number) :
    (Sighting.stored text).tokenText floatText chain contract =
      some ((Sighting.stored text).hexText?.getD (ofNat number)) := by
  have address : contract.trim.toAsciiLowercase ≠ [] := by simpa [toAsciiLowercase] using present
  cases spells with
  | decimal zeros =>
      have digits := isDigits_decimal zeros number
      have nonempty := Numeral.ofNat_ne_nil number
      have isDecimal : canonicalDecimalDigits (List.replicate zeros '0' ++ ofNat number) =
          some (ofNat number) := by
        rw [canonicalDecimalDigits, trimZeros_decimal, if_pos]
        exact ⟨append_ne_nil_of_right_ne_nil _ nonempty, all_eq_true.mpr digits⟩
      simp [Sighting.tokenText, Sighting.hexText?, pushKey, isEvm, trim_digits digits,
        stripHexPrefix_digits digits, isDecimal, address, nonempty]
  | @hexadecimal marker hex _ isMarker isNumber =>
      have notDecimal : canonicalDecimalDigits ('0' :: marker :: hex) = none := by
        apply if_neg
        rcases isMarker with rfl | rfl <;> simp
      simp [Sighting.tokenText, Sighting.hexText?, pushKey, isEvm, trim_hex isMarker isNumber,
        stripHexPrefix_hex isMarker, notDecimal, present, toAsciiLowercase]

end Sightings

section OneText

variable {sighting other : Sighting} {number : Nat} {chain : ChainId} {contract : Text}

theorem tokenText_of (isEvm : chain.isEvm = true) (present : contract.trim ≠ [])
    (sights : sighting.Of number) :
    sighting.tokenText floatText chain contract =
      some (sighting.hexText?.getD (ofNat number)) := by
  cases sights with
  | stored spells => exact tokenText_spells floatText isEvm present spells
  | text spells => exact congrArg some (normalizeTokenId_spells floatText spells)
  | integer => exact congrArg some (normalizeTokenId_integer floatText number)

theorem hexNumber_of_hexText? {kept : Text} (sights : sighting.Of number)
    (isHex : sighting.hexText? = some kept) :
    ∃ hex, kept = '0' :: 'x' :: hex ∧ hexNumber hex 0 = some number := by
  cases sights with
  | stored spells =>
      cases spells with
      | decimal zeros =>
          rw [Sighting.hexText?, stripHexPrefix_digits (isDigits_decimal zeros number)] at isHex
          cases isHex
      | hexadecimal isMarker isNumber =>
          rw [Sighting.hexText?, stripHexPrefix_hex isMarker] at isHex
          cases isHex
          refine ⟨_, ?_, (hexNumber_toAsciiLowercase _ 0).trans isNumber⟩
          rcases isMarker with rfl | rfl <;> rfl
  | text => cases isHex
  | integer => cases isHex

theorem ofNat_ne_hex (number : Nat) (hex : Text) : ofNat number ≠ '0' :: 'x' :: hex := by
  intro same
  have digits := Numeral.isDigits_ofNat number
  rw [same] at digits
  exact absurd (digits 'x' (by simp)) (by decide)

/-- Two sightings of NFTs have one text exactly for one NFT, unless the store kept the
hexadecimal spelling of one of them. -/
theorem tokenText_eq_iff {otherNumber : Nat} (isEvm : chain.isEvm = true)
    (present : contract.trim ≠ []) (sights : sighting.Of number)
    (otherSights : other.Of otherNumber) :
    (sighting.tokenText floatText chain contract = other.tokenText floatText chain contract ↔
        number = otherNumber) ↔
      (number = otherNumber → sighting.hexText? = other.hexText?) := by
  rw [tokenText_of floatText isEvm present sights, tokenText_of floatText isEvm present otherSights,
    Option.some.injEq]
  cases isHex : sighting.hexText? with
  | none =>
      cases otherHex : other.hexText? with
      | none => simp [Text.ofNat_injective.eq_iff]
      | some kept =>
          obtain ⟨hex, rfl, _⟩ := hexNumber_of_hexText? otherSights otherHex
          simp [ofNat_ne_hex]
  | some kept =>
      obtain ⟨hex, rfl, isNumber⟩ := hexNumber_of_hexText? sights isHex
      cases otherHex : other.hexText? with
      | none => simp [(ofNat_ne_hex otherNumber hex).symm]
      | some otherKept =>
          obtain ⟨otherHex, rfl, otherIsNumber⟩ := hexNumber_of_hexText? otherSights otherHex
          simp only [Option.getD_some, Option.some.injEq]
          constructor
          · exact fun same => same.mpr
          · intro condition
            refine ⟨?_, condition⟩
            intro same
            cases same
            exact Option.some.inj (isNumber.symm.trans otherIsNumber)

end OneText

theorem ProviderRow.tokenIds_of_lacksTokenId {row : ProviderRow} (lacks : row.LacksTokenId)
    (selection : NftSelection) :
    row.tokenIds floatText selection = [] ↔
      row.tokenValues = [] ∨ selected selection ['0'] = false := by
  have zeros : row.tokenValues.map (normalizeTokenId floatText) =
      List.replicate row.tokenValues.length ['0'] := by
    rw [← map_const']
    apply map_congr_left
    intro value member
    rcases lacks value member with rfl | ⟨text, rfl, blank⟩
    · rfl
    · simp only [normalizeTokenId, blank]
      rfl
  unfold ProviderRow.tokenIds
  rw [zeros]
  by_cases chosen : selected selection ['0'] = true <;>
    cases row <;> simp [chosen]

def storeSelection (chain : ChainId) (contract : Text) (sightings : List (Sighting × Nat)) :
    NftSelection :=
  .explicit (sightings.filterMap fun seen => seen.1.key? chain contract)

/-- What one spelling for each NFT means for some sightings of a contract's NFTs and for
providers' rows without a token id. -/
structure OneSpelling (chain : ChainId) (contract : Text) (sightings : List (Sighting × Nat))
    (rows : List ProviderRow) (selection : NftSelection) : Prop where
  texts : ∀ first ∈ sightings, ∀ second ∈ sightings,
    first.1.tokenText floatText chain contract = second.1.tokenText floatText chain contract ↔
      first.2 = second.2
  selects : ∀ value number, (Sighting.provided value, number) ∈ sightings →
    (selected (storeSelection chain contract sightings) (normalizeTokenId floatText value) = true ↔
      ∃ tokenId, (Sighting.stored tokenId, number) ∈ sightings)
  unattributed : ∀ row ∈ rows, row.tokenIds floatText selection = []

section Selections

variable {sightings : List (Sighting × Nat)} {chain : ChainId} {contract : Text}

theorem selected_storeSelection {token : Text} :
    selected (storeSelection chain contract sightings) token = true ↔
      ∃ tokenId number, (Sighting.stored tokenId, number) ∈ sightings ∧
        (Sighting.stored tokenId).tokenText floatText chain contract = some token := by
  simp only [storeSelection, selected, any_eq_true, mem_filterMap, decide_eq_true_eq]
  constructor
  · rintro ⟨nft, ⟨⟨sighting, number⟩, member, isKey⟩, rfl⟩
    cases sighting with
    | stored tokenId => exact ⟨tokenId, number, member, congrArg (Option.map NftKey.tokenId) isKey⟩
    | provided value => cases isKey
  · intro ⟨tokenId, number, member, isText⟩
    obtain ⟨nft, isKey, isToken⟩ := Option.map_eq_some_iff.mp isText
    exact ⟨nft, ⟨_, member, isKey⟩, isToken⟩

theorem selects_of_texts (texts : ∀ first ∈ sightings, ∀ second ∈ sightings,
      first.1.tokenText floatText chain contract = second.1.tokenText floatText chain contract ↔
        first.2 = second.2) {value : Json} (member : (Sighting.provided value, number) ∈ sightings)
    :
    selected (storeSelection chain contract sightings) (normalizeTokenId floatText value) = true ↔
      ∃ tokenId, (Sighting.stored tokenId, number) ∈ sightings := by
  rw [selected_storeSelection floatText]
  constructor
  · intro ⟨tokenId, storedNumber, inStore, isText⟩
    obtain rfl : storedNumber = number := (texts _ inStore _ member).mp isText
    exact ⟨tokenId, inStore⟩
  · intro ⟨tokenId, inStore⟩
    exact ⟨tokenId, number, inStore, (texts _ inStore _ member).mpr rfl⟩

end Selections

/-- An NFT has one spelling unless the store keeps a hexadecimal one, and a row without a
token id is nobody's unless token 0 is selected. -/
theorem oneSpelling_iff {chain : ChainId} {contract : Text} {sightings : List (Sighting × Nat)}
    {rows : List ProviderRow} (selection : NftSelection) (isEvm : chain.isEvm = true)
    (present : contract.trim ≠ []) (spelled : ∀ seen ∈ sightings, seen.1.Of seen.2)
    (lacking : ∀ row ∈ rows, row.LacksTokenId) :
    OneSpelling floatText chain contract sightings rows selection ↔
      (∀ first ∈ sightings, ∀ second ∈ sightings, first.2 = second.2 →
        first.1.hexText? = second.1.hexText?) ∧
      ∀ row ∈ rows, row.tokenValues = [] ∨ selected selection ['0'] = false := by
  have texts_iff : ∀ first ∈ sightings, ∀ second ∈ sightings, _ := fun first inFirst second inSecond =>
    tokenText_eq_iff floatText isEvm present (spelled first inFirst) (spelled second inSecond)
  have rows_iff : ∀ row ∈ rows, _ := fun row member =>
    ProviderRow.tokenIds_of_lacksTokenId floatText (lacking row member) selection
  constructor
  · intro one
    refine ⟨?_, fun row member => (rows_iff row member).mp (one.unattributed row member)⟩
    intro first inFirst second inSecond
    exact (texts_iff first inFirst second inSecond).mp (one.texts first inFirst second inSecond)
  · intro ⟨sameHex, unselected⟩
    have texts : ∀ first ∈ sightings, ∀ second ∈ sightings, _ :=
      fun first inFirst second inSecond =>
        (texts_iff first inFirst second inSecond).mpr (sameHex first inFirst second inSecond)
    exact ⟨texts, fun _ _ member => selects_of_texts floatText texts member,
      fun row member => (rows_iff row member).mpr (unselected row member)⟩

theorem oneSpelling_decimal :
    OneSpelling (fun _ => []) .ethereum ['a'] [(.stored ['0', '7'], 7),
        (.provided (.string ['0', 'X', '7']), 7)] [.sale (.object [])]
      (.explicit [⟨.ethereum, ['a'], ['7']⟩]) := by
  apply (oneSpelling_iff _ _ rfl (by decide) _ _).mpr
  · exact ⟨by decide, fun _ _ => .inr rfl⟩
  · intro seen member
    rcases mem_pair.mp member with rfl | rfl
    · exact .stored (.decimal 1 7)
    · exact .text (.hexadecimal (.inr rfl) rfl)
  · intro row member value inValues
    cases mem_singleton.mp member
    exact .inl (mem_singleton.mp inValues)

/-- The store keeps `0x0f`, which a provider's row names 15, and a sale without an
identifier becomes one of token 0. -/
theorem oneSpelling_hexadecimal :
    ¬OneSpelling (fun _ => []) .ethereum ['a'] [(.stored ['0', 'x', '0', 'f'], 15),
      (.provided (.string ['0', 'x', '0', 'f']), 15)] [] (.explicit []) ∧
    ¬OneSpelling (fun _ => []) .ethereum ['a'] [] [.sale (.object [])]
      (.explicit [⟨.ethereum, ['a'], ['0']⟩]) := by
  constructor
  · intro one
    have same := (one.texts _ mem_cons_self _ (mem_cons_of_mem _ mem_cons_self)).mpr
      rfl
    exact absurd same (by decide)
  · intro one
    exact absurd (one.unattributed _ mem_cons_self) (by decide)

end NftData.Analysis
