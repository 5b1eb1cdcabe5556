import NftData.Ethereum.TokenUriBatch
import NftData.TopContracts.Types

namespace NftData.Solana

open List
open List (append_assoc replicate)
open Ethereum TopContracts

/-! # Decoders of on-chain data

The decoders of both kinds of chains against the encodings that they read: the words of the
EVM's ABI, base 58, and the accounts of the token metadata program. -/

/-! ## Words -/

theorem fromBytes_append (first second : Bytes) :
    fromBytes (first ++ second) = fromBytes first * 256 ^ second.length + fromBytes second := by
  induction second using List.reverseRecOn with
  | nil => simp [fromBytes]
  | append_singleton second byte induction =>
      have step : ∀ bytes : Bytes, fromBytes (bytes ++ [byte]) = fromBytes bytes * 256 + byte.toNat :=
        fun bytes => by rw [fromBytes, List.foldl_append]; rfl
      rw [← append_assoc, step, step, induction, length_append, length_singleton,
        pow_succ]
      ring

@[simp] theorem length_toBytes (count value : Nat) : (toBytes count value).length = count := by
  induction count generalizing value with
  | zero => rfl
  | succ count induction => rw [toBytes, length_append, induction, length_singleton]

variable {value : Nat}

theorem fromBytes_toBytes {count : Nat} (fits : value < 256 ^ count) :
    fromBytes (toBytes count value) = value := by
  induction count generalizing value with
  | zero =>
      rw [pow_zero, Nat.lt_one_iff] at fits
      rw [fits]
      rfl
  | succ count induction =>
      have quotient : value / 256 < 256 ^ count :=
        Nat.div_lt_of_lt_mul (by rwa [pow_succ, Nat.mul_comm] at fits)
      rw [toBytes, fromBytes_append, induction quotient]
      simp only [fromBytes, foldl_cons, foldl_nil, length_singleton, pow_one,
        Nat.zero_mul, Nat.zero_add, UInt8.toNat_ofNat']
      omega

theorem slice_append (before middle after : Bytes) :
    slice (before ++ middle ++ after) before.length (before.length + middle.length) = middle := by
  rw [slice, ← length_append, take_left, drop_left]

abbrev Word := Fin (2 ^ 256)

def encodeWord (value : Nat) : Bytes := toBytes 32 value

def encodeWords (words : List Word) : Bytes := words.flatMap fun word => encodeWord word

/-- The ABI encoding of `(uint256[], uint256[])`. -/
def encodeBatch (ids values : List Word) : Bytes :=
  (encodeWord 64 ++ encodeWord (96 + 32 * ids.length)) ++ (encodeWord ids.length ++ encodeWords ids) ++
    (encodeWord values.length ++ encodeWords values)

theorem fromBytes_encodeWord (fits : value < 2 ^ 256) :
    fromBytes (encodeWord value) = value :=
  fromBytes_toBytes (fits.trans_eq (by norm_num))

theorem decodeIds_encodeWords (before : Bytes) (words : List Word) (after : Bytes) :
    decodeIds (before ++ encodeWords words ++ after) words.length before.length =
      words.map Fin.val := by
  induction words generalizing before with
  | nil => rfl
  | cons word words induction =>
      have whole : before ++ encodeWords (word :: words) ++ after =
          before ++ encodeWord word ++ (encodeWords words ++ after) := by
        simp [encodeWords]
      have wordLength : (encodeWord word).length = 32 := length_toBytes 32 word
      have rest := induction (before ++ encodeWord word)
      rw [length_append, wordLength, append_assoc] at rest
      have here := slice_append before (encodeWord word) (encodeWords words ++ after)
      rw [wordLength] at here
      rw [whole, length_cons, decodeIds, if_neg (by simp [wordLength]), here, rest,
        fromBytes_encodeWord word.isLt, map_cons]

theorem decodeBatch_encodeBatch {ids values : List Word} (fits : ids.length < 2 ^ 256) :
    decodeBatch (encodeBatch ids values) = ids.map Fin.val := by
  have wordLength : ∀ value, (encodeWord value).length = 32 := length_toBytes 32
  have first := slice_append [] (encodeWord 64) (encodeWord (96 + 32 * ids.length) ++
    (encodeWord ids.length ++ encodeWords ids) ++ (encodeWord values.length ++ encodeWords values))
  have count := slice_append (encodeWord 64 ++ encodeWord (96 + 32 * ids.length))
    (encodeWord ids.length) (encodeWords ids ++ (encodeWord values.length ++ encodeWords values))
  have words := decodeIds_encodeWords
    (encodeWord 64 ++ encodeWord (96 + 32 * ids.length) ++ encodeWord ids.length) ids
    (encodeWord values.length ++ encodeWords values)
  have long : 96 ≤ (encodeBatch ids values).length := by
    simp only [encodeBatch, length_append, wordLength]
    omega
  simp only [append_assoc, nil_append, length_nil, length_append, wordLength,
    Nat.zero_add, Nat.reduceAdd] at first count words
  rw [decodeBatch, if_neg (by omega)]
  simp only [encodeBatch, append_assoc] at long ⊢
  simp only [first, fromBytes_encodeWord (show 64 < 2 ^ 256 by norm_num), Nat.reduceAdd, count,
    fromBytes_encodeWord fits, words]
  rw [if_neg (by omega)]

theorem length_decodeIds (raw : Bytes) (count start : Nat) (inside : start ≤ raw.length) :
    start + 32 * (decodeIds raw count start).length ≤ raw.length := by
  induction count generalizing start with
  | zero => exact inside
  | succ count induction =>
      rw [decodeIds]
      split
      · exact inside
      · have rest := induction (start + 32) (by omega)
        rw [length_cons]
        omega

theorem length_decodeBatch (raw : Bytes) : 32 * (decodeBatch raw).length ≤ raw.length := by
  rw [decodeBatch]
  split
  · exact Nat.zero_le _
  · simp only
    split
    · exact Nat.zero_le _
    · have words := length_decodeIds raw
        (fromBytes (slice raw (fromBytes (slice raw 0 32)) (fromBytes (slice raw 0 32) + 32)))
        (fromBytes (slice raw 0 32) + 32) (by omega)
      omega

theorem decodeUtf8_utf8Bytes (text : Text) : decodeUtf8 (utf8Bytes text) = some text := by
  have bytes : (⟨(utf8Bytes text).toArray⟩ : ByteArray) = text.utf8Encode := by
    apply ByteArray.ext
    exact data_toByteArray.symm
  have encoded : text.utf8Encode = (String.ofList text).toByteArray := by simp
  rw [decodeUtf8, bytes, encoded, String.fromUTF8?, dif_pos (String.ofList text).isValidUTF8]
  exact congrArg some String.toList_ofList

theorem fromHex_lowercaseHex (bytes : Bytes) : fromHex (lowercaseHex bytes) = some bytes := by
  induction bytes with
  | nil => rfl
  | cons byte bytes induction =>
      have digits : ∀ value < 16, Ethereum.hexDigit ("0123456789abcdef".toList.getD value '0') =
          some value ∧ isAsciiSpace ("0123456789abcdef".toList.getD value '0') = false := by decide
      have bound := byte.toNat_lt
      have high := digits (byte.toNat / 16) (by omega)
      have low := digits (byte.toNat % 16) (by omega)
      rw [← toNat_high] at high
      rw [← toNat_low] at low
      change fromHex (TopContracts.hexDigit (byte >>> 4) ::
        TopContracts.hexDigit (byte &&& 0x0f) :: lowercaseHex bytes) = some (byte :: bytes)
      rw [fromHex, TopContracts.hexDigit, TopContracts.hexDigit, if_neg (ne_true_of_eq_false high.2),
        high.1, low.1, induction]
      simp only [Option.bind_eq_bind, Option.bind_some, toNat_high, toNat_low, Option.some.injEq,
        List.cons.injEq, and_true]
      apply UInt8.toNat_inj.mp
      rw [UInt8.toNat_ofNat']
      omega

/-- The ABI encoding of a `string`, filled up to whole words. -/
def encodeString (text : Text) : Bytes :=
  encodeWord 32 ++ encodeWord (utf8Bytes text).length ++ utf8Bytes text ++
    replicate ((32 - (utf8Bytes text).length % 32) % 32) 0

theorem decodeAbiStringResult_encodeString {text : Text} (fits : (utf8Bytes text).length < 2 ^ 256) :
    decodeAbiStringResult (some (.string ('0' :: 'x' :: lowercaseHex (encodeString text)))) =
      some text := by
  have wordLength : ∀ value, (encodeWord value).length = 32 := length_toBytes 32
  generalize isPadding : replicate ((32 - (utf8Bytes text).length % 32) % 32) (0 : UInt8) =
    padding
  have first := slice_append [] (encodeWord 32)
    (encodeWord (utf8Bytes text).length ++ utf8Bytes text ++ padding)
  have length := slice_append (encodeWord 32) (encodeWord (utf8Bytes text).length)
    (utf8Bytes text ++ padding)
  have content := slice_append (encodeWord 32 ++ encodeWord (utf8Bytes text).length)
    (utf8Bytes text) padding
  simp only [append_assoc, nil_append, length_nil, length_append, wordLength,
    Nat.zero_add, Nat.reduceAdd] at first length content
  simp only [decodeAbiStringResult, Option.bind_some, Option.bind_eq_bind, Json.asStr?,
    fromHex_lowercaseHex, encodeString, isPadding, append_assoc, first, length, content,
    fromBytes_encodeWord (show 32 < 2 ^ 256 by norm_num), fromBytes_encodeWord fits, Nat.reduceAdd,
    decodeUtf8_utf8Bytes, length_append, wordLength]
  rw [if_neg (by omega), if_neg (by omega), if_neg (by omega)]

def alphabet : List Char := "123456789ABCDEFGHJKLMNPQRSTUVWXYZabcdefghijkmnopqrstuvwxyz".toList

def b58Char (digit : Nat) : Char := alphabet.getD digit '1'

/-- `_B58_MAP[c]`. -/
def b58Digit (character : Char) : Option Nat :=
  if character ∈ alphabet then some (alphabet.idxOf character) else none

def leading {Value : Type} [DecidableEq Value] (value : Value) (values : List Value) : Nat :=
  (values.takeWhile (· = value)).length

/-- The digits are those that `n` loses while it is positive, the last one first. -/
def b58encode (data : Bytes) : Text :=
  replicate (leading 0 data) '1' ++ ((Nat.digits 58 (fromBytes data)).map b58Char).reverse

def b58decode (text : Text) : Option Bytes := do
  let digits ← text.mapM b58Digit
  let number := digits.foldl (fun value digit => value * 58 + digit) 0
  some (replicate (leading '1' text) 0 ++ ((Nat.digits 256 number).map UInt8.ofNat).reverse)

theorem foldl_eq_ofDigits (base : Nat) (digits : List Nat) :
    digits.foldl (fun value digit => value * base + digit) 0 = Nat.ofDigits base digits.reverse := by
  induction digits using List.reverseRecOn with
  | nil => rfl
  | append_singleton digits digit induction =>
      rw [List.foldl_append, induction, reverse_append, reverse_singleton,
        singleton_append, Nat.ofDigits_cons, foldl_cons, foldl_nil]
      ring

theorem leading_replicate_append {Value : Type} [DecidableEq Value] {value : Value}
    {values : List Value} (count : Nat) (other : values.head? ≠ some value) :
    leading value (replicate count value ++ values) = count := by
  have none : values.takeWhile (· = value) = [] := by
    cases values with
    | nil => rfl
    | cons head tail =>
        have different : head ≠ value := fun same => other (congrArg some same)
        simp [different]
  rw [leading, takeWhile_append_of_pos (by simp), none]
  simp

theorem mapM_b58Char {digits : List Nat} (small : ∀ digit ∈ digits, digit < 58) :
    (digits.map b58Char).mapM b58Digit = some digits := by
  induction digits with
  | nil => rfl
  | cons digit digits induction =>
      have here : ∀ digit < 58, b58Digit (b58Char digit) = some digit := by decide +kernel
      rw [map_cons, mapM_cons, here digit (small digit mem_cons_self),
        induction fun other inside => small other (mem_cons_of_mem _ inside)]
      rfl

theorem eq_replicate_append (data : Bytes) :
    data = replicate (leading 0 data) 0 ++ data.dropWhile (· = 0) := by
  have zeros : data.takeWhile (· = 0) = replicate (leading 0 data) 0 :=
    eq_replicate_iff.mpr ⟨rfl, fun byte member => by simpa using mem_takeWhile_imp member⟩
  rw [← zeros, takeWhile_append_dropWhile]

theorem digits_fromBytes (data : Bytes) :
    Nat.digits 256 (fromBytes data) = ((data.dropWhile (· = 0)).map UInt8.toNat).reverse := by
  have zeros : ∀ count, fromBytes (replicate count 0) = 0 := by
    intro count
    induction count with
    | zero => rfl
    | succ count induction => exact induction
  have number : fromBytes data =
      Nat.ofDigits 256 ((data.dropWhile (· = 0)).map UInt8.toNat).reverse := by
    rw [← foldl_eq_ofDigits, foldl_map]
    conv_lhs => rw [eq_replicate_append data, fromBytes_append, zeros, Nat.zero_mul, Nat.zero_add]
    rfl
  rw [number, Nat.digits_ofDigits 256 (by norm_num)]
  · intro digit member
    rcases mem_map.mp (mem_reverse.mp member) with ⟨byte, -, rfl⟩
    exact byte.toNat_lt
  · intro some
    rw [getLast_reverse, head_map]
    have kept : data.dropWhile (· = 0) ≠ [] := by simpa using some
    have first := head_dropWhile_not (fun byte : UInt8 => decide (byte = 0)) kept
    exact fun zero => absurd (UInt8.toNat_inj.mp zero) (of_decide_eq_false first)

theorem b58decode_b58encode (data : Bytes) : b58decode (b58encode data) = some data := by
  let digits := Nat.digits 58 (fromBytes data)
  have text : b58encode data =
      (replicate (leading 0 data) 0 ++ digits.reverse).map b58Char := by
    rw [b58encode, map_append, map_replicate, map_reverse]
    rfl
  have small : ∀ digit ∈ replicate (leading 0 data) 0 ++ digits.reverse, digit < 58 := by
    intro digit member
    rcases mem_append.mp member with zero | inDigits
    · rw [eq_of_mem_replicate zero]
      norm_num
    · exact Nat.digits_lt_base (by norm_num) (mem_reverse.mp inDigits)
  have ones : leading '1' (b58encode data) = leading 0 data := by
    refine leading_replicate_append _ fun isOne => ?_
    have never : ∀ digit < 58, b58Char digit = '1' → digit = 0 := by decide +kernel
    cases isDigits : digits using List.reverseRecOn with
    | nil => simp [show Nat.digits 58 (fromBytes data) = [] from isDigits] at isOne
    | append_singleton rest last =>
        have nonzero : last ≠ 0 := by
          have some : digits ≠ [] := by simp [isDigits]
          have top := Nat.getLast_digit_ne_zero 58 (Nat.digits_ne_nil_iff_ne_zero.mp some)
          simpa [show Nat.digits 58 (fromBytes data) = rest ++ [last] from isDigits] using top
        rw [show Nat.digits 58 (fromBytes data) = rest ++ [last] from isDigits] at isOne
        simp only [map_append, map_cons, map_nil, reverse_append,
          reverse_cons, reverse_nil, nil_append, cons_append, List.head?_cons,
          Option.some.injEq] at isOne
        exact nonzero (never last (small last (by simp [isDigits])) isOne)
  have number : (replicate (leading 0 data) 0 ++ digits.reverse).foldl
      (fun value digit => value * 58 + digit) 0 = fromBytes data := by
    rw [foldl_eq_ofDigits, reverse_append, reverse_reverse, reverse_replicate,
      Nat.ofDigits_append, Nat.ofDigits_replicate_zero, Nat.mul_zero, Nat.add_zero,
      Nat.ofDigits_digits]
  have bytes : ((Nat.digits 256 (fromBytes data)).map UInt8.ofNat).reverse =
      data.dropWhile (· = 0) := by
    rw [digits_fromBytes, map_reverse, reverse_reverse, map_map]
    exact (map_congr_left fun byte _ => UInt8.ofNat_toNat).trans (map_id _)
  rw [b58decode, ones, text, mapM_b58Char small]
  simp only [Option.bind_eq_bind, Option.bind_some, number, bytes]
  rw [← eq_replicate_append]

/-! ## Metadata accounts -/

/-- A number of 32 bits, the low byte first. -/
def encodeU32 (value : Nat) : Bytes := (toBytes 4 value).reverse

def decodeU32 (bytes : Bytes) : Nat := fromBytes (bytes.take 4).reverse

structure AccountInfo where
  mint : Text
  name : Text
  symbol : Text
  uri : Text
  collection : Option Text
  deriving DecidableEq

/-- `text.rstrip("\x00").strip()`. -/
def readable (text : Text) : Text := strip (text.rdropWhile (· = Char.ofNat 0))

section Parsing

-- What `errors="replace"` makes of bytes that are not UTF-8.
variable (replaced : Bytes → Text)

/-- `_read_string`, from the bytes that are left. -/
def readString (data : Bytes) : Text × Bytes :=
  if data.length < 4 then
    ([], data.drop 4)
  else
    let rest := data.drop 4
    let raw := rest.take (decodeU32 data)
    (readable ((decodeUtf8 raw).getD (replaced raw)), rest.drop (decodeU32 data))

def skipCreators : Bytes → Bytes
  | [] => []
  | present :: rest =>
      if present ≠ 0 ∧ 4 ≤ rest.length then rest.drop (4 + decodeU32 rest * 34) else rest

/-- A flag and the byte that is there if the flag is set. -/
def skipOptional : Bytes → Bytes
  | [] => []
  | present :: rest => if present ≠ 0 then rest.drop 1 else rest

def readCollection : Bytes → Option Text
  | [] => none
  | present :: rest =>
      if present ≠ 0 ∧ 33 ≤ rest.length then some (b58encode ((rest.drop 1).take 32)) else none

/-- A position of the source is what is left of the data from there on. -/
def parseMetadataAccount (data : Bytes) : Option AccountInfo :=
  if data.length < 70 ∨ data.head? ≠ some 4 then
    none
  else
    let rest := data.drop 33
    let mint := b58encode (rest.take 32)
    let (name, rest) := readString replaced (rest.drop 32)
    let (symbol, rest) := readString replaced rest
    let (uri, rest) := readString replaced rest
    let collection :=
      if rest.length < 2 then
        none
      else
        -- The flags of the first sale and of mutability stand behind the creators.
        readCollection (skipOptional (skipOptional ((skipCreators (rest.drop 2)).drop 2)))
    some ⟨mint, name, symbol, uri, collection⟩

end Parsing

abbrev Sized (count : Nat) := { bytes : Bytes // bytes.length = count }

abbrev BorshText := { text : Text // (utf8Bytes text).length < 2 ^ 32 }

/-- An account of the current layout, with whatever follows the collection. -/
structure MetadataAccount where
  updateAuthority : Sized 32
  mint : Sized 32
  name : BorshText
  symbol : BorshText
  uri : BorshText
  sellerFeeBasisPoints : Sized 2
  creators : Option { creators : List (Sized 34) // creators.length < 2 ^ 32 }
  primarySaleHappened : UInt8
  isMutable : UInt8
  editionNonce : Option UInt8
  tokenStandard : Option UInt8
  collection : Option (UInt8 × Sized 32)
  rest : Bytes

def encodeText (text : BorshText) : Bytes :=
  encodeU32 (utf8Bytes text.val).length ++ utf8Bytes text.val

/-- A flag, and the value if there is one. -/
def encodeOption {Value : Type} (encode : Value → Bytes) : Option Value → Bytes
  | none => [0]
  | some value => 1 :: encode value

namespace MetadataAccount

def encode (account : MetadataAccount) : Bytes :=
  4 :: account.updateAuthority.val ++ (account.mint.val ++ (encodeText account.name ++
    (encodeText account.symbol ++ (encodeText account.uri ++ (account.sellerFeeBasisPoints.val ++
      (encodeOption (fun creators => encodeU32 creators.val.length ++
          creators.val.flatMap Subtype.val) account.creators ++
        ([account.primarySaleHappened, account.isMutable] ++
          (encodeOption (fun value => [value]) account.editionNonce ++
            (encodeOption (fun value => [value]) account.tokenStandard ++
              (encodeOption (fun collection => collection.1 :: collection.2.val)
                account.collection ++ account.rest))))))))))

def info (account : MetadataAccount) : AccountInfo where
  mint := b58encode account.mint.val
  name := readable account.name.val
  symbol := readable account.symbol.val
  uri := readable account.uri.val
  collection := account.collection.map fun collection => b58encode collection.2.val

end MetadataAccount

variable {replaced : Bytes → Text}

theorem decodeU32_encodeU32 (fits : value < 2 ^ 32) (after : Bytes) :
    decodeU32 (encodeU32 value ++ after) = value := by
  have length : (encodeU32 value).length = 4 := by rw [encodeU32, length_reverse, length_toBytes]
  rw [decodeU32, ← length, take_left, encodeU32, reverse_reverse,
    fromBytes_toBytes (fits.trans_eq (by norm_num))]

theorem readString_encodeText (text : BorshText) (after : Bytes) :
    readString replaced (encodeText text ++ after) = (readable text.val, after) := by
  have length : (encodeU32 (utf8Bytes text.val).length).length = 4 := by
    rw [encodeU32, length_reverse, length_toBytes]
  have dropped : (encodeText text ++ after).drop 4 = utf8Bytes text.val ++ after := by
    rw [encodeText, append_assoc, ← length, drop_left]
  have count : decodeU32 (encodeText text ++ after) = (utf8Bytes text.val).length := by
    rw [encodeText, append_assoc, decodeU32_encodeU32 text.property]
  have long : ¬ (encodeText text ++ after).length < 4 := by
    simp only [encodeText, length_append, length]
    omega
  rw [readString, if_neg long]
  simp only [dropped, count, take_left, drop_left, decodeUtf8_utf8Bytes, Option.getD_some]

theorem skipCreators_encodeOption
    (creators : Option { creators : List (Sized 34) // creators.length < 2 ^ 32 }) (after : Bytes) :
    skipCreators (encodeOption (fun creators => encodeU32 creators.val.length ++
      creators.val.flatMap Subtype.val) creators ++ after) = after := by
  cases creators with
  | none => rfl
  | some creators =>
      have length : (encodeU32 creators.val.length).length = 4 := by
        rw [encodeU32, length_reverse, length_toBytes]
      have bytes : (creators.val.flatMap Subtype.val).length = creators.val.length * 34 := by
        rw [length_flatMap, map_congr_left fun creator _ => creator.property]
        simp
      rw [encodeOption, cons_append, skipCreators, append_assoc,
        decodeU32_encodeU32 creators.property, if_pos ⟨by decide, by simp [length]⟩, ← length,
        ← bytes, ← length_append, ← append_assoc, drop_left]

theorem skipOptional_encodeOption (value : Option UInt8) (after : Bytes) :
    skipOptional (encodeOption (fun value => [value]) value ++ after) = after := by
  cases value <;> rfl

theorem readCollection_encodeOption (collection : Option (UInt8 × Sized 32)) (after : Bytes) :
    readCollection (encodeOption (fun collection => collection.1 :: collection.2.val) collection ++
      after) = collection.map fun collection => b58encode collection.2.val := by
  cases collection with
  | none => rfl
  | some collection =>
      have length := collection.2.property
      rw [encodeOption, cons_append, cons_append, readCollection,
        if_pos ⟨by decide, by simp [length]⟩, drop_one, tail_cons,
        take_left' length, Option.map_some]

theorem parseMetadataAccount_encode (account : MetadataAccount) :
    parseMetadataAccount replaced account.encode = some account.info := by
  have authority : (4 :: account.updateAuthority.val).length = 33 := by
    rw [length_cons, account.updateAuthority.property]
  have u32 : ∀ value, (encodeU32 value).length = 4 := fun value => by
    rw [encodeU32, length_reverse, length_toBytes]
  have accepted : ¬ (account.encode.length < 70 ∨ account.encode.head? ≠ some 4) := by
    refine not_or.mpr ⟨?_, fun other => other rfl⟩
    simp only [MetadataAccount.encode, encodeText, length_append, authority, u32,
      account.mint.property, account.sellerFeeBasisPoints.property]
    omega
  have fee := account.sellerFeeBasisPoints.property
  rw [parseMetadataAccount, if_neg accepted]
  simp only [MetadataAccount.encode, drop_left' authority,
    take_left' account.mint.property, drop_left' account.mint.property,
    readString_encodeText, drop_left' fee, skipCreators_encodeOption]
  rw [if_neg (by rw [length_append, fee]; omega)]
  simp only [drop_left' (show [account.primarySaleHappened, account.isMutable].length = 2 from rfl),
    skipOptional_encodeOption, readCollection_encodeOption]
  rfl

end NftData.Solana
