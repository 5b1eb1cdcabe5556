import NftData.Foundation.Text

namespace NftData.TopContracts

/-! # Chains, contracts and their names in files -/

inductive Chain where
  | ethereum
  | base
  | polygon
  | solana
  deriving DecidableEq, Repr

namespace Chain

/-- `Chain::ALL`. -/
def all : List Chain := [.ethereum, .base, .polygon, .solana]

def asStr : Chain → Text
  | .ethereum => "ethereum".toList
  | .base => "base".toList
  | .polygon => "polygon".toList
  | .solana => "solana".toList

theorem mem_all (chain : Chain) : chain ∈ all := by
  cases chain <;> simp [all]

theorem nodup_all : all.Nodup := by decide

theorem filter_all (chain : Chain) : (all.filter fun other => other = chain) = [chain] := by
  cases chain <;> decide

theorem asStr_injective : Function.Injective asStr := by
  intro left right same
  have heads := congrArg List.head? same
  cases left <;> cases right <;> first | rfl | cases heads

theorem not_mem_asStr (chain : Chain) : '_' ∉ chain.asStr := by
  cases chain <;> exact of_decide_eq_true rfl

end Chain

structure ContractId where
  chain : Chain
  address : Text
  deriving DecidableEq, Repr

/-- `str::as_bytes`. -/
def utf8Bytes (text : Text) : List UInt8 := text.flatMap String.utf8EncodeChar

def hexDigit (value : UInt8) : Char := "0123456789abcdef".toList.getD value.toNat '0'

def lowercaseHex (bytes : List UInt8) : Text :=
  bytes.flatMap fun byte : UInt8 => [hexDigit (byte >>> 4), hexDigit (byte &&& 0x0f)]

theorem utf8Bytes_injective : Function.Injective utf8Bytes := by
  intro left right same
  have encoded : left.utf8Encode = right.utf8Encode := congrArg List.toByteArray same
  apply String.ofList_injective
  apply String.toByteArray_inj.mp
  simpa using encoded

theorem toNat_high (byte : UInt8) : (byte >>> 4).toNat = byte.toNat / 16 := by
  rw [UInt8.toNat_shiftRight, Nat.shiftRight_eq_div_pow]
  rfl

theorem toNat_low (byte : UInt8) : (byte &&& 0x0f).toNat = byte.toNat % 16 := by
  rw [UInt8.toNat_and]
  simpa using Nat.and_two_pow_sub_one_eq_mod byte.toNat 4

theorem hexDigit_injective {left right : UInt8} (leftDigit : left.toNat < 16)
    (rightDigit : right.toNat < 16) (same : hexDigit left = hexDigit right) :
    left.toNat = right.toNat := by
  have distinct : ∀ first : Nat, first < 16 → ∀ second : Nat, second < 16 →
      "0123456789abcdef".toList.getD first '0' = "0123456789abcdef".toList.getD second '0' →
      first = second := by decide
  exact distinct _ leftDigit _ rightDigit same

theorem lowercaseHex_injective : Function.Injective lowercaseHex := by
  intro left right same
  induction left generalizing right with
  | nil =>
      cases right with
      | nil => rfl
      | cons byte bytes => cases same
  | cons head tail induction =>
      cases right with
      | nil => cases same
      | cons byte bytes =>
          have parts : hexDigit (head >>> 4) = hexDigit (byte >>> 4) ∧
              hexDigit (head &&& 0x0f) = hexDigit (byte &&& 0x0f) ∧
              lowercaseHex tail = lowercaseHex bytes := by
            simpa [lowercaseHex] using same
          have headBound := head.toNat_lt
          have byteBound := byte.toNat_lt
          have high := hexDigit_injective (by rw [toNat_high]; omega)
            (by rw [toNat_high]; omega) parts.1
          have low := hexDigit_injective (by rw [toNat_low]; omega)
            (by rw [toNat_low]; omega) parts.2.1
          rw [toNat_high, toNat_high] at high
          rw [toNat_low, toNat_low] at low
          have equal : head = byte := UInt8.toNat_inj.mp (by omega)
          rw [equal, induction parts.2.2]

theorem not_mem_lowercaseHex {bytes : List UInt8} {character : Char}
    (other : character ∉ "0123456789abcdef".toList) : character ∉ lowercaseHex bytes := by
  have inDigits (value : UInt8) : hexDigit value ∈ "0123456789abcdef".toList := by
    have digits : ∀ number : Nat, "0123456789abcdef".toList.getD number '0' ∈
        "0123456789abcdef".toList := by
      intro number
      by_cases inside : number < 16
      · rw [List.getD_eq_getElem _ _ (by exact inside)]
        exact List.getElem_mem _
      · rw [List.getD_eq_default _ _ (by simpa using inside)]
        decide
    exact digits value.toNat
  intro member
  rcases List.mem_flatMap.mp member with ⟨byte, _, inByte⟩
  rcases List.mem_pair.mp inByte with isHigh | isLow
  · exact other (isHigh ▸ inDigits _)
  · exact other (isLow ▸ inDigits _)

end NftData.TopContracts
