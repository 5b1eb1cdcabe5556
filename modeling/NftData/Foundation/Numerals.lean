import NftData.Foundation.Text

namespace NftData

/-! # Decimal numerals

A text of digits stands for a natural number, and with a sign and a power of ten for a
rational number. -/

open List
open Text (ofNat)

namespace Numeral

def value (digits : Text) : Nat := Nat.ofDigitChars 10 digits 0

def IsDigits (text : Text) : Prop := ∀ character ∈ text, character.isDigit = true

theorem value_append (first second : Text) :
    value (first ++ second) = value first * 10 ^ second.length + value second := by
  rw [value, Nat.ofDigitChars_append, Nat.ofDigitChars_eq_ofDigitChars_zero, mul_comm]
  rfl

theorem value_singleton (digit : Char) : value [digit] = digit.toNat - '0'.toNat := by
  simp [value, Nat.ofDigitChars_cons]

theorem value_cons (head : Char) (tail : Text) :
    value (head :: tail) = (head.toNat - '0'.toNat) * 10 ^ tail.length + value tail := by
  rw [← singleton_append, value_append, value_singleton]

@[simp] theorem value_zeros (count : Nat) : value (List.replicate count '0') = 0 := by
  rw [value, Nat.ofDigitChars_replicate_zero, mul_zero]

theorem value_append_zeros (digits : Text) (count : Nat) :
    value (digits ++ List.replicate count '0') = value digits * 10 ^ count := by
  rw [value_append, value_zeros, length_replicate, add_zero]

theorem value_zeros_append (count : Nat) (digits : Text) :
    value (List.replicate count '0' ++ digits) = value digits := by
  rw [value_append, value_zeros, zero_mul, zero_add]

variable {other : Text}

section Digits

variable {digits : Text}

theorem IsDigits.append {first second : Text} (left : IsDigits first) (right : IsDigits second) :
    IsDigits (first ++ second) := by
  intro character member
  rcases mem_append.mp member with inFirst | inSecond
  · exact left character inFirst
  · exact right character inSecond

theorem isDigits_zeros (count : Nat) : IsDigits (List.replicate count '0') := by
  intro character member
  rw [eq_of_mem_replicate member]
  rfl

theorem IsDigits.of_subset {text : Text} (all : IsDigits digits) (subset : text ⊆ digits) :
    IsDigits text :=
  fun character member => all character (subset member)

theorem isDigit_bounds {digit : Char} (isDigit : digit.isDigit = true) :
    '0'.toNat ≤ digit.toNat ∧ digit.toNat < '0'.toNat + 10 := by
  have bounds : 48 ≤ digit.toNat ∧ digit.toNat ≤ 57 := by
    simpa [Char.isDigit, UInt32.le_iff_toNat_le] using isDigit
  have zero : '0'.toNat = 48 := rfl
  omega

theorem eq_of_digit {first second : Char} (left : first.isDigit = true)
    (right : second.isDigit = true)
    (same : first.toNat - '0'.toNat = second.toNat - '0'.toNat) : first = second := by
  have leftBounds := isDigit_bounds left
  have rightBounds := isDigit_bounds right
  apply Char.ext
  apply UInt32.toNat_inj.mp
  change first.toNat = second.toNat
  omega

theorem value_lt (all : IsDigits digits) : value digits < 10 ^ digits.length := by
  induction digits with
  | nil => decide
  | cons head tail induction =>
      have headBounds := isDigit_bounds (all head mem_cons_self)
      have tailBound := induction fun other member => all other (mem_cons_of_mem _ member)
      rw [value_cons, length_cons, pow_succ]
      have digitBound : head.toNat - '0'.toNat ≤ 9 := by omega
      have scaled := Nat.mul_le_mul_right (10 ^ tail.length) digitBound
      omega

/-- Texts of one length with one value are the same. -/
theorem eq_of_value_of_length (all : IsDigits digits) (otherAll : IsDigits other)
    (length : digits.length = other.length) (same : value digits = value other) :
    digits = other := by
  induction digits generalizing other with
  | nil => exact (length_eq_zero_iff.mp length.symm).symm
  | cons head tail induction =>
      cases other with
      | nil => exact absurd length (Nat.succ_ne_zero _)
      | cons otherHead otherTail =>
          have tailLength : tail.length = otherTail.length := Nat.succ.inj length
          have tailAll : IsDigits tail := fun digit member =>
            all digit (mem_cons_of_mem _ member)
          have otherTailAll : IsDigits otherTail := fun digit member =>
            otherAll digit (mem_cons_of_mem _ member)
          have tailBound := value_lt tailAll
          have otherBound := value_lt otherTailAll
          rw [← tailLength] at otherBound
          rw [value_cons, value_cons, ← tailLength] at same
          have high := congrArg (· / 10 ^ tail.length) same
          have low := congrArg (· % 10 ^ tail.length) same
          have positive : 0 < 10 ^ tail.length := Nat.pow_pos (by decide)
          simp only [Nat.mul_comm _ (10 ^ tail.length), Nat.mul_add_div positive,
            Nat.div_eq_of_lt tailBound, Nat.div_eq_of_lt otherBound, add_zero] at high
          simp only [Nat.mul_comm _ (10 ^ tail.length), Nat.mul_add_mod,
            Nat.mod_eq_of_lt tailBound, Nat.mod_eq_of_lt otherBound] at low
          rw [eq_of_digit (all head mem_cons_self) (otherAll otherHead mem_cons_self)
            high, induction tailAll otherTailAll tailLength low]

def NoLeadingZero (digits : Text) : Prop := ∀ digit ∈ digits.head?, digit ≠ '0'

def NoTrailingZero (digits : Text) : Prop := ∀ digit ∈ digits.getLast?, digit ≠ '0'

theorem noLeadingZero_take (noLeading : NoLeadingZero digits) {split : Nat}
    (positive : 0 < split) : NoLeadingZero (digits.take split) := by
  intro digit isHead
  rw [List.head?_take, if_neg positive.ne'] at isHead
  exact noLeading digit isHead

theorem le_value (all : IsDigits digits) (nonempty : digits ≠ [])
    (noLeading : NoLeadingZero digits) : 10 ^ (digits.length - 1) ≤ value digits := by
  cases digits with
  | nil => exact absurd rfl nonempty
  | cons head tail =>
      have isDigit := all head mem_cons_self
      have notZero : head ≠ '0' := noLeading head rfl
      have bounds := isDigit_bounds isDigit
      have positive : 1 ≤ head.toNat - '0'.toNat := by
        by_contra small
        exact notZero (eq_of_digit isDigit rfl (by omega))
      have scaled := Nat.mul_le_mul_right (10 ^ tail.length) positive
      rw [value_cons, length_cons, Nat.add_sub_cancel]
      omega

theorem dropWhile_zeros (noLeading : NoLeadingZero digits) (nonempty : digits ≠ []) (front : Nat)
    (after : Text) :
    (List.replicate front '0' ++ (digits ++ after)).dropWhile (fun digit => digit = '0') =
      digits ++ after := by
  rw [dropWhile_append_of_pos fun digit member => by
    rw [eq_of_mem_replicate member]
    rfl]
  cases digits with
  | nil => exact absurd rfl nonempty
  | cons head tail =>
      have notZero : head ≠ '0' := noLeading head rfl
      rw [cons_append, dropWhile_cons_of_neg (by simpa using notZero)]

theorem value_pos (all : IsDigits digits) (nonempty : digits ≠ [])
    (noLeading : NoLeadingZero digits) : 0 < value digits :=
  (Nat.pow_pos (by decide)).trans_le (le_value all nonempty noLeading)

/-- Without leading zeros, the value determines the digits. -/
theorem eq_of_value (all : IsDigits digits) (otherAll : IsDigits other)
    (noLeading : NoLeadingZero digits) (otherNoLeading : NoLeadingZero other)
    (same : value digits = value other) : digits = other := by
  by_cases empty : digits = []
  · subst empty
    by_contra different
    have positive := value_pos otherAll (Ne.symm different) otherNoLeading
    rw [← same] at positive
    exact absurd positive (lt_irrefl 0)
  by_cases otherEmpty : other = []
  · subst otherEmpty
    have positive := value_pos all empty noLeading
    rw [same] at positive
    exact absurd positive (lt_irrefl 0)
  apply eq_of_value_of_length all otherAll _ same
  have lower := le_value all empty noLeading
  have otherLower := le_value otherAll otherEmpty otherNoLeading
  have upper := value_lt all
  have otherUpper := value_lt otherAll
  have first : digits.length - 1 < other.length :=
    (Nat.pow_lt_pow_iff_right (by decide : 1 < 10)).mp (by omega)
  have second : other.length - 1 < digits.length :=
    (Nat.pow_lt_pow_iff_right (by decide : 1 < 10)).mp (by omega)
  have positive := length_pos_iff.mpr empty
  have otherPositive := length_pos_iff.mpr otherEmpty
  omega

theorem value_mod_ten (all : IsDigits digits) (nonempty : digits ≠ [])
    (noTrailing : NoTrailingZero digits) : ¬ 10 ∣ value digits := by
  rcases eq_nil_or_concat' digits with rfl | ⟨front, last, rfl⟩
  · exact absurd rfl nonempty
  · have isDigit := all last (mem_append_right _ mem_cons_self)
    have notZero : last ≠ '0' := noTrailing last List.getLast?_concat
    have bounds := isDigit_bounds isDigit
    rw [value_append, value_singleton, length_singleton, pow_one]
    intro divides
    apply notZero
    apply eq_of_digit isDigit rfl
    omega

end Digits

theorem isDigits_ofNat (number : Nat) : IsDigits (ofNat number) :=
  fun _ member => Nat.isDigit_of_mem_toDigits (by decide) (by decide) member

@[simp] theorem value_ofNat (number : Nat) : value (ofNat number) = number :=
  Nat.ofDigitChars_ten_toDigits

theorem ofNat_ne_nil (number : Nat) : ofNat number ≠ [] := Nat.toDigits_ne_nil

theorem noLeadingZero_ofNat {number : Nat} (nonzero : number ≠ 0) :
    NoLeadingZero (ofNat number) := by
  have all := isDigits_ofNat number
  have isNumber := value_ofNat number
  have shortest : ∀ length, 0 < length →
      ((ofNat number).length ≤ length ↔ number < 10 ^ length) :=
    fun length positive => Nat.length_toDigits_le_iff (by decide) positive
  generalize ofNat number = digits at all isNumber shortest
  rintro _ isHead rfl
  cases digits with
  | nil => cases isHead
  | cons head tail =>
      cases isHead
      have tailBound := value_lt fun other member => all other (mem_cons_of_mem _ member)
      rw [value_cons, Nat.sub_self, zero_mul, zero_add] at isNumber
      rw [isNumber] at tailBound
      by_cases single : tail = []
      · rw [single, length_nil, pow_zero] at tailBound
        omega
      · have tooShort := (shortest tail.length (length_pos_iff.mpr single)).mpr tailBound
        rw [length_cons] at tooShort
        omega

/-- A signed integer, as `to_string` prints it. -/
def ofInt (number : Int) : Text :=
  if number < 0 then '-' :: ofNat number.natAbs else ofNat number.natAbs

def scaled (negative : Bool) (digits : Text) (power : Int) : ℚ :=
  (if negative then -1 else 1) * value digits * 10 ^ power

theorem scaled_append_zeros (negative : Bool) (digits : Text) (count : Nat) (power : Int) :
    scaled negative (digits ++ List.replicate count '0') power =
      scaled negative digits (power + count) := by
  rw [scaled, scaled, value_append_zeros, zpow_add₀ (by norm_num : (10 : ℚ) ≠ 0)]
  push_cast
  rw [zpow_natCast]
  ring

theorem scaled_zeros_append (negative : Bool) (digits : Text) (count : Nat) (power : Int) :
    scaled negative (List.replicate count '0' ++ digits) power =
      scaled negative digits power := by
  rw [scaled, scaled, value_zeros_append]

variable {otherPower power : Int}

/-- A factor of ten on one side is missing on the other. -/
theorem power_le_of_mul_eq {first second : Nat} (noTrailing : ¬ 10 ∣ second)
    (same : (first : ℚ) * 10 ^ power = second * 10 ^ otherPower) : power ≤ otherPower := by
  by_contra greater
  have positive : 0 < power - otherPower := by omega
  obtain ⟨gap, isGap⟩ := Int.eq_ofNat_of_zero_le (by omega : 0 ≤ power - otherPower - 1)
  have isPower : power = otherPower + (gap + 1 : Nat) := by push_cast; omega
  rw [isPower, zpow_add₀ (by norm_num : (10 : ℚ) ≠ 0), zpow_natCast] at same
  have cancelled : (first : ℚ) * 10 ^ (gap + 1) = second := by
    have nonzero : (10 : ℚ) ^ otherPower ≠ 0 := zpow_ne_zero _ (by norm_num)
    apply mul_right_cancel₀ nonzero
    rw [← same]
    ring
  have naturals : first * 10 ^ (gap + 1) = second := by exact_mod_cast cancelled
  apply noTrailing
  rw [← naturals, pow_succ]
  exact ⟨first * 10 ^ gap, by ring⟩

/-- Digits without zeros at their ends, which a number has once. -/
structure IsReduced (digits : Text) : Prop where
  all : IsDigits digits
  nonempty : digits ≠ []
  noLeading : NoLeadingZero digits
  noTrailing : NoTrailingZero digits

variable {digits : Text}

theorem IsReduced.scaled_ne_zero (reduced : IsReduced digits) (negative : Bool) (power : Int) :
    scaled negative digits power ≠ 0 := by
  have positive := value_pos reduced.all reduced.nonempty reduced.noLeading
  have nonzero : (value digits : ℚ) ≠ 0 := by exact_mod_cast positive.ne'
  have scale : (10 : ℚ) ^ power ≠ 0 := zpow_ne_zero _ (by norm_num)
  rw [scaled]
  cases negative <;> simp [nonzero, scale]

theorem IsReduced.unique (reduced : IsReduced digits) (otherReduced : IsReduced other)
    {negative otherNegative : Bool}
    (same : scaled negative digits power = scaled otherNegative other otherPower) :
    negative = otherNegative ∧ digits = other ∧ power = otherPower := by
  have positive : (0 : ℚ) < value digits * 10 ^ power := by
    have digitsPositive := value_pos reduced.all reduced.nonempty reduced.noLeading
    positivity
  have otherPositive : (0 : ℚ) < value other * 10 ^ otherPower := by
    have digitsPositive := value_pos otherReduced.all otherReduced.nonempty otherReduced.noLeading
    positivity
  rw [scaled, scaled, mul_assoc, mul_assoc] at same
  have sign : negative = otherNegative := by
    cases negative <;> cases otherNegative
    · rfl
    · simp only [Bool.false_eq_true, if_false, if_true] at same
      linarith
    · simp only [Bool.false_eq_true, if_false, if_true] at same
      linarith
    · rfl
  subst sign
  have magnitude : (value digits : ℚ) * 10 ^ power = value other * 10 ^ otherPower := by
    cases negative
    · simpa using same
    · simp only [if_true] at same
      linarith
  have notDivisible := value_mod_ten reduced.all reduced.nonempty reduced.noTrailing
  have otherNotDivisible :=
    value_mod_ten otherReduced.all otherReduced.nonempty otherReduced.noTrailing
  have powers : power = otherPower :=
    le_antisymm (power_le_of_mul_eq otherNotDivisible magnitude)
      (power_le_of_mul_eq notDivisible magnitude.symm)
  subst powers
  have scale : (10 : ℚ) ^ power ≠ 0 := zpow_ne_zero _ (by norm_num)
  have values : value digits = value other := by
    exact_mod_cast mul_right_cancel₀ scale magnitude
  exact ⟨rfl, eq_of_value reduced.all otherReduced.all reduced.noLeading
    otherReduced.noLeading values, rfl⟩

end Numeral

end NftData
