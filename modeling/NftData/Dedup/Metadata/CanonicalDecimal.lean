import NftData.Foundation.Numerals

namespace NftData.Dedup

open Option
open List
open Numeral

/-! # Decimal numbers of metadata

A JSON number keeps its spelling. Two spellings of one number get one canonical spelling,
without any rounding. -/

def fitsInt (signed : Bool) (bits : Nat) (value : Int) : Bool :=
  if signed then -2 ^ (bits - 1) ≤ value && value < 2 ^ (bits - 1)
  else 0 ≤ value && value < 2 ^ bits

/-- The result of a checked operation on `i128`. -/
def checkedI128 (value : Int) : Option Int :=
  if fitsInt true 128 value then some value else none

def parseDigits (signed : Bool) (bits : Nat) (negative : Bool) (digits : Text) : Option Int :=
  let number : Int := if negative then -value digits else value digits
  if digits ≠ [] ∧ digits.all Char.isDigit ∧ fitsInt signed bits number then some number
  else none

/-- `str::parse` for an integer: a sign, which is a minus only for signed integers, and
digits. -/
def parseInt (signed : Bool) (bits : Nat) (text : Text) : Option Int :=
  match text with
  | '-' :: digits => if signed then parseDigits signed bits true digits else none
  | '+' :: digits => parseDigits signed bits false digits
  | digits => parseDigits signed bits false digits

/-- `str::find`: what stands before the first such character, and what stands behind it. -/
def splitAtFirst (found : Char → Bool) (text : Text) : Text × Option Text :=
  (text.takeWhile fun character => !found character,
    (text.dropWhile fun character => !found character).tail?)

def stripSign (raw : Text) : Bool × Text :=
  match raw with
  | '-' :: unsigned => (true, unsigned)
  | unsigned => (false, unsigned)

def mantissaAndExponent (unsigned : Text) : Option (Text × Int) :=
  match splitAtFirst (fun character => character = 'e' || character = 'E') unsigned with
  | (mantissa, some exponent) =>
      (parseInt true 128 exponent).map fun exponent => (mantissa, exponent)
  | (_, none) => some (unsigned, 0)

def integerAndFraction (mantissa : Text) : Text × Text :=
  match splitAtFirst (fun character => character = '.') mantissa with
  | (integer, some fraction) => (integer, fraction)
  | (_, none) => (mantissa, [])

def signText (negative : Bool) : Text := if negative then ['-'] else []

/-- Print digits and a power of ten: as an integer, with a point inside, with zeros behind
the point, or with an exponent. -/
def renderDecimal (negative : Bool) (digits : Text) (power : Int) : Option Text :=
  let sign := signText negative
  if 0 ≤ power ∧ power ≤ 64 then
    some (sign ++ digits ++ List.replicate power.toNat '0')
  else
    (checkedI128 (digits.length + power)).bind fun decimalPosition =>
      if 0 < decimalPosition ∧ decimalPosition < digits.length then
        let split := decimalPosition.toNat
        some (sign ++ digits.take split ++ '.' :: digits.drop split)
      else if -64 ≤ decimalPosition ∧ decimalPosition ≤ 0 then
        some (sign ++ ['0', '.'] ++ List.replicate (-decimalPosition).toNat '0' ++ digits)
      else
        (checkedI128 (power + (digits.length - 1 : Nat))).map fun scientificExponent =>
          sign ++ digits.take 1 ++ (if 1 < digits.length then '.' :: digits.drop 1 else []) ++
            if scientificExponent ≠ 0 then 'e' :: ofInt scientificExponent else []

/-- A length always fits into `i128`, so only the sums are checked. -/
def canonicalDigits (negative : Bool) (integer fraction : Text) (exponent : Int) :
    Option Text :=
  let digits := (integer ++ fraction).dropWhile fun digit => digit = '0'
  if digits = [] then
    some ['0']
  else
    let stripped := digits.rdropWhile fun digit => digit = '0'
    let trailingZeros := digits.length - stripped.length
    (checkedI128 (exponent - fraction.length)).bind fun power =>
      (checkedI128 (power + trailingZeros)).bind fun power =>
        renderDecimal negative stripped power

def canonicalDecimal (raw : Text) : Option Text :=
  let (negative, unsigned) := stripSign raw
  (mantissaAndExponent unsigned).bind fun (mantissa, exponent) =>
    let (integer, fraction) := integerAndFraction mantissa
    canonicalDigits negative integer fraction exponent

example : canonicalDecimal "12345678901234567890.5000".toList =
    some "12345678901234567890.5".toList := by decide

/-- The exponent of a JSON number. -/
structure ExponentPart where
  marker : Char
  sign : Text
  digits : Text
  isMarker : marker = 'e' ∨ marker = 'E'
  isSign : sign = [] ∨ sign = ['+'] ∨ sign = ['-']
  isDigits : IsDigits digits
  nonempty : digits ≠ []

namespace ExponentPart

def signed (part : ExponentPart) : Text := part.sign ++ part.digits

def text (part : ExponentPart) : Text := part.marker :: part.signed

def number (part : ExponentPart) : Int :=
  if part.sign = ['-'] then -value part.digits else value part.digits

end ExponentPart

/-- A JSON number, by the parts of its spelling. -/
structure NumberLiteral where
  negative : Bool
  integer : Text
  fraction : Option Text
  exponent : Option ExponentPart
  integer_isDigits : IsDigits integer
  integer_nonempty : integer ≠ []
  noLeadingZero : integer = ['0'] ∨ NoLeadingZero integer
  fraction_isDigits : ∀ digits ∈ fraction, IsDigits digits ∧ digits ≠ []

namespace NumberLiteral

def mantissa (literal : NumberLiteral) : Text :=
  literal.integer ++ literal.fraction.elim [] fun digits => '.' :: digits

def unsigned (literal : NumberLiteral) : Text :=
  literal.mantissa ++ literal.exponent.elim [] ExponentPart.text

def text (literal : NumberLiteral) : Text :=
  signText literal.negative ++ literal.unsigned

def fractionDigits (literal : NumberLiteral) : Text := literal.fraction.getD []

def exponentNumber (literal : NumberLiteral) : Int :=
  literal.exponent.elim 0 ExponentPart.number

def number (literal : NumberLiteral) : ℚ :=
  scaled literal.negative (literal.integer ++ literal.fractionDigits)
    (literal.exponentNumber - literal.fractionDigits.length)

end NumberLiteral

/-! ## Reading a literal back -/

variable {found : Char → Bool}

theorem splitAtFirst_append {before : Text} (absent : ∀ character ∈ before, found character = false)
    (after : Text) :
    splitAtFirst found (before ++ after) =
      (before ++ (splitAtFirst found after).1, (splitAtFirst found after).2) := by
  have pass : ∀ character ∈ before, (!found character) = true := by
    intro character member
    rw [absent character member]
    rfl
  rw [splitAtFirst, splitAtFirst, takeWhile_append_of_pos pass,
    dropWhile_append_of_pos pass]

theorem splitAtFirst_cons {marker : Char} (isFound : found marker = true) (after : Text) :
    splitAtFirst found (marker :: after) = ([], some after) := by
  simp [splitAtFirst, isFound]

theorem splitAtFirst_of_absent {text : Text} (absent : ∀ character ∈ text, found character = false)
    :
    splitAtFirst found text = (text, none) := by
  have all := splitAtFirst_append absent []
  rw [append_nil] at all
  rw [all]
  simp [splitAtFirst]

def isExponentMarker (character : Char) : Bool := character = 'e' || character = 'E'

theorem isDigit_ne {digit marker : Char} (isDigit : digit.isDigit = true)
    (notDigit : marker.isDigit = false) : digit ≠ marker := by
  rintro rfl
  rw [isDigit] at notDigit
  cases notDigit

theorem not_isExponentMarker_of_isDigit {digit : Char} (isDigit : digit.isDigit = true) :
    isExponentMarker digit = false := by
  have notSmall := @isDigit_ne _ 'e' isDigit rfl
  have notLarge := @isDigit_ne _ 'E' isDigit rfl
  simp [isExponentMarker, notSmall, notLarge]

namespace NumberLiteral

variable (literal : NumberLiteral)

theorem fractionDigits_isDigits : IsDigits literal.fractionDigits := by
  rw [fractionDigits]
  cases isFraction : literal.fraction with
  | none => exact fun _ member => absurd member not_mem_nil
  | some digits => exact (literal.fraction_isDigits digits isFraction).1

theorem exists_integer : ∃ head tail, literal.integer = head :: tail ∧ head.isDigit = true := by
  rcases exists_cons_of_ne_nil literal.integer_nonempty with ⟨head, tail, isInteger⟩
  exact ⟨head, tail, isInteger, literal.integer_isDigits _ (isInteger ▸ mem_cons_self)⟩

theorem stripSign_text : stripSign literal.text = (literal.negative, literal.unsigned) := by
  rw [text]
  cases literal.negative with
  | true => rfl
  | false =>
      rw [signText, if_neg Bool.false_ne_true, nil_append]
      rcases literal.exists_integer with ⟨head, tail, isInteger, isDigit⟩
      rw [unsigned, mantissa, isInteger, cons_append, cons_append, stripSign]
      intro rest equal
      exact isDigit_ne isDigit rfl (List.cons.inj equal).1

theorem mantissa_no_marker :
    ∀ character ∈ literal.mantissa, isExponentMarker character = false := by
  intro character member
  rcases mem_append.mp member with inInteger | inFraction
  · exact not_isExponentMarker_of_isDigit (literal.integer_isDigits character inInteger)
  · cases isFraction : literal.fraction with
    | none =>
        rw [isFraction] at inFraction
        exact absurd inFraction not_mem_nil
    | some digits =>
        rw [isFraction] at inFraction
        rcases mem_cons.mp inFraction with rfl | inDigits
        · rfl
        · exact not_isExponentMarker_of_isDigit
            ((literal.fraction_isDigits digits isFraction).1 character inDigits)

theorem splitAtFirst_unsigned :
    splitAtFirst isExponentMarker literal.unsigned =
      (literal.mantissa, literal.exponent.map ExponentPart.signed) := by
  rw [unsigned]
  cases literal.exponent with
  | none =>
      rw [elim_none, append_nil]
      exact splitAtFirst_of_absent literal.mantissa_no_marker
  | some part =>
      have isMarker : isExponentMarker part.marker = true := by
        rcases part.isMarker with small | large
        · rw [small]
          rfl
        · rw [large]
          rfl
      rw [elim_some, ExponentPart.text, splitAtFirst_append literal.mantissa_no_marker,
        splitAtFirst_cons isMarker, append_nil]
      rfl

theorem integerAndFraction_mantissa :
    integerAndFraction literal.mantissa = (literal.integer, literal.fractionDigits) := by
  have noPoint : ∀ character ∈ literal.integer, decide (character = '.') = false := by
    intro character member
    exact decide_eq_false (isDigit_ne (literal.integer_isDigits character member) rfl)
  rw [integerAndFraction, mantissa, fractionDigits]
  cases literal.fraction with
  | none =>
      rw [elim_none, append_nil, splitAtFirst_of_absent noPoint]
      rfl
  | some digits =>
      rw [elim_some, splitAtFirst_append noPoint, splitAtFirst_cons rfl, append_nil]
      rfl

end NumberLiteral

namespace ExponentPart

variable (part : ExponentPart)

theorem exists_head :
    ∃ head tail, part.digits = head :: tail ∧ head ≠ '-' ∧ head ≠ '+' := by
  cases isDigits : part.digits with
  | nil => exact absurd isDigits part.nonempty
  | cons head tail =>
      have isDigit : head.isDigit = true := by
        apply part.isDigits
        rw [isDigits]
        exact mem_cons_self
      exact ⟨head, tail, rfl, isDigit_ne isDigit rfl, isDigit_ne isDigit rfl⟩

theorem parseInt_signed : parseInt true 128 part.signed = checkedI128 part.number := by
  have all : part.digits.all Char.isDigit = true := all_eq_true.mpr part.isDigits
  rw [signed, number, checkedI128]
  rcases part.isSign with none | plus | minus
  · rcases part.exists_head with ⟨head, tail, isDigits, notMinus, notPlus⟩
    rw [isDigits] at all
    rw [none, nil_append, isDigits, parseInt, parseDigits]
    · simp [all]
    · intro rest equal
      exact notMinus (List.cons.inj equal).1
    · intro rest equal
      exact notPlus (List.cons.inj equal).1
  · rw [plus, singleton_append, parseInt, parseDigits]
    simp [part.nonempty, all]
  · rw [minus, singleton_append, parseInt, if_pos rfl, parseDigits]
    simp [part.nonempty, all]

end ExponentPart

/-- The literal is read by its parts. -/
theorem canonicalDecimal_text (literal : NumberLiteral) :
    canonicalDecimal literal.text =
      (checkedI128 literal.exponentNumber).bind
        (canonicalDigits literal.negative literal.integer literal.fractionDigits) := by
  have split := literal.splitAtFirst_unsigned
  rw [canonicalDecimal, literal.stripSign_text]
  simp only [mantissaAndExponent]
  rw [show (fun character : Char => decide (character = 'e') || decide (character = 'E')) =
    isExponentMarker from rfl, split, NumberLiteral.exponentNumber]
  cases isExponent : literal.exponent with
  | none =>
      have whole : literal.unsigned = literal.mantissa := by
        rw [NumberLiteral.unsigned, isExponent, elim_none, append_nil]
      simp only [map_none, elim_none, bind_some, whole,
        literal.integerAndFraction_mantissa]
      rfl
  | some part =>
      simp only [map_some, elim_some, part.parseInt_signed]
      cases checkedI128 part.number with
      | none => rfl
      | some number =>
          simp only [map_some, bind_some, literal.integerAndFraction_mantissa]

theorem ExponentPart.text_injective : Function.Injective ExponentPart.text := by
  intro first second same
  rcases List.cons.inj same with ⟨markers, signs⟩
  have equal : first.sign = second.sign ∧ first.digits = second.digits := by
    rcases first.exists_head with ⟨head, tail, isDigits, notMinus, notPlus⟩
    rcases second.exists_head with ⟨otherHead, otherTail, otherDigits, otherMinus, otherPlus⟩
    rw [signed, signed] at signs
    rcases first.isSign with sign | sign | sign <;>
    rcases second.isSign with otherSign | otherSign | otherSign <;>
      simp only [sign, otherSign, isDigits, otherDigits, nil_append, cons_append,
        List.cons.injEq, true_and] at signs ⊢
    · exact signs
    · exact absurd signs.1 notPlus
    · exact absurd signs.1 notMinus
    · exact absurd signs.1.symm otherPlus
    · exact signs
    · exact absurd signs.1 (by decide)
    · exact absurd signs.1.symm otherMinus
    · exact absurd signs.1 (by decide)
    · exact signs
  rcases first with ⟨marker, sign, digits, _, _, _, _⟩
  rcases second with ⟨otherMarker, otherSign, otherDigits, _, _, _, _⟩
  simp only at markers equal
  rcases equal with ⟨rfl, rfl⟩
  subst markers
  rfl

theorem NumberLiteral.text_injective : Function.Injective NumberLiteral.text := by
  intro first second same
  have signs := congrArg stripSign same
  rw [stripSign_text, stripSign_text, Prod.mk.injEq] at signs
  have parts := congrArg (splitAtFirst isExponentMarker) signs.2
  rw [splitAtFirst_unsigned, splitAtFirst_unsigned, Prod.mk.injEq] at parts
  have digits := congrArg integerAndFraction parts.1
  rw [integerAndFraction_mantissa, integerAndFraction_mantissa, Prod.mk.injEq] at digits
  have fractions : first.fraction = second.fraction := by
    have behind := digits.2
    rw [fractionDigits, fractionDigits] at behind
    cases isFraction : first.fraction with
    | none =>
        cases otherFraction : second.fraction with
        | none => rfl
        | some other =>
            rw [isFraction, otherFraction] at behind
            exact absurd behind.symm (second.fraction_isDigits other otherFraction).2
    | some fraction =>
        cases otherFraction : second.fraction with
        | none =>
            rw [isFraction, otherFraction] at behind
            exact absurd behind (first.fraction_isDigits fraction isFraction).2
        | some other =>
            rw [isFraction, otherFraction] at behind
            exact congrArg some behind
  have exponents : first.exponent = second.exponent := by
    have behind := signs.2
    rw [unsigned, unsigned, parts.1] at behind
    have texts := append_cancel_left behind
    cases isExponent : first.exponent with
    | none =>
        cases otherExponent : second.exponent with
        | none => rfl
        | some other =>
            rw [isExponent, otherExponent] at texts
            cases texts
    | some part =>
        cases otherExponent : second.exponent with
        | none =>
            rw [isExponent, otherExponent] at texts
            cases texts
        | some other =>
            rw [isExponent, otherExponent] at texts
            exact congrArg some (ExponentPart.text_injective texts)
  rcases first with ⟨negative, integer, fraction, exponent, _, _, _, _⟩
  rcases second with ⟨otherNegative, otherInteger, otherFraction, otherExponent, _, _, _, _⟩
  simp only at signs digits fractions exponents
  rcases signs with ⟨rfl, _⟩
  rcases digits with ⟨rfl, _⟩
  subst fractions
  subst exponents
  rfl

variable {digits : Text} {second first : NumberLiteral}

theorem rdropWhile_zeros (noTrailing : NoTrailingZero digits) (nonempty : digits ≠ []) (back : Nat)
    :
    (digits ++ List.replicate back '0').rdropWhile (fun digit => digit = '0') = digits := by
  have leading : NoLeadingZero digits.reverse := by
    intro digit member
    rw [List.head?_reverse] at member
    exact noTrailing digit member
  have dropped := dropWhile_zeros leading (by simpa using nonempty) back []
  rw [append_nil] at dropped
  rw [List.rdropWhile, reverse_append, reverse_replicate, dropped,
    reverse_reverse]

theorem exists_front (digits : Text) :
    ∃ front, digits = List.replicate front '0' ++ digits.dropWhile fun digit => digit = '0' := by
  have zeros : (digits.takeWhile fun digit => digit = '0') =
      List.replicate (digits.takeWhile fun digit => digit = '0').length '0' := by
    apply eq_replicate_of_mem
    intro digit member
    have taken := mem_takeWhile_imp member
    simpa using taken
  exact ⟨_, by rw [← zeros, takeWhile_append_dropWhile]⟩

theorem exists_back (digits : Text) :
    ∃ back, digits = (digits.rdropWhile fun digit => digit = '0') ++
      List.replicate back '0' := by
  rcases exists_front digits.reverse with ⟨back, equal⟩
  refine ⟨back, ?_⟩
  have reversed := congrArg List.reverse equal
  rw [reverse_reverse, reverse_append, reverse_replicate] at reversed
  exact reversed

namespace NumberLiteral

/-- The digits of the literal are reduced digits between zeros; those behind count for the
power. -/
structure HasParts (literal : NumberLiteral) (digits : Text) (power : Int) : Prop where
  reduced : IsReduced digits
  zeros : ∃ front back : Nat,
    literal.integer ++ literal.fractionDigits =
        List.replicate front '0' ++ (digits ++ List.replicate back '0') ∧
      power = literal.exponentNumber - literal.fractionDigits.length + back

variable {literal : NumberLiteral} {digits : Text} {power : Int}

theorem HasParts.number_eq (parts : literal.HasParts digits power) :
    literal.number = scaled literal.negative digits power := by
  rcases parts.zeros with ⟨front, back, spelled, isPower⟩
  rw [number, spelled, scaled_zeros_append, scaled_append_zeros, isPower]

theorem HasParts.canonicalDigits_eq (parts : literal.HasParts digits power) :
    canonicalDigits literal.negative literal.integer literal.fractionDigits
        literal.exponentNumber =
      (checkedI128 (literal.exponentNumber - literal.fractionDigits.length)).bind fun _ =>
        (checkedI128 power).bind fun power => renderDecimal literal.negative digits power := by
  rcases parts.zeros with ⟨front, back, spelled, isPower⟩
  have reduced := parts.reduced
  rw [canonicalDigits, spelled, dropWhile_zeros reduced.noLeading reduced.nonempty]
  simp only [rdropWhile_zeros reduced.noTrailing reduced.nonempty]
  rw [if_neg fun empty => reduced.nonempty (append_eq_nil_iff.mp empty).1,
    length_append, length_replicate, Nat.add_sub_cancel_left]
  apply Option.bind_congr
  intro difference isDifference
  have same : literal.exponentNumber - literal.fractionDigits.length = difference := by
    rw [checkedI128] at isDifference
    split at isDifference
    · exact Option.some.inj isDifference
    · cases isDifference
  rw [← same, isPower]

theorem zeros_or_parts (literal : NumberLiteral) :
    (∃ count, literal.integer ++ literal.fractionDigits = List.replicate count '0') ∨
      ∃ digits power, literal.HasParts digits power := by
  have all : IsDigits (literal.integer ++ literal.fractionDigits) :=
    literal.integer_isDigits.append literal.fractionDigits_isDigits
  rcases exists_front (literal.integer ++ literal.fractionDigits) with ⟨front, isFront⟩
  generalize hDropped : ((literal.integer ++ literal.fractionDigits).dropWhile fun digit =>
    digit = '0') = dropped at isFront
  by_cases empty : dropped = []
  · left
    rw [empty, append_nil] at isFront
    exact ⟨front, isFront⟩
  · right
    rcases exists_back dropped with ⟨back, isBack⟩
    refine ⟨dropped.rdropWhile fun digit => digit = '0',
      literal.exponentNumber - literal.fractionDigits.length + back, ?_, front, back, ?_, rfl⟩
    · have leading : NoLeadingZero dropped := by
        intro digit isHead isZero
        have checked := List.head?_dropWhile_not (fun digit : Char => digit = '0')
          (literal.integer ++ literal.fractionDigits)
        rw [hDropped, isHead] at checked
        simp [isZero] at checked
      have kept : (dropped.rdropWhile fun digit => digit = '0') ≠ [] := by
        intro none
        rw [none, nil_append] at isBack
        cases back with
        | zero => exact empty isBack
        | succ back =>
            rw [isBack] at leading
            exact leading '0' rfl rfl
      exact {
        all := by
          apply all.of_subset
          intro digit member
          rw [isFront]
          apply mem_append_right
          rw [isBack]
          exact mem_append_left _ member
        nonempty := kept
        noLeading := by
          intro digit isHead
          apply leading
          rw [isBack, List.head?_append_of_ne_nil _ kept]
          exact isHead
        noTrailing := by
          intro digit isLast isZero
          have checked := rdropWhile_last_not (fun digit : Char => digit = '0') dropped kept
          rw [List.getLast?_eq_some_getLast kept] at isLast
          rw [mem_def, Option.some.injEq] at isLast
          rw [isLast] at checked
          simp [isZero] at checked }
    · rw [← isBack]
      exact isFront

end NumberLiteral

/-! ## Canonical literals -/

namespace ExponentPart

def ofInt (number : Int) : ExponentPart where
  marker := 'e'
  sign := if number < 0 then ['-'] else []
  digits := Text.ofNat number.natAbs
  isMarker := .inl rfl
  isSign := by split <;> simp
  isDigits := isDigits_ofNat _
  nonempty := ofNat_ne_nil _

theorem text_ofInt (number : Int) : (ofInt number).text = 'e' :: Numeral.ofInt number := by
  rw [text, signed, ofInt, Numeral.ofInt]
  split <;> rfl

theorem number_ofInt (number : Int) : (ofInt number).number = number := by
  simp only [ExponentPart.number, ofInt, value_ofNat]
  by_cases isNegative : number < 0
  · rw [if_pos isNegative, if_pos rfl, Int.ofNat_natAbs_of_nonpos isNegative.le, neg_neg]
  · rw [if_neg isNegative, if_neg (by simp), Int.natAbs_of_nonneg (not_lt.mp isNegative)]

end ExponentPart

theorem fitsInt_zero : fitsInt true 128 0 = true := by decide

variable {number : Int}

theorem checkedI128_of_fits (fits : fitsInt true 128 number = true) :
    checkedI128 number = some number :=
  if_pos fits

theorem checkedI128_eq_some {result : Int} (checked : checkedI128 number = some result) :
    result = number ∧ fitsInt true 128 number = true := by
  rw [checkedI128] at checked
  split at checked
  · next fits => exact ⟨(Option.some.inj checked).symm, fits⟩
  · cases checked

variable {out : Text} {power : Int}

namespace NumberLiteral

/-- A canonical literal of reduced digits and a power. -/
structure IsCanonical (literal : NumberLiteral) (negative : Bool) (digits : Text)
    (power : Int) : Prop where
  sign : literal.negative = negative
  parts : literal.HasParts digits power
  exponentFits : fitsInt true 128 literal.exponentNumber = true
  differenceFits :
    fitsInt true 128 (literal.exponentNumber - literal.fractionDigits.length) = true

section Canonical

variable {digits : Text} (reduced : IsReduced digits) (negative : Bool)

def ofInteger (count : Nat) : NumberLiteral where
  negative := negative
  integer := digits ++ List.replicate count '0'
  fraction := none
  exponent := none
  integer_isDigits := reduced.all.append (isDigits_zeros count)
  integer_nonempty := append_ne_nil_of_left_ne_nil reduced.nonempty _
  noLeadingZero := by
    right
    intro digit isHead
    rw [List.head?_append_of_ne_nil _ reduced.nonempty] at isHead
    exact reduced.noLeading digit isHead
  fraction_isDigits _ isFraction := nomatch isFraction

theorem ofInteger_isCanonical (count : Nat) :
    (ofInteger reduced negative count).IsCanonical negative digits count where
  sign := rfl
  parts := {
    reduced := reduced
    zeros := ⟨0, count, by simp [ofInteger, fractionDigits], by
      simp [ofInteger, fractionDigits, exponentNumber]⟩ }
  exponentFits := fitsInt_zero
  differenceFits := fitsInt_zero

def ofSplit {split : Nat} (positive : 0 < split) (inside : split < digits.length) :
    NumberLiteral where
  negative := negative
  integer := digits.take split
  fraction := some (digits.drop split)
  exponent := none
  integer_isDigits := reduced.all.of_subset (take_subset _ _)
  integer_nonempty := by
    intro empty
    have length := congrArg List.length empty
    rw [length_take, length_nil] at length
    omega
  noLeadingZero := .inr (noLeadingZero_take reduced.noLeading positive)
  fraction_isDigits := by
    rintro _ ⟨⟩
    refine ⟨reduced.all.of_subset (drop_subset _ _), ?_⟩
    intro empty
    have length := congrArg List.length empty
    rw [length_drop, length_nil] at length
    omega

theorem ofSplit_isCanonical {split : Nat} (positive : 0 < split)
    (inside : split < digits.length)
    (fits : fitsInt true 128 ((split : Int) - digits.length) = true) :
    (ofSplit reduced negative positive inside).IsCanonical negative digits
      (split - digits.length) := by
  have difference : (0 : Int) - ((digits.length - split : Nat) : Int) =
      split - digits.length := by omega
  exact {
    sign := rfl
    parts := {
      reduced := reduced
      zeros := ⟨0, 0, by simp [ofSplit, fractionDigits], by
        simp [ofSplit, fractionDigits, exponentNumber, ← difference]⟩ }
    exponentFits := fitsInt_zero
    differenceFits := by
      simpa [ofSplit, fractionDigits, exponentNumber, ← difference] using fits }

def ofFraction (count : Nat) : NumberLiteral where
  negative := negative
  integer := ['0']
  fraction := some (List.replicate count '0' ++ digits)
  exponent := none
  integer_isDigits := isDigits_zeros 1
  integer_nonempty := cons_ne_nil _ _
  noLeadingZero := .inl rfl
  fraction_isDigits := by
    rintro _ ⟨⟩
    exact ⟨(isDigits_zeros count).append reduced.all,
      append_ne_nil_of_right_ne_nil _ reduced.nonempty⟩

theorem ofFraction_isCanonical (count : Nat)
    (fits : fitsInt true 128 (-(count : Int) - digits.length) = true) :
    (ofFraction reduced negative count).IsCanonical negative digits
      (-count - digits.length) where
  sign := rfl
  parts := {
    reduced := reduced
    zeros := ⟨count + 1, 0, by
      simp [ofFraction, fractionDigits, replicate_succ], by
      simp [ofFraction, fractionDigits, exponentNumber]
      ring⟩ }
  exponentFits := fitsInt_zero
  differenceFits := by
    have difference : (0 : Int) - ((count + digits.length : Nat) : Int) =
        -count - digits.length := by omega
    simpa [ofFraction, fractionDigits, exponentNumber, ← difference] using fits

def ofScientific (exponent : Int) : NumberLiteral where
  negative := negative
  integer := digits.take 1
  fraction := if 1 < digits.length then some (digits.drop 1) else none
  exponent := if exponent ≠ 0 then some (.ofInt exponent) else none
  integer_isDigits := reduced.all.of_subset (take_subset _ _)
  integer_nonempty := by
    intro empty
    have length := congrArg List.length empty
    have positive := length_pos_iff.mpr reduced.nonempty
    rw [length_take, length_nil] at length
    omega
  noLeadingZero := .inr (noLeadingZero_take reduced.noLeading Nat.one_pos)
  fraction_isDigits := by
    intro rest isFraction
    split at isFraction
    · next several =>
        cases isFraction
        refine ⟨reduced.all.of_subset (drop_subset _ _), ?_⟩
        intro empty
        have length := congrArg List.length empty
        rw [length_drop, length_nil] at length
        omega
    · cases isFraction

theorem fractionDigits_ofScientific (exponent : Int) :
    (ofScientific reduced negative exponent).fractionDigits = digits.drop 1 := by
  rw [fractionDigits, ofScientific]
  simp only
  split
  · rfl
  · next single => exact (drop_eq_nil_of_le (not_lt.mp single)).symm

theorem exponentNumber_ofScientific (exponent : Int) :
    (ofScientific reduced negative exponent).exponentNumber = exponent := by
  rw [exponentNumber, ofScientific]
  simp only
  split
  · exact ExponentPart.number_ofInt exponent
  · next zero => exact (not_not.mp zero).symm

theorem ofScientific_isCanonical (exponent : Int)
    (exponentFits : fitsInt true 128 exponent = true)
    (fits : fitsInt true 128 (exponent - (digits.length - 1 : Nat)) = true) :
    (ofScientific reduced negative exponent).IsCanonical negative digits
      (exponent - (digits.length - 1 : Nat)) where
  sign := rfl
  parts := {
    reduced := reduced
    zeros := ⟨0, 0, by
      rw [fractionDigits_ofScientific, ofScientific]
      simp only [take_append_drop, replicate_zero, nil_append, append_nil],
      by
      rw [fractionDigits_ofScientific, exponentNumber_ofScientific, length_drop]
      simp⟩ }
  exponentFits := by rwa [exponentNumber_ofScientific]
  differenceFits := by
    rwa [exponentNumber_ofScientific, fractionDigits_ofScientific, length_drop]

end Canonical

/-- Whatever branch prints a number, it prints a canonical literal. -/
theorem exists_of_renderDecimal (reduced : IsReduced digits) (negative : Bool)
    (fits : fitsInt true 128 power = true)
    (rendered : renderDecimal negative digits power = some out) :
    ∃ literal : NumberLiteral, literal.text = out ∧ literal.IsCanonical negative digits power := by
  have positive := length_pos_iff.mpr reduced.nonempty
  rw [renderDecimal] at rendered
  split at rendered
  · next inRange =>
      have isPower : ((power.toNat : Nat) : Int) = power := Int.toNat_of_nonneg inRange.1
      have canonical := ofInteger_isCanonical reduced negative power.toNat
      rw [isPower] at canonical
      refine ⟨_, ?_, canonical⟩
      rw [← Option.some.inj rendered]
      simp [text, unsigned, mantissa, ofInteger]
  · rcases bind_eq_some_iff.mp rendered with ⟨position, isPosition, continued⟩
    have isSum := (checkedI128_eq_some isPosition).1
    split at continued
    · next inside =>
        have isSplit : ((position.toNat : Nat) : Int) = position :=
          Int.toNat_of_nonneg inside.1.le
        have isPower : ((position.toNat : Nat) : Int) - digits.length = power := by omega
        have canonical := ofSplit_isCanonical reduced negative
          (by omega : 0 < position.toNat) (by omega) (by rwa [isPower])
        rw [isPower] at canonical
        refine ⟨_, ?_, canonical⟩
        rw [← Option.some.inj continued]
        simp [text, unsigned, mantissa, ofSplit]
    · split at continued
      · next behind =>
          have isCount : (((-position).toNat : Nat) : Int) = -position :=
            Int.toNat_of_nonneg (by omega)
          have isPower : -(((-position).toNat : Nat) : Int) - digits.length = power := by omega
          have canonical := ofFraction_isCanonical reduced negative (-position).toNat
            (by rwa [isPower])
          rw [isPower] at canonical
          refine ⟨_, ?_, canonical⟩
          rw [← Option.some.inj continued]
          simp [text, unsigned, mantissa, ofFraction]
      · rcases map_eq_some_iff.mp continued with ⟨exponent, isExponent, spelled⟩
        have isSum := checkedI128_eq_some isExponent
        have isPower : exponent - ((digits.length - 1 : Nat) : Int) = power := by omega
        have canonical := ofScientific_isCanonical reduced negative exponent
          (by rw [isSum.1]; exact isSum.2) (by rwa [isPower])
        rw [isPower] at canonical
        refine ⟨_, ?_, canonical⟩
        rw [← spelled]
        simp only [text, unsigned, mantissa, ofScientific]
        by_cases several : 1 < digits.length <;> by_cases nonzero : exponent ≠ 0 <;>
          simp [several, nonzero, ExponentPart.text_ofInt]

end NumberLiteral

variable {literal : NumberLiteral}

namespace NumberLiteral

/-- `0`. -/
def zero : NumberLiteral where
  negative := false
  integer := ['0']
  fraction := none
  exponent := none
  integer_isDigits := isDigits_zeros 1
  integer_nonempty := cons_ne_nil _ _
  noLeadingZero := .inl rfl
  fraction_isDigits _ isFraction := nomatch isFraction

theorem number_zero : zero.number = 0 := by
  simp [number, zero, fractionDigits, exponentNumber, scaled, value_singleton]

theorem canonicalDecimal_zero : canonicalDecimal zero.text = some zero.text := by decide

variable {count : Nat}

theorem canonicalDigits_zeros
    (zeros : literal.integer ++ literal.fractionDigits = List.replicate count '0') (exponent : Int)
    :
    canonicalDigits literal.negative literal.integer literal.fractionDigits exponent =
      some zero.text := by
  have dropped : (List.replicate count '0').dropWhile (fun digit => digit = '0') = [] := by
    rw [dropWhile_eq_nil_iff]
    intro digit member
    exact decide_eq_true (eq_of_mem_replicate member)
  rw [canonicalDigits, zeros]
  simp only [dropped]
  rfl

theorem number_of_zeros
    (zeros : literal.integer ++ literal.fractionDigits = List.replicate count '0') :
    literal.number = 0 := by
  rw [number, zeros, scaled, value_zeros]
  simp

theorem canonicalDecimal_cases (canonical : canonicalDecimal literal.text = some out) :
    (literal.number = 0 ∧ out = zero.text) ∨
      ∃ digits power, literal.HasParts digits power ∧ fitsInt true 128 power = true ∧
        renderDecimal literal.negative digits power = some out := by
  rw [canonicalDecimal_text] at canonical
  rcases bind_eq_some_iff.mp canonical with ⟨exponent, isExponent, continued⟩
  rw [(checkedI128_eq_some isExponent).1] at continued
  rcases literal.zeros_or_parts with ⟨count, zeros⟩ | ⟨digits, power, parts⟩
  · left
    rw [canonicalDigits_zeros zeros] at continued
    exact ⟨number_of_zeros zeros, (Option.some.inj continued).symm⟩
  · right
    rw [parts.canonicalDigits_eq] at continued
    rcases bind_eq_some_iff.mp continued with ⟨_, _, powerChecked⟩
    rcases bind_eq_some_iff.mp powerChecked with ⟨checked, isChecked, rendered⟩
    rcases checkedI128_eq_some isChecked with ⟨rfl, fits⟩
    exact ⟨digits, checked, parts, fits, rendered⟩

theorem IsCanonical.canonicalDecimal_eq {negative : Bool}
    (canonical : literal.IsCanonical negative digits power) (fits : fitsInt true 128 power = true) :
    canonicalDecimal literal.text = renderDecimal negative digits power := by
  rw [canonicalDecimal_text, checkedI128_of_fits canonical.exponentFits, bind_some,
    canonical.parts.canonicalDigits_eq, checkedI128_of_fits canonical.differenceFits,
    checkedI128_of_fits fits, canonical.sign]
  rfl

theorem exists_canonical (canonical : canonicalDecimal literal.text = some out) :
    ∃ spelled : NumberLiteral, spelled.text = out ∧ spelled.number = literal.number ∧
      canonicalDecimal out = some out := by
  rcases canonicalDecimal_cases canonical with ⟨isZero, rfl⟩ | ⟨digits, power, parts, fits, rendered⟩
  · exact ⟨zero, rfl, by rw [number_zero, isZero], canonicalDecimal_zero⟩
  · rcases exists_of_renderDecimal parts.reduced literal.negative fits rendered with
      ⟨spelled, rfl, isCanonical⟩
    refine ⟨spelled, rfl, ?_, ?_⟩
    · rw [isCanonical.parts.number_eq, isCanonical.sign, parts.number_eq]
    · rw [isCanonical.canonicalDecimal_eq fits, rendered]

theorem canonicalDecimal_eq_iff {otherOut : Text}
    (canonical : canonicalDecimal first.text = some out)
    (otherCanonical : canonicalDecimal second.text = some otherOut) :
    out = otherOut ↔ first.number = second.number := by
  constructor
  · rintro rfl
    rcases exists_canonical canonical with ⟨spelled, isText, sameNumber, _⟩
    rcases exists_canonical otherCanonical with ⟨other, otherText, otherNumber, _⟩
    rw [← sameNumber, ← otherNumber, text_injective (isText.trans otherText.symm)]
  · intro same
    rcases canonicalDecimal_cases canonical with
      ⟨isZero, rfl⟩ | ⟨digits, power, parts, _, rendered⟩ <;>
    rcases canonicalDecimal_cases otherCanonical with
      ⟨otherZero, rfl⟩ | ⟨others, otherPower, otherParts, _, otherRendered⟩
    · rfl
    · rw [isZero, otherParts.number_eq] at same
      exact absurd same.symm (otherParts.reduced.scaled_ne_zero _ _)
    · rw [otherZero, parts.number_eq] at same
      exact absurd same (parts.reduced.scaled_ne_zero _ _)
    · rw [parts.number_eq, otherParts.number_eq] at same
      rcases parts.reduced.unique otherParts.reduced same with ⟨sign, rfl, rfl⟩
      rw [sign, otherRendered] at rendered
      exact (Option.some.inj rendered).symm

end NumberLiteral

/-! ## Machine integers -/

/-- `Number::from` an integer. -/
def NumberLiteral.ofInt (number : Int) : NumberLiteral where
  negative := number < 0
  integer := Text.ofNat number.natAbs
  fraction := none
  exponent := none
  integer_isDigits := isDigits_ofNat _
  integer_nonempty := ofNat_ne_nil _
  noLeadingZero := by
    by_cases isZero : number.natAbs = 0
    · rw [isZero]
      exact .inl rfl
    · exact .inr (noLeadingZero_ofNat isZero)
  fraction_isDigits _ isFraction := nomatch isFraction

/-- `as_i64` and `as_u64` parse the spelling. -/
def normalizeNumber (parseNumber : Text → Option NumberLiteral) (number : NumberLiteral) :
    NumberLiteral :=
  match parseInt true 64 number.text with
  | some value => .ofInt value
  | none =>
      match parseInt false 64 number.text with
      | some value => .ofInt value
      | none => ((canonicalDecimal number.text).bind parseNumber).getD number

namespace NumberLiteral

theorem isDigits_unsigned (all : IsDigits literal.unsigned) :
    literal.fraction = none ∧ literal.exponent = none := by
  constructor
  · cases isFraction : literal.fraction with
    | none => rfl
    | some digits =>
        have point : '.' ∈ literal.unsigned := by simp [unsigned, mantissa, isFraction]
        exact absurd (all _ point) (by decide)
  · cases isExponent : literal.exponent with
    | none => rfl
    | some part =>
        have marker : part.marker ∈ literal.unsigned := by
          simp [unsigned, isExponent, ExponentPart.text]
        have isDigit := all _ marker
        rcases part.isMarker with small | large
        · rw [small] at isDigit
          exact absurd isDigit (by decide)
        · rw [large] at isDigit
          exact absurd isDigit (by decide)

def signedInteger (literal : NumberLiteral) : Int :=
  if literal.negative then -value literal.integer else value literal.integer

/-- A literal that is a machine integer is spelled by its sign and its digits. -/
structure IsMachineInteger (literal : NumberLiteral) : Prop where
  noFraction : literal.fraction = none
  noExponent : literal.exponent = none
  bounded : value literal.integer < 2 ^ 64

theorem parseDigits_unsigned {literal : NumberLiteral} {signed : Bool} {number : Int}
    (parsed : parseDigits signed 64 literal.negative literal.unsigned = some number) :
    literal.IsMachineInteger ∧ number = literal.signedInteger := by
  simp only [parseDigits, ite_none_right_eq_some, Option.some.injEq] at parsed
  rcases parsed with ⟨⟨_, all, fits⟩, isNumber⟩
  have plain := isDigits_unsigned (all_eq_true.mp all)
  have whole : literal.unsigned = literal.integer := by
    simp [unsigned, mantissa, plain.1, plain.2]
  rw [whole] at fits isNumber
  refine ⟨⟨plain.1, plain.2, ?_⟩, isNumber.symm⟩
  rw [fitsInt] at fits
  by_cases isSigned : signed = true <;> by_cases isNegative : literal.negative = true <;>
    simp [isSigned, isNegative] at fits <;> omega

variable {signed : Bool}

theorem parseInt_text (parsed : parseInt signed 64 literal.text = some number) :
    literal.IsMachineInteger ∧ number = literal.signedInteger := by
  have isText : literal.text = signText literal.negative ++ literal.unsigned := rfl
  have isSplit := literal.stripSign_text
  have read := @parseDigits_unsigned literal signed number
  rw [isText] at parsed isSplit
  cases isNegative : literal.negative with
  | true =>
      rw [isNegative] at read
      rw [isNegative, signText, if_pos rfl, singleton_append, parseInt] at parsed
      split at parsed
      · exact read parsed
      · cases parsed
  | false =>
      rw [isNegative, signText, if_neg Bool.false_ne_true, nil_append] at parsed isSplit
      rw [isNegative] at read
      apply read
      rw [← parsed, parseInt]
      · intro digits equal
        rw [equal] at isSplit
        exact absurd (congrArg Prod.fst isSplit).symm Bool.false_ne_true
      · intro digits equal
        have first : literal.integer.head? = some '+' := by
          have heads := congrArg List.head? equal
          rw [unsigned, mantissa, List.append_assoc,
            List.head?_append_of_ne_nil _ literal.integer_nonempty] at heads
          exact heads
        have member := List.mem_of_mem_head? (mem_def.mpr first)
        exact absurd (literal.integer_isDigits _ member) (by decide)

theorem text_ofInt_signedInteger (machine : literal.IsMachineInteger)
    (nonzero : value literal.integer ≠ 0) : (ofInt literal.signedInteger).text = literal.text := by
  have noLeading : NoLeadingZero literal.integer := by
    rcases literal.noLeadingZero with zero | noLeading
    · rw [zero] at nonzero
      exact absurd rfl nonzero
    · exact noLeading
  have digits : Text.ofNat (value literal.integer) = literal.integer :=
    eq_of_value (isDigits_ofNat _) literal.integer_isDigits (noLeadingZero_ofNat nonzero)
      noLeading (value_ofNat _)
  have isUnsigned : literal.unsigned = literal.integer := by
    simp [unsigned, mantissa, machine.noFraction, machine.noExponent]
  have positive := Nat.pos_of_ne_zero nonzero
  have notNegative : ¬ (value literal.integer : Int) < 0 := by omega
  rw [text, text, isUnsigned, signedInteger]
  cases literal.negative with
  | true => simp [ofInt, unsigned, mantissa, digits, positive]
  | false => simp [ofInt, unsigned, mantissa, digits, notNegative]

theorem HasParts.of_machineInteger (parts : literal.HasParts digits power)
    (machine : literal.IsMachineInteger) :
    ∃ back : Nat, literal.integer = digits ++ List.replicate back '0' ∧ power = back ∧
      back ≤ 64 := by
  have reduced := parts.reduced
  rcases parts.zeros with ⟨front, back, isSpelled, isPower⟩
  have noDigits : literal.fractionDigits = [] := by
    rw [fractionDigits, machine.noFraction]
    rfl
  have noExponent : literal.exponentNumber = 0 := by
    rw [exponentNumber, machine.noExponent]
    rfl
  rw [noDigits, append_nil] at isSpelled
  have isValue : value literal.integer = value digits * 10 ^ back := by
    rw [isSpelled, value_zeros_append, value_append_zeros]
  have digitsPositive := value_pos reduced.all reduced.nonempty reduced.noLeading
  have positive : value literal.integer ≠ 0 := by
    rw [isValue]
    positivity
  have noFront : front = 0 := by
    rcases literal.noLeadingZero with single | noLeading
    · rw [single] at positive
      exact absurd rfl positive
    · cases front with
      | zero => rfl
      | succ front =>
          rw [isSpelled] at noLeading
          exact absurd rfl (noLeading '0' rfl)
  refine ⟨back, ?_, ?_, ?_⟩
  · rw [isSpelled, noFront, replicate_zero, nil_append]
  · rw [isPower, noExponent, noDigits]
    simp
  · by_contra many
    have large : 10 ^ 65 ≤ 10 ^ back := Nat.pow_le_pow_right (by decide) (by omega)
    have larger : 10 ^ back ≤ value literal.integer := by
      rw [isValue]
      exact Nat.le_mul_of_pos_left _ digitsPositive
    have bounded := machine.bounded
    omega

theorem canonicalDecimal_of_machineInteger (machine : literal.IsMachineInteger) :
    canonicalDecimal literal.text = some (ofInt literal.signedInteger).text := by
  have noDigits : literal.fractionDigits = [] := by
    rw [fractionDigits, machine.noFraction]
    rfl
  have noExponent : literal.exponentNumber = 0 := by
    rw [exponentNumber, machine.noExponent]
    rfl
  rw [canonicalDecimal_text, noExponent, checkedI128_of_fits fitsInt_zero, bind_some]
  rcases literal.zeros_or_parts with ⟨count, zeros⟩ | ⟨digits, power, parts⟩
  · have isZero : value literal.integer = 0 := by
      rw [noDigits, append_nil] at zeros
      rw [zeros, value_zeros]
    have isInteger : literal.signedInteger = 0 := by simp [signedInteger, isZero]
    rw [canonicalDigits_zeros zeros, isInteger]
    rfl
  · rcases parts.of_machineInteger machine with ⟨back, isInteger, rfl, few⟩
    have spelled := parts.canonicalDigits_eq
    have nonzero : value literal.integer ≠ 0 := by
      have digitsPositive := value_pos parts.reduced.all parts.reduced.nonempty
        parts.reduced.noLeading
      rw [isInteger, value_append_zeros]
      positivity
    have fits : fitsInt true 128 (back : Int) = true := by
      simp only [fitsInt, if_true, Bool.and_eq_true, decide_eq_true_eq]
      omega
    rw [noExponent, noDigits, length_nil, Nat.cast_zero, sub_zero,
      checkedI128_of_fits fitsInt_zero, bind_some, checkedI128_of_fits fits,
      bind_some, renderDecimal, if_pos ⟨Int.natCast_nonneg _, by omega⟩,
      Int.toNat_natCast, List.append_assoc, ← isInteger] at spelled
    rw [noDigits, spelled, text_ofInt_signedInteger machine nonzero]
    simp [text, unsigned, mantissa, machine.noFraction, machine.noExponent]

theorem normalizeNumber_of_parseInt (parseNumber : Text → Option NumberLiteral)
    (parsed : parseInt signed 64 literal.text = some number) :
    normalizeNumber parseNumber literal = .ofInt number := by
  have isNumber := (parseInt_text parsed).2
  cases asI64 : parseInt true 64 literal.text with
  | some other => simp only [normalizeNumber, asI64, (parseInt_text asI64).2, isNumber]
  | none =>
      cases signed with
      | true =>
          rw [asI64] at parsed
          cases parsed
      | false => simp only [normalizeNumber, asI64, parsed]

end NumberLiteral

/-- Canonical spelling is exact: it is a literal of the same number and its own canonical
spelling, it is the same for two literals if and only if they denote the same number, and
the shortcut for machine integers yields it too. -/
theorem canonicalDecimal_exact (first second : NumberLiteral) (out otherOut : Text)
    (canonical : canonicalDecimal first.text = some out)
    (otherCanonical : canonicalDecimal second.text = some otherOut) :
    (∃ spelled : NumberLiteral, spelled.text = out ∧ spelled.number = first.number) ∧
      canonicalDecimal out = some out ∧
      (out = otherOut ↔ first.number = second.number) ∧
      ∀ (parseNumber : Text → Option NumberLiteral) (signed : Bool) (number : Int),
        parseInt signed 64 first.text = some number →
          (normalizeNumber parseNumber first).text = out := by
  rcases NumberLiteral.exists_canonical canonical with ⟨spelled, isText, sameNumber, fixed⟩
  refine ⟨⟨spelled, isText, sameNumber⟩, fixed,
    NumberLiteral.canonicalDecimal_eq_iff canonical otherCanonical, ?_⟩
  intro parseNumber signed number parsed
  rcases NumberLiteral.parseInt_text parsed with ⟨machine, rfl⟩
  have spelling := NumberLiteral.canonicalDecimal_of_machineInteger machine
  rw [canonical] at spelling
  rw [NumberLiteral.normalizeNumber_of_parseInt parseNumber parsed]
  exact (Option.some.inj spelling).symm

/-- `2.50`. -/
def plainLiteral : NumberLiteral where
  negative := false
  integer := ['2']
  fraction := some ['5', '0']
  exponent := none
  integer_isDigits := by simp [IsDigits]
  integer_nonempty := cons_ne_nil _ _
  noLeadingZero := by simp [NoLeadingZero]
  fraction_isDigits := by simp [IsDigits]

/-- `25e-1`. -/
def exponentLiteral : NumberLiteral where
  negative := false
  integer := ['2', '5']
  fraction := none
  exponent := some (.ofInt (-1))
  integer_isDigits := by simp [IsDigits]
  integer_nonempty := cons_ne_nil _ _
  noLeadingZero := by simp [NoLeadingZero]
  fraction_isDigits := by simp [IsDigits]

theorem canonicalDecimal_exact_literals :
    canonicalDecimal plainLiteral.text = some "2.5".toList ∧
      plainLiteral.number = exponentLiteral.number := by
  have plain : canonicalDecimal plainLiteral.text = some "2.5".toList := by decide
  have exponent : canonicalDecimal exponentLiteral.text = some "2.5".toList := by decide
  have exact := canonicalDecimal_exact plainLiteral exponentLiteral _ _ plain exponent
  exact ⟨plain, exact.2.2.1.mp rfl⟩

end NftData.Dedup
