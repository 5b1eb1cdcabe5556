import NftData.Foundation.JsonTree
import NftData.Dedup.Metadata.CanonicalDecimal

namespace NftData.Dedup

open Option
open NumberLiteral (canonicalDecimal_of_machineInteger exists_canonical exponentNumber fractionDigits)
open List
open Numeral

/-! # Numbers of documents

A `Number` keeps the spelling of the document, but an integer of 64 bits is spelled as such
an integer is printed, and the library may spell the letter and the plus sign of an exponent
its own way. -/

abbrev Document : Type := JsonTree NumberLiteral

def readNumber (spellExponent : ExponentPart → ExponentPart) (literal : NumberLiteral) :
    NumberLiteral :=
  match parseInt literal.negative 64 literal.text with
  | some value => .ofInt value
  | none => { literal with exponent := literal.exponent.map spellExponent }

/-- The JSON library. -/
structure SerdeJson where
  /-- Read a document. -/
  parse : Text → Option Document
  /-- `to_string`. -/
  print : Document → Text
  /-- `str::parse` for a number. -/
  parseNumber : Text → Option NumberLiteral
  spellExponent : ExponentPart → ExponentPart
  recursionLimit : Nat
  /-- The library reads what it prints, as deep as it reads. -/
  parse_print : ∀ tree, tree.WithinDepth recursionLimit → parse (print tree).trim = some tree
  within_parse : ∀ text tree, parse text = some tree → tree.WithinDepth recursionLimit
  parseNumber_iff : ∀ text number, parseNumber text = some number ↔
    ∃ literal : NumberLiteral, literal.text = text ∧ readNumber spellExponent literal = number
  number_spellExponent : ∀ part, (spellExponent part).number = part.number
  spellExponent_idempotent : ∀ part, spellExponent (spellExponent part) = spellExponent part

/-! ## Integers of 64 bits -/

variable {literal : NumberLiteral} {number : Int}

namespace NumberLiteral

theorem parseInt_of_machineInteger {literal : NumberLiteral} {signed : Bool}
    (noFraction : literal.fraction = none) (noExponent : literal.exponent = none)
    (allowed : literal.negative = true → signed = true)
    (fits : fitsInt signed 64 literal.signedInteger = true) :
    parseInt signed 64 literal.text = some literal.signedInteger := by
  have isUnsigned : literal.unsigned = literal.integer := by
    simp [unsigned, mantissa, noFraction, noExponent]
  have all : literal.integer.all Char.isDigit = true :=
    all_eq_true.mpr literal.integer_isDigits
  have parsed : parseDigits signed 64 literal.negative literal.integer =
      some literal.signedInteger := by
    rw [signedInteger] at fits
    simp only [parseDigits, ne_eq, literal.integer_nonempty, not_false_eq_true, all, fits,
      and_self, if_true]
    rfl
  rw [text, isUnsigned]
  cases isNegative : literal.negative with
  | true =>
      rw [signText, if_pos rfl, singleton_append, parseInt, if_pos (allowed isNegative),
        ← isNegative]
      exact parsed
  | false =>
      rw [signText, if_neg Bool.false_ne_true, nil_append]
      rcases literal.exists_integer with ⟨head, tail, isInteger, isDigit⟩
      rw [isNegative, isInteger] at parsed
      rw [isInteger, parseInt]
      · exact parsed
      · intro rest equal
        exact isDigit_ne isDigit rfl (List.cons.inj equal).1
      · intro rest equal
        exact isDigit_ne isDigit rfl (List.cons.inj equal).1

theorem signedInteger_ofInt (number : Int) : (ofInt number).signedInteger = number := by
  rw [signedInteger, ofInt]
  simp only [value_ofNat, decide_eq_true_eq]
  split <;> omega

variable {signed : Bool} {bits : Nat}

theorem fitsInt_of_parseDigits {negative : Bool} {digits : Text}
    (parsed : parseDigits signed bits negative digits = some number) :
    fitsInt signed bits number = true := by
  simp only [parseDigits, ite_none_right_eq_some, Option.some.injEq] at parsed
  rw [← parsed.2]
  exact parsed.1.2.2

theorem fitsInt_of_parseInt {text : Text} (parsed : parseInt signed bits text = some number) :
    fitsInt signed bits number = true := by
  rw [parseInt.eq_def] at parsed
  split at parsed
  · split at parsed
    · exact fitsInt_of_parseDigits parsed
    · cases parsed
  · exact fitsInt_of_parseDigits parsed
  · exact fitsInt_of_parseDigits parsed

theorem signed_of_parseInt (parsed : parseInt signed 64 literal.text = some number)
    (isNegative : literal.negative = true) : signed = true := by
  rw [text, isNegative, signText, if_pos rfl, singleton_append, parseInt] at parsed
  by_contra isUnsigned
  rw [if_neg isUnsigned] at parsed
  cases parsed

theorem parseInt_negative (parsed : parseInt signed 64 literal.text = some number) :
    parseInt literal.negative 64 literal.text = some number := by
  have fits := fitsInt_of_parseInt parsed
  have isSigned := signed_of_parseInt parsed
  rcases parseInt_text parsed with ⟨machine, rfl⟩
  apply parseInt_of_machineInteger machine.noFraction machine.noExponent id
  cases isNegative : literal.negative with
  | true =>
      rw [isSigned isNegative] at fits
      exact fits
  | false =>
      have nonnegative : 0 ≤ literal.signedInteger := by
        rw [signedInteger, isNegative]
        exact Int.natCast_nonneg _
      cases signed with
      | false => exact fits
      | true =>
          simp only [fitsInt, if_true, Bool.and_eq_true, decide_eq_true_eq] at fits
          simp only [fitsInt, Bool.false_eq_true, if_false, Bool.and_eq_true, decide_eq_true_eq]
          omega

/-- The shortcut for integers of 64 bits goes by the sign. -/
theorem normalizeNumber_eq (parseNumber : Text → Option NumberLiteral)
    (literal : NumberLiteral) :
    normalizeNumber parseNumber literal =
      match parseInt literal.negative 64 literal.text with
      | some number => .ofInt number
      | none => ((canonicalDecimal literal.text).bind parseNumber).getD literal := by
  cases bySign : parseInt literal.negative 64 literal.text with
  | some number => exact normalizeNumber_of_parseInt parseNumber bySign
  | none =>
      have noParse : ∀ signed, parseInt signed 64 literal.text = none := by
        intro signed
        cases parsed : parseInt signed 64 literal.text with
        | none => rfl
        | some number =>
            rw [parseInt_negative parsed] at bySign
            cases bySign
      simp only [normalizeNumber, noParse]

theorem parseInt_ofInt (parsed : parseInt literal.negative 64 literal.text = some number) :
    parseInt (ofInt number).negative 64 (ofInt number).text = some number := by
  have fits := fitsInt_of_parseInt parsed
  have same := signedInteger_ofInt number
  have again := @parseInt_of_machineInteger (ofInt number) literal.negative
    rfl rfl
    (by
      intro isNegative
      have small : number < 0 := of_decide_eq_true isNegative
      by_contra isPositive
      rw [Bool.not_eq_true] at isPositive
      rw [isPositive] at fits
      simp only [fitsInt, Bool.false_eq_true, if_false, Bool.and_eq_true,
        decide_eq_true_eq] at fits
      omega)
    (by rwa [same])
  rw [same] at again
  exact parseInt_negative again

end NumberLiteral

section Spelling

variable (serde : SerdeJson)

def SerdeJson.respell (literal : NumberLiteral) : NumberLiteral :=
  { literal with exponent := literal.exponent.map serde.spellExponent }

def SerdeJson.read (literal : NumberLiteral) : NumberLiteral :=
  readNumber serde.spellExponent literal

variable {serde}

theorem SerdeJson.read_of_parseInt
    (parsed : parseInt literal.negative 64 literal.text = some number) :
    serde.read literal = .ofInt number := by
  rw [read, readNumber, parsed]

theorem SerdeJson.read_of_none (other : parseInt literal.negative 64 literal.text = none) :
    serde.read literal = serde.respell literal := by
  rw [read, readNumber, other]
  rfl

theorem SerdeJson.canonicalDecimal_respell (literal : NumberLiteral) :
    canonicalDecimal (serde.respell literal).text = canonicalDecimal literal.text := by
  have exponents : (serde.respell literal).exponentNumber = literal.exponentNumber := by
    rw [exponentNumber, exponentNumber, respell]
    cases literal.exponent with
    | none => rfl
    | some part => exact serde.number_spellExponent part
  rw [canonicalDecimal_text, canonicalDecimal_text, exponents]
  rfl

theorem SerdeJson.respell_respell (literal : NumberLiteral) :
    serde.respell (serde.respell literal) = serde.respell literal := by
  cases isExponent : literal.exponent with
  | none => simp [respell, isExponent]
  | some part => simp [respell, isExponent, serde.spellExponent_idempotent]

theorem SerdeJson.parseInt_respell (other : parseInt literal.negative 64 literal.text = none) :
    parseInt (serde.respell literal).negative 64 (serde.respell literal).text = none := by
  cases parsed : parseInt (serde.respell literal).negative 64 (serde.respell literal).text with
  | none => rfl
  | some number =>
      have noExponent := (NumberLiteral.parseInt_text parsed).1.noExponent
      rw [respell, map_eq_none_iff] at noExponent
      have same : serde.respell literal = literal := by
        rcases literal with ⟨negative, integer, fraction, exponent⟩
        subst noExponent
        rfl
      rw [same, other] at parsed
      cases parsed

theorem SerdeJson.read_read (literal : NumberLiteral) :
    serde.read (serde.read literal) = serde.read literal := by
  cases parsed : parseInt literal.negative 64 literal.text with
  | some number =>
      rw [read_of_parseInt parsed, read_of_parseInt (NumberLiteral.parseInt_ofInt parsed)]
  | none =>
      rw [read_of_none parsed, read_of_none (parseInt_respell parsed), respell_respell]

def InRange (literal : NumberLiteral) : Prop := (canonicalDecimal literal.text).isSome

instance (literal : NumberLiteral) : Decidable (InRange literal) :=
  inferInstanceAs (Decidable ((canonicalDecimal literal.text).isSome = true))

/-- A number in range becomes what is read from its canonical spelling. -/
theorem SerdeJson.parseNumber_canonicalDecimal {literal : NumberLiteral} {out : Text}
    (canonical : canonicalDecimal literal.text = some out) :
    serde.parseNumber out = some (normalizeNumber serde.parseNumber (serde.read literal)) := by
  cases parsed : parseInt literal.negative 64 literal.text with
  | some number =>
      have spelling := canonicalDecimal_of_machineInteger
        (NumberLiteral.parseInt_text parsed).1
      rw [← (NumberLiteral.parseInt_text parsed).2, canonical] at spelling
      have again := NumberLiteral.parseInt_ofInt parsed
      rw [read_of_parseInt parsed, NumberLiteral.normalizeNumber_eq, again,
        Option.some.inj spelling, serde.parseNumber_iff]
      exact ⟨.ofInt number, rfl, read_of_parseInt again⟩
  | none =>
      rcases exists_canonical canonical with ⟨spelled, isText, _, _⟩
      have found : serde.parseNumber out = some (serde.read spelled) :=
        (serde.parseNumber_iff _ _).mpr ⟨spelled, isText, rfl⟩
      rw [read_of_none parsed, NumberLiteral.normalizeNumber_eq, parseInt_respell parsed,
        canonicalDecimal_respell, canonical, bind_some, found]
      rfl

/-- A number out of range keeps its spelling. -/
theorem SerdeJson.normalizeNumber_of_not_inRange {literal : NumberLiteral}
    (outside : ¬ InRange literal) :
    normalizeNumber serde.parseNumber (serde.read literal) = serde.respell literal := by
  have none := not_isSome_iff_eq_none.mp outside
  cases parsed : parseInt literal.negative 64 literal.text with
  | some number =>
      rw [canonicalDecimal_of_machineInteger
        (NumberLiteral.parseInt_text parsed).1] at none
      cases none
  | none =>
      rw [read_of_none parsed, NumberLiteral.normalizeNumber_eq, parseInt_respell parsed,
        canonicalDecimal_respell, none]
      rfl

def SerdeJson.normalRead (serde : SerdeJson) (literal : NumberLiteral) : NumberLiteral :=
  normalizeNumber serde.parseNumber (serde.read literal)

/-- A normalized number is read back as itself and normalized to itself. -/
theorem SerdeJson.normalRead_fixed (literal : NumberLiteral) :
    serde.read (serde.normalRead literal) = serde.normalRead literal ∧
      normalizeNumber serde.parseNumber (serde.normalRead literal) = serde.normalRead literal := by
  cases canonical : canonicalDecimal literal.text with
  | some out =>
      have found := @parseNumber_canonicalDecimal serde _ _ canonical
      rcases (serde.parseNumber_iff _ _).mp found with ⟨spelled, rfl, isRead⟩
      have isNormal : serde.normalRead literal = serde.read spelled := isRead.symm
      rcases exists_canonical canonical with ⟨_, _, _, fixed⟩
      have again := @parseNumber_canonicalDecimal serde _ _ fixed
      rw [found, Option.some.injEq] at again
      rw [isNormal]
      exact ⟨read_read spelled, again.symm.trans isNormal⟩
  | none =>
      have isNormal : serde.normalRead literal = serde.respell literal :=
        normalizeNumber_of_not_inRange (not_isSome_iff_eq_none.mpr canonical)
      have other : parseInt literal.negative 64 literal.text = none := by
        cases parsed : parseInt literal.negative 64 literal.text with
        | none => rfl
        | some number =>
            rw [canonicalDecimal_of_machineInteger
              (NumberLiteral.parseInt_text parsed).1] at canonical
            cases canonical
      have readSame : serde.read (serde.respell literal) = serde.respell literal := by
        rw [read_of_none (parseInt_respell other), respell_respell]
      rw [isNormal]
      refine ⟨readSame, ?_⟩
      have kept := @normalizeNumber_of_not_inRange serde (serde.respell literal)
        (not_isSome_iff_eq_none.mpr ((canonicalDecimal_respell _).trans canonical))
      rwa [readSame, respell_respell] at kept

/-- Equal numbers in range become the same. -/
theorem SerdeJson.normalRead_eq {first second : NumberLiteral} (inRange : InRange first)
    (otherInRange : InRange second) (same : first.number = second.number) :
    serde.normalRead first = serde.normalRead second := by
  rcases isSome_iff_exists.mp inRange with ⟨out, canonical⟩
  rcases isSome_iff_exists.mp otherInRange with ⟨otherOut, otherCanonical⟩
  have outs := (NumberLiteral.canonicalDecimal_eq_iff canonical otherCanonical).mpr same
  subst outs
  have found := @parseNumber_canonicalDecimal serde _ _ canonical
  rw [@parseNumber_canonicalDecimal serde _ _ otherCanonical, Option.some.injEq] at found
  exact found.symm

theorem SerdeJson.inRange_normalRead (literal : NumberLiteral) :
    InRange (serde.normalRead literal) ↔ InRange literal := by
  cases canonical : canonicalDecimal literal.text with
  | some out =>
      have found := @parseNumber_canonicalDecimal serde _ _ canonical
      rcases (serde.parseNumber_iff _ _).mp found with ⟨spelled, rfl, isRead⟩
      have isNormal : serde.normalRead literal = serde.read spelled := isRead.symm
      rcases exists_canonical canonical with ⟨_, _, _, fixed⟩
      rw [isNormal, InRange, InRange, canonical]
      cases parsed : parseInt spelled.negative 64 spelled.text with
      | some number =>
          rw [read_of_parseInt parsed, canonicalDecimal_of_machineInteger
            (NumberLiteral.parseInt_text (NumberLiteral.parseInt_ofInt parsed)).1]
          simp
      | none => rw [read_of_none parsed, canonicalDecimal_respell, fixed]
  | none =>
      have isNormal : serde.normalRead literal = serde.respell literal :=
        normalizeNumber_of_not_inRange (not_isSome_iff_eq_none.mpr canonical)
      rw [isNormal, InRange, InRange, canonicalDecimal_respell]

def NumberLiteral.longer (literal : NumberLiteral) : NumberLiteral :=
  { literal with
    fraction := some (literal.fractionDigits ++ ['0'])
    fraction_isDigits := by
      intro digits isFraction
      rw [← Option.some.inj isFraction]
      refine ⟨IsDigits.append ?_ (isDigits_zeros 1), by simp⟩
      rw [fractionDigits]
      cases fraction : literal.fraction with
      | none => exact fun character member => absurd member not_mem_nil
      | some digits => exact (literal.fraction_isDigits digits fraction).1 }

theorem NumberLiteral.number_longer (literal : NumberLiteral) :
    literal.longer.number = literal.number := by
  have digits : literal.longer.fractionDigits = literal.fractionDigits ++ ['0'] := rfl
  have power : literal.exponentNumber - (literal.fractionDigits ++ ['0']).length =
      literal.exponentNumber - literal.fractionDigits.length - (1 : Nat) := by
    rw [length_append, length_singleton]
    omega
  change scaled literal.negative (literal.integer ++ literal.longer.fractionDigits)
    (literal.exponentNumber - literal.longer.fractionDigits.length) = _
  have zeros := scaled_append_zeros literal.negative (literal.integer ++ literal.fractionDigits) 1
    (literal.exponentNumber - literal.fractionDigits.length - (1 : Nat))
  rw [sub_add_cancel] at zeros
  rw [digits, power, ← List.append_assoc]
  exact zeros

/-- The spelling of a number out of range stays, also in what it becomes. -/
theorem SerdeJson.normalRead_longer_ne (outside : ¬ InRange literal) :
    serde.normalRead literal.longer ≠ serde.normalRead literal := by
  intro same
  have longerOutside : ¬ InRange literal.longer := by
    rwa [← @inRange_normalRead serde, same, inRange_normalRead]
  rw [normalRead, normalizeNumber_of_not_inRange longerOutside, normalRead,
    normalizeNumber_of_not_inRange outside] at same
  have fractions : some (literal.fractionDigits ++ ['0']) = literal.fraction :=
    congrArg NumberLiteral.fraction same
  have digits : literal.fractionDigits ++ ['0'] = literal.fractionDigits := by
    conv_rhs => rw [fractionDigits, ← fractions, getD_some]
  simp at digits

end Spelling

end NftData.Dedup
