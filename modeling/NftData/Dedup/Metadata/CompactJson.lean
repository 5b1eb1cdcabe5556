import NftData.Dedup.Metadata.CanonicalNumber
import NftData.Dedup.Metadata.NormalizedText

namespace NftData.Dedup

open List
open JsonTree (isNumberCharacter trim_print)
open Numeral

/-! # Compact documents

A library that reads exactly the texts it prints, and lowercasing of ASCII texts. They are
libraries as the program needs them. -/

/-! ## Spellings are different -/

theorem NumberLiteral.text_ne_nil (literal : NumberLiteral) : literal.text ≠ [] := by
  intro empty
  have parts := append_eq_nil_iff.mp empty
  have mantissas := (append_eq_nil_iff.mp parts.2).1
  exact literal.integer_nonempty (append_eq_nil_iff.mp mantissas).1

theorem isNumberCharacter_of_isDigit {digit : Char} (isDigit : digit.isDigit = true) :
    isNumberCharacter digit = true := by
  simp [isNumberCharacter, isDigit]

theorem NumberLiteral.isNumberCharacter_text (literal : NumberLiteral) :
    ∀ character ∈ literal.text, isNumberCharacter character = true := by
  have digits : ∀ {text : Text}, IsDigits text → ∀ character ∈ text,
      isNumberCharacter character = true :=
    fun all character member => isNumberCharacter_of_isDigit (all character member)
  have signs : ∀ negative, ∀ character ∈ signText negative,
      isNumberCharacter character = true := by
    intro negative character member
    cases negative with
    | true =>
        rw [mem_singleton.mp member]
        decide
    | false => exact absurd member not_mem_nil
  intro character member
  rcases mem_append.mp member with inSign | inUnsigned
  · exact signs literal.negative character inSign
  rcases mem_append.mp inUnsigned with inMantissa | inExponent
  · rcases mem_append.mp inMantissa with inInteger | inFraction
    · exact digits literal.integer_isDigits character inInteger
    · cases isFraction : literal.fraction with
      | none =>
          rw [isFraction] at inFraction
          exact absurd inFraction not_mem_nil
      | some fraction =>
          rw [isFraction] at inFraction
          rcases mem_cons.mp inFraction with rfl | inDigits
          · decide
          · exact digits (literal.fraction_isDigits fraction isFraction).1 character inDigits
  · cases isExponent : literal.exponent with
    | none =>
        rw [isExponent] at inExponent
        exact absurd inExponent not_mem_nil
    | some part =>
        rw [isExponent] at inExponent
        rcases mem_cons.mp inExponent with rfl | inSigned
        · rcases part.isMarker with small | large
          · rw [small]
            decide
          · rw [large]
            decide
        · rcases mem_append.mp inSigned with inSign | inDigits
          · rcases part.isSign with sign | sign | sign <;> rw [sign] at inSign
            · exact absurd inSign not_mem_nil
            · rw [mem_singleton.mp inSign]
              decide
            · rw [mem_singleton.mp inSign]
              decide
          · exact digits part.isDigits character inDigits

theorem printsNumbers_text : JsonTree.PrintsNumbers NumberLiteral.text where
  injective := NumberLiteral.text_injective
  nonempty := NumberLiteral.text_ne_nil
  characters := NumberLiteral.isNumberCharacter_text

open Classical in
/-- The library that reads what it prints. -/
noncomputable def compactJson : SerdeJson where
  parse text :=
    if found : ∃ tree : Document, tree.WithinDepth 127 ∧
        (tree.print NumberLiteral.text).trim = text then some found.choose else none
  print := JsonTree.print NumberLiteral.text
  parseNumber text :=
    if found : ∃ literal : NumberLiteral, literal.text = text then
      some (readNumber id found.choose)
    else none
  spellExponent := id
  recursionLimit := 127
  parse_print tree within := by
    have found : ∃ other : Document, other.WithinDepth 127 ∧
        (other.print NumberLiteral.text).trim = (tree.print NumberLiteral.text).trim :=
      ⟨tree, within, rfl⟩
    have same := found.choose_spec.2
    have texts := (trim_print printsNumbers_text _).symm.trans
      (same.trans (trim_print printsNumbers_text tree))
    rw [dif_pos found, JsonTree.print_injective printsNumbers_text texts]
  within_parse text tree parsed := by
    split at parsed
    · next found =>
        rw [← Option.some.inj parsed]
        exact found.choose_spec.1
    · cases parsed
  parseNumber_iff text number := by
    constructor
    · intro parsed
      split at parsed
      · next found => exact ⟨found.choose, found.choose_spec, Option.some.inj parsed⟩
      · cases parsed
    · rintro ⟨literal, rfl, rfl⟩
      have found : ∃ other : NumberLiteral, other.text = literal.text := ⟨literal, rfl⟩
      rw [dif_pos found, NumberLiteral.text_injective found.choose_spec]
  number_spellExponent _ := rfl
  spellExponent_idempotent _ := rfl

/-- Lowercasing of texts that need no other normalization. -/
def asciiFolding : CaseFolding where
  fold := List.map Char.toLower
  fold_fold text := by simp [Function.comp_def]
  fold_infix := by
    intro text part isFixed isInfix
    have each : ∀ character ∈ text, character.toLower = character := by
      apply map_eq_map_iff.mp
      rw [isFixed, map_id']
    conv_rhs => rw [← map_id part]
    exact map_congr_left fun character member => each character (isInfix.subset member)
  fold_space := by
    intro first second firstFixed secondFixed
    rw [map_append, map_cons, firstFixed, secondFixed]
    rfl
  not_isUpper text character member := by
    rcases mem_map.mp member with ⟨original, _, rfl⟩
    exact Char.isUpper_toLower_eq_false original

end NftData.Dedup
