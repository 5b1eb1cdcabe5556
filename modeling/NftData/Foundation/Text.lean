import Mathlib

namespace NftData

/-! Unicode text as the list of its scalar values, with the string operations
the program applies to identifiers and documents. Comparing two texts
lexicographically by scalar value is the byte order of their UTF-8 encodings. -/

open List

abbrev Text := List Char

instance lawfulBEqText : LawfulBEq Text := List.instLawfulBEq

instance lawfulBEqTexts : LawfulBEq (Text × Text) := Prod.instLawfulBEq

namespace Text

/-- The Unicode `White_Space` property, which decides what `trim` removes. -/
def isWhiteSpace (character : Char) : Bool :=
  let code := character.toNat
  (9 ≤ code && code ≤ 13) || code == 0x20 || code == 0x85 || code == 0xA0 ||
    code == 0x1680 || (0x2000 ≤ code && code ≤ 0x200A) || code == 0x2028 ||
    code == 0x2029 || code == 0x202F || code == 0x205F || code == 0x3000

def isAsciiDigit (character : Char) : Bool :=
  '0' ≤ character && character ≤ '9'

def trimStart (text : Text) : Text := text.dropWhile isWhiteSpace

def trimEnd (text : Text) : Text := (text.reverse.dropWhile isWhiteSpace).reverse

def trim (text : Text) : Text := text.trimStart.trimEnd

example : trim " 07\t".toList = "07".toList := by decide

def startsWith (text : Text) (character : Char) : Bool :=
  text.head? == some character

def utf8Length (text : Text) : Nat := (text.map Char.utf8Size).sum

def ofNat (value : Nat) : Text := Nat.toDigits 10 value

theorem ofNat_injective : Function.Injective ofNat := by
  intro first second same
  have read := congrArg (fun digits => Nat.ofDigitChars 10 digits 0) same
  simpa [ofNat, Nat.ofDigitChars_ten_toDigits] using read

variable {character : Char}

theorem not_isWhiteSpace_of_isDigit (digit : character.isDigit = true) :
    isWhiteSpace character = false := by
  have bounds : 48 ≤ character.toNat ∧ character.toNat ≤ 57 := by
    simpa [Char.isDigit, UInt32.le_iff_toNat_le] using digit
  simp only [isWhiteSpace, Bool.or_eq_false_iff, Bool.and_eq_false_iff, decide_eq_false_iff_not,
    beq_eq_false_iff_ne]
  omega

variable {text : Text}

theorem trim_eq_self (plain : ∀ character ∈ text, isWhiteSpace character = false) :
    text.trim = text := by
  have kept : ∀ text : Text, (∀ character ∈ text, isWhiteSpace character = false) →
      text.dropWhile isWhiteSpace = text := by
    intro text noSpace
    cases text with
    | nil => rfl
    | cons head tail =>
        rw [dropWhile_cons_of_neg]
        simp [noSpace head mem_cons_self]
  rw [trim, trimStart, kept _ plain, trimEnd, kept, reverse_reverse]
  intro character member
  exact plain character (mem_reverse.mp member)

theorem trimStart_of_prefix {start : Text} (isPrefix : start <+: text.trimStart) :
    start.trimStart = start := by
  cases start with
  | nil => rfl
  | cons head tail =>
      rcases isPrefix with ⟨rest, equal⟩
      apply dropWhile_cons_of_neg
      intro blank
      have trimmed := dropWhile_idempotent (p := isWhiteSpace) (l := text)
      have kept : text.trimStart.dropWhile isWhiteSpace = text.trimStart := trimmed
      rw [← equal, cons_append, dropWhile_cons_of_pos blank] at kept
      have shorter := length_dropWhile_le isWhiteSpace (tail ++ rest)
      rw [kept, length_cons] at shorter
      omega

theorem trim_trim (text : Text) : text.trim.trim = text.trim := by
  have isPrefix : text.trim <+: text.trimStart := rdropWhile_prefix _ _
  rw [trim, trimStart_of_prefix isPrefix]
  exact rdropWhile_idempotent _ _

theorem isDigit_of_mem_ofNat {value : Nat} (member : character ∈ ofNat value) :
    character.isDigit = true :=
  Nat.isDigit_of_mem_toDigits (by norm_num) le_rfl member

theorem trim_ofNat (value : Nat) : (ofNat value).trim = ofNat value :=
  trim_eq_self fun _ member => not_isWhiteSpace_of_isDigit (isDigit_of_mem_ofNat member)

def toAsciiLowercase (text : Text) : Text := text.map Char.toLower

def equalsIgnoringAsciiCase (first second : Text) : Bool :=
  decide (first.toAsciiLowercase = second.toAsciiLowercase)

def contains (text pattern : Text) : Bool := decide (pattern <:+: text)

end Text

end NftData
