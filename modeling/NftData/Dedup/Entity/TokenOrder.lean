import NftData.Dedup.Entity.Types

namespace NftData.Dedup

/-! # Token order and metadata validity

EVM token ids that are decimal numbers compare by value, so `1` and `01` are
equal in this order while they stay different token ids. -/

def decimalMagnitude (token : Text) : Option Text :=
  let trimmed := token.trim
  if trimmed.isEmpty || !trimmed.all Text.isAsciiDigit then
    none
  else
    let magnitude := trimmed.dropWhile (· == '0')
    some (if magnitude.isEmpty then "0".toList else magnitude)

def compareTokenIds (left right : Text) (isEvm : Bool) : Ordering :=
  if isEvm then
    match decimalMagnitude left, decimalMagnitude right with
    | some a, some b => (cmp a.length b.length).then (cmp a b)
    | some _, none => .lt
    | none, some _ => .gt
    | none, none => cmp left right
  else
    cmp left right

example : compareTokenIds "1".toList "01".toList true = .eq := by decide

example : compareTokenIds "9".toList "10".toList true = .lt := by decide

/-- The value a token id is ordered by: decimal ids first, by length and then
by digits, all others by their text. -/
def tokenKey (isEvm : Bool) (token : Text) : ℕ ×ₗ ℕ ×ₗ Text :=
  match isEvm, decimalMagnitude token with
  | true, some magnitude => toLex (0, toLex (magnitude.length, magnitude))
  | _, _ => toLex (1, toLex (0, token))

theorem cmp_toLex {α β : Type*} [LinearOrder α] [LinearOrder β]
    (left right : α × β) :
    cmp (toLex left) (toLex right) =
      (cmp left.1 right.1).then (cmp left.2 right.2) := by
  rcases lt_trichotomy left.1 right.1 with less | equal | greater
  · have : toLex left < toLex right := Prod.Lex.toLex_lt_toLex.mpr (.inl less)
    rw [(cmp_eq_lt_iff _ _).mpr this, (cmp_eq_lt_iff _ _).mpr less]
    rfl
  · rw [(cmp_eq_eq_iff _ _).mpr equal]
    simp only [Ordering.then]
    rcases lt_trichotomy left.2 right.2 with less | same | greater
    · rw [(cmp_eq_lt_iff _ _).mpr less, cmp_eq_lt_iff, Prod.Lex.toLex_lt_toLex]
      exact .inr ⟨equal, less⟩
    · rw [(cmp_eq_eq_iff _ _).mpr same, cmp_eq_eq_iff, Prod.ext equal same]
    · rw [(cmp_eq_gt_iff _ _).mpr greater, cmp_eq_gt_iff, Prod.Lex.toLex_lt_toLex]
      exact .inr ⟨equal.symm, greater⟩
  · have : toLex right < toLex left := Prod.Lex.toLex_lt_toLex.mpr (.inl greater)
    rw [(cmp_eq_gt_iff _ _).mpr this, (cmp_eq_gt_iff _ _).mpr greater]
    rfl

/-- Comparing two token ids is comparing their keys, so the order is total and
transitive although it identifies different texts. -/
theorem compareTokenIds_eq_cmp (left right : Text) (isEvm : Bool) :
    compareTokenIds left right isEvm =
      cmp (tokenKey isEvm left) (tokenKey isEvm right) := by
  have textOrder : (cmp left right : Ordering) =
      (cmp (toLex (1, toLex (0, left))) (toLex (1, toLex (0, right))) : Ordering) := by
    simp only [cmp_toLex, cmp_self_eq_eq, Ordering.then]
    congr!
  cases isEvm with
  | false => exact textOrder
  | true =>
      cases leftDigits : decimalMagnitude left <;>
        cases rightDigits : decimalMagnitude right <;>
        simp only [compareTokenIds, tokenKey, leftDigits, rightDigits, if_true]
      case none.none => exact textOrder
      case none.some => rw [cmp_toLex]; rfl
      case some.none => rw [cmp_toLex]; rfl
      case some.some =>
        simp only [cmp_toLex, cmp_self_eq_eq, Ordering.then]
        congr!

/-! ## Metadata validity

`canonicalize_json_strict` parses and re-serialises a document; it is a
parameter of the store operations. -/

abbrev Canonicalizer := Text → Option Text

def validatedMetadata (canonicalizeJsonStrict : Canonicalizer)
    (content : Text) : Option Text :=
  let trimmed := content.trim
  if trimmed.isEmpty || 64 * 1024 < trimmed.utf8Length then
    none
  else if !trimmed.startsWith '{' && !trimmed.startsWith '[' then
    none
  else
    match canonicalizeJsonStrict trimmed with
    | none => none
    | some canonical => if canonical ≠ "\x7b\x7d".toList then some canonical else none

end NftData.Dedup
