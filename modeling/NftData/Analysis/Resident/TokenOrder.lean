import NftData.Analysis.Api.TokenIds

namespace NftData.Analysis

open Option

/-! # Token order

The builder ranks the token ids of a chain in one order: decimal ids by their numbers and all
others by their bytes. -/

def numberCmp (left right : Text) : Ordering :=
  (compare left.length right.length).then (compare left right)

def tokenCmp (chain : ChainId) (left right : Text) : Ordering :=
  if chain.isEvm then
    match canonicalDecimalDigits left, canonicalDecimalDigits right with
    | some leftNumber, some rightNumber =>
        (numberCmp leftNumber rightNumber).then (compare left right)
    | _, _ => compare left right
  else
    compare left right

/-- A comparison is a strict total order of some ids. -/
structure StrictTotalOn (order : Text → Text → Ordering) (ids : Set Text) : Prop where
  equal : ∀ left ∈ ids, ∀ right ∈ ids, order left right = .eq ↔ left = right
  antisymmetric : ∀ left ∈ ids, ∀ right ∈ ids, order left right = (order right left).swap
  transitive : ∀ first ∈ ids, ∀ second ∈ ids, ∀ third ∈ ids, order first second = .lt →
    order second third = .lt → order first third = .lt

/-- An id that is no number stands by its bytes between two numbers, of which the smaller one
has the greater bytes: `1a` between `10` and `9`. -/
def Separates (other left right : Text) : Prop :=
  canonicalDecimalDigits other = none ∧
    (∃ leftNumber rightNumber, canonicalDecimalDigits left = some leftNumber ∧
      canonicalDecimalDigits right = some rightNumber ∧ numberCmp leftNumber rightNumber = .lt) ∧
    compare right other = .lt ∧ compare other left = .lt

section Comparisons

variable {chain : ChainId} {left right other first second third : Text}

private def decimalCmp : Text → Text → Ordering :=
  compareLex (compareLex (compareOn fun id => ((canonicalDecimalDigits id).getD []).length)
    (compareOn fun id => (canonicalDecimalDigits id).getD [])) compare

private instance : Std.TransCmp decimalCmp := by
  unfold decimalCmp
  infer_instance

private theorem no_circle {order : Text → Text → Ordering} [Std.TransCmp order]
    (firstSecond : order first second = .lt) (secondThird : order second third = .lt) :
    order third first ≠ .lt := by
  intro thirdFirst
  have around := Std.TransCmp.lt_trans (Std.TransCmp.lt_trans firstSecond secondThird) thirdFirst
  have self : order first first = .eq := Std.ReflCmp.compare_self
  rw [self] at around
  cases around

private def ByNumber (chain : ChainId) (id : Text) : Prop :=
  chain.isEvm = true ∧ canonicalDecimalDigits id ≠ none

private theorem tokenCmp_numbers (leftNumber : ByNumber chain left)
    (rightNumber : ByNumber chain right) : tokenCmp chain left right = decimalCmp left right := by
  obtain ⟨leftDigits, isLeft⟩ := ne_none_iff_exists'.mp leftNumber.2
  obtain ⟨rightDigits, isRight⟩ := ne_none_iff_exists'.mp rightNumber.2
  simp only [tokenCmp, leftNumber.1, isLeft, isRight, if_true, decimalCmp, compareLex, compareOn,
    numberCmp, getD_some]

private theorem tokenCmp_bytes (notNumbers : ¬(ByNumber chain left ∧ ByNumber chain right)) :
    tokenCmp chain left right = compare left right := by
  unfold tokenCmp
  split
  · next isEvm =>
      split
      · next isLeft isRight =>
          exact absurd ⟨⟨isEvm, isLeft ▸ nofun⟩, ⟨isEvm, isRight ▸ nofun⟩⟩ notNumbers
      · rfl
  · rfl

theorem tokenCmp_swap (chain : ChainId) (left right : Text) :
    tokenCmp chain left right = (tokenCmp chain right left).swap := by
  by_cases numbers : ByNumber chain left ∧ ByNumber chain right
  · rw [tokenCmp_numbers numbers.1 numbers.2, tokenCmp_numbers numbers.2 numbers.1]
    exact Std.OrientedCmp.eq_swap
  · rw [tokenCmp_bytes numbers, tokenCmp_bytes fun swapped => numbers swapped.symm]
    exact Std.OrientedCmp.eq_swap

theorem tokenCmp_eq_iff : tokenCmp chain left right = .eq ↔ left = right := by
  by_cases numbers : ByNumber chain left ∧ ByNumber chain right
  · rw [tokenCmp_numbers numbers.1 numbers.2]
    constructor
    · intro same
      exact Std.LawfulEqOrd.eq_of_compare (Ordering.then_eq_eq.mp same).2
    · rintro rfl
      exact Std.ReflCmp.compare_self
  · rw [tokenCmp_bytes numbers]
    exact Std.LawfulEqOrd.compare_eq_iff_eq

private theorem separates (leftNumber : ByNumber chain left) (rightNumber : ByNumber chain right)
    (notNumber : ¬ByNumber chain other) (below : tokenCmp chain left right = .lt)
    (rightOther : tokenCmp chain right other = .lt) (otherLeft : tokenCmp chain other left = .lt) :
    Separates other left right := by
  rw [tokenCmp_bytes fun both => notNumber both.2] at rightOther
  rw [tokenCmp_bytes fun both => notNumber both.1] at otherLeft
  obtain ⟨leftDigits, isLeft⟩ := ne_none_iff_exists'.mp leftNumber.2
  obtain ⟨rightDigits, isRight⟩ := ne_none_iff_exists'.mp rightNumber.2
  have isOther : canonicalDecimalDigits other = none := by
    by_contra isNumber
    exact notNumber ⟨leftNumber.1, isNumber⟩
  refine ⟨isOther, ⟨leftDigits, rightDigits, isLeft, isRight, ?_⟩, rightOther, otherLeft⟩
  simp only [tokenCmp, leftNumber.1, isLeft, isRight, if_true] at below
  rcases Ordering.then_eq_lt.mp below with less | ⟨_, bytes⟩
  · exact less
  · exact absurd otherLeft (no_circle bytes rightOther)

private theorem separates_of_circle (firstSecond : tokenCmp chain first second = .lt)
    (secondThird : tokenCmp chain second third = .lt)
    (thirdFirst : tokenCmp chain third first = .lt) :
    chain.isEvm = true ∧ (Separates third first second ∨ Separates first second third ∨
      Separates second third first) := by
  by_cases firstNumber : ByNumber chain first <;> by_cases secondNumber : ByNumber chain second <;>
    by_cases thirdNumber : ByNumber chain third
  · rw [tokenCmp_numbers firstNumber secondNumber] at firstSecond
    rw [tokenCmp_numbers secondNumber thirdNumber] at secondThird
    rw [tokenCmp_numbers thirdNumber firstNumber] at thirdFirst
    exact absurd thirdFirst (no_circle firstSecond secondThird)
  · exact ⟨firstNumber.1, .inl (separates firstNumber secondNumber thirdNumber firstSecond
      secondThird thirdFirst)⟩
  · exact ⟨firstNumber.1, .inr (.inr (separates thirdNumber firstNumber secondNumber thirdFirst
      firstSecond secondThird))⟩
  rotate_left
  · exact ⟨secondNumber.1, .inr (.inl (separates secondNumber thirdNumber firstNumber secondThird
      thirdFirst firstSecond))⟩
  all_goals
    rw [tokenCmp_bytes (by tauto)] at firstSecond secondThird thirdFirst
    exact absurd thirdFirst (no_circle firstSecond secondThird)

end Comparisons

/-- Sorting token ids is safe on a chain whose ids are compared by their bytes, and on the others
as long as no id stands between two numbers in the wrong order. -/
theorem tokenCmp_strictTotalOn_iff (chain : ChainId) (ids : Set Text) :
    StrictTotalOn (tokenCmp chain) ids ↔
      (chain.isEvm = true → ∀ other ∈ ids, ∀ left ∈ ids, ∀ right ∈ ids,
        ¬Separates other left right) := by
  constructor
  · intro total isEvm other inOther left inLeft right inRight between
    obtain ⟨isOther, ⟨leftDigits, rightDigits, isLeft, isRight, less⟩, rightOther, otherLeft⟩ :=
      between
    have notNumber : ¬ByNumber chain other := fun isNumber => isNumber.2 isOther
    have below : tokenCmp chain left right = .lt := by
      simp only [tokenCmp, isEvm, isLeft, isRight, if_true, less]
      rfl
    rw [← @tokenCmp_bytes chain right other fun both => notNumber both.2] at rightOther
    rw [← @tokenCmp_bytes chain other left fun both => notNumber both.1] at otherLeft
    have through := total.transitive left inLeft right inRight other inOther below rightOther
    rw [tokenCmp_swap, otherLeft] at through
    cases through
  · intro apart
    refine ⟨fun _ _ _ _ => tokenCmp_eq_iff, fun left _ right _ => tokenCmp_swap chain left right, ?_⟩
    intro first inFirst second inSecond third inThird firstSecond secondThird
    cases compared : tokenCmp chain first third with
    | lt => rfl
    | eq =>
        obtain rfl := tokenCmp_eq_iff.mp compared
        rw [tokenCmp_swap, secondThird] at firstSecond
        cases firstSecond
    | gt =>
        have thirdFirst : tokenCmp chain third first = .lt := by rw [tokenCmp_swap, compared]; rfl
        obtain ⟨isEvm, between⟩ := separates_of_circle firstSecond secondThird thirdFirst
        rcases between with between | between | between
        · exact absurd between (apart isEvm third inThird first inFirst second inSecond)
        · exact absurd between (apart isEvm first inFirst second inSecond third inThird)
        · exact absurd between (apart isEvm second inSecond third inThird first inFirst)

/-- `9` is before `10`, `10` before `1a` and `1a` before `9`. -/
theorem tokenCmp_circle : ¬∀ chain, StrictTotalOn (tokenCmp chain) Set.univ := by
  intro total
  have through := (total .ethereum).transitive ['9'] trivial ['1', '0'] trivial ['1', 'a'] trivial
    (by decide) (by decide)
  exact absurd through (by decide)

end NftData.Analysis
