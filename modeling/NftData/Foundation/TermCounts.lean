import NftData.Foundation.Bm25
import NftData.Foundation.Occurrences

namespace NftData

/-! # Term counts

The terms of a vocabulary are numbered by their place in it. A document is stored as the numbers
of its terms with their counts, and terms outside the vocabulary only count towards its norm. -/

open List

variable {number : Nat}

section Vocabulary

variable {Term : Type*} [BEq Term] [LawfulBEq Term] {vocabulary : List Term} {term : Term}

theorem idxOf?_of_mem (known : term ∈ vocabulary) :
    vocabulary.idxOf? term = some (vocabulary.idxOf term) := by
  cases found : vocabulary.idxOf? term with
  | none => exact absurd known (List.idxOf?_eq_none_iff.mp found)
  | some number => rw [List.idxOf_eq_getD_idxOf?, found, Option.getD_some]

theorem getElem?_of_idxOf? (found : vocabulary.idxOf? term = some number) :
    vocabulary[number]? = some term := by
  rcases List.idxOf?_eq_some_iff.mp found with ⟨inside, isTerm, _⟩
  rw [List.getElem?_eq_getElem inside, isTerm]

theorem eq_of_idxOf? {other : Term} (found : vocabulary.idxOf? term = some number)
    (otherFound : vocabulary.idxOf? other = some number) : term = other := by
  have isTerm := getElem?_of_idxOf? found
  rw [getElem?_of_idxOf? otherFound] at isTerm
  exact (Option.some.inj isTerm).symm

end Vocabulary

section TermCounts

variable {Term : Type*} [LinearOrder Term]

def numberOf (vocabulary : List Term) (term : Term) : Option Nat := vocabulary.idxOf? term

/-- The numbers of the terms of a document that are in the vocabulary, with their counts. -/
def termCounts (vocabulary terms : List Term) : List (Nat × Nat) :=
  ((occurrences terms).filterMap fun entry =>
    (numberOf vocabulary entry.1).map fun number => (number, entry.2)).insertionSort
      fun left right => left.1 ≤ right.1

variable {vocabulary left right : List Term}

theorem exists_numberOf {term : Term} (known : term ∈ vocabulary) :
    ∃ number, numberOf vocabulary term = some number := ⟨_, idxOf?_of_mem known⟩

theorem eq_of_numberOf {term other : Term} (found : numberOf vocabulary term = some number)
    (otherFound : numberOf vocabulary other = some number) : term = other :=
  eq_of_idxOf? found otherFound

theorem mem_termCounts {terms : List Term} {entry : Nat × Nat} :
    entry ∈ termCounts vocabulary terms ↔
      ∃ term ∈ terms, numberOf vocabulary term = some entry.1 ∧ entry.2 = terms.count term := by
  rw [termCounts, mem_insertionSort, mem_filterMap]
  simp only [mem_occurrences, Option.map_eq_some_iff]
  constructor
  · intro found
    rcases found with ⟨occurrence, ⟨member, counted⟩, number, isNumber, isEntry⟩
    rw [← isEntry]
    exact ⟨occurrence.1, member, isNumber, counted⟩
  · intro found
    rcases found with ⟨term, member, isNumber, counted⟩
    exact ⟨(term, entry.2), ⟨member, counted⟩, entry.1, isNumber, rfl⟩

theorem mem_keys_termCounts {terms : List Term} :
    number ∈ (termCounts vocabulary terms).map Prod.fst ↔
      ∃ term ∈ terms, numberOf vocabulary term = some number := by
  rw [mem_map]
  constructor
  · intro found
    rcases found with ⟨entry, member, isNumber⟩
    rcases mem_termCounts.mp member with ⟨term, inTerms, isEntry, _⟩
    exact ⟨term, inTerms, isEntry.trans (congrArg some isNumber)⟩
  · intro found
    rcases found with ⟨term, inTerms, isNumber⟩
    exact ⟨(number, terms.count term), mem_termCounts.mpr ⟨term, inTerms, isNumber, rfl⟩, rfl⟩

theorem keySorted_termCounts (vocabulary terms : List Term) :
    KeySorted (termCounts vocabulary terms) := by
  have different : ((occurrences terms).filterMap fun entry =>
      (numberOf vocabulary entry.1).map fun number => (number, entry.2)).Pairwise
        fun left right => left.1 ≠ right.1 := by
    rw [pairwise_filterMap]
    refine (pairwise_map.mp (nodup_keys_occurrences terms)).imp ?_
    intro first second apart left isLeft right isRight sameNumber
    rcases Option.map_eq_some_iff.mp isLeft with ⟨leftNumber, leftFound, leftEntry⟩
    rcases Option.map_eq_some_iff.mp isRight with ⟨rightNumber, rightFound, rightEntry⟩
    rw [← leftEntry, ← rightEntry] at sameNumber
    have same : leftNumber = rightNumber := sameNumber
    rw [same] at leftFound
    exact apart (eq_of_numberOf leftFound rightFound)
  have sorted : (termCounts vocabulary terms).Pairwise fun left right => left.1 ≤ right.1 :=
    pairwise_insertionSort _ _
  have apart : (termCounts vocabulary terms).Pairwise fun left right => left.1 ≠ right.1 :=
    ((perm_insertionSort _ _).pairwise_iff fun differs => Ne.symm differs).mpr different
  exact (sorted.and apart).imp fun both => lt_of_le_of_ne both.1 both.2

/-- A vocabulary with all terms of one document is enough to find the common terms. -/
theorem sum_mergeJoin_termCounts (known : ∀ term ∈ left, term ∈ vocabulary)
    (value : Nat → Nat → ℝ) :
    ((mergeJoin (termCounts vocabulary left) (termCounts vocabulary right)).map fun entry =>
        value entry.2.1 entry.2.2).sum =
      ∑ term ∈ Bm25.commonTerms left right, value (left.count term) (right.count term) := by
  have leftSorted := keySorted_termCounts vocabulary left
  have rightSorted := keySorted_termCounts vocabulary right
  rw [← sum_toFinset _ (nodup_mergeJoin leftSorted rightSorted)]
  symm
  refine Finset.sum_bij (fun term _ =>
    (vocabulary.idxOf term, left.count term, right.count term)) ?_ ?_ ?_ ?_
  · intro term member
    rw [Bm25.mem_commonTerms] at member
    have found := idxOf?_of_mem (known term member.1)
    rw [mem_toFinset, mem_mergeJoin leftSorted rightSorted]
    exact ⟨mem_termCounts.mpr ⟨term, member.1, found, rfl⟩,
      mem_termCounts.mpr ⟨term, member.2, found, rfl⟩⟩
  · intro first firstMember second _ same
    rw [Bm25.mem_commonTerms] at firstMember
    exact (idxOf_inj (known first firstMember.1)).mp (congrArg Prod.fst same)
  · intro entry member
    rw [mem_toFinset, mem_mergeJoin leftSorted rightSorted] at member
    rcases mem_termCounts.mp member.1 with ⟨term, inLeft, found, leftCount⟩
    rcases mem_termCounts.mp member.2 with ⟨other, inRight, otherFound, rightCount⟩
    have same : term = other := eq_of_numberOf found otherFound
    rw [← same] at inRight rightCount
    refine ⟨term, Bm25.mem_commonTerms.mpr ⟨inLeft, inRight⟩, ?_⟩
    have number : numberOf vocabulary term = some (vocabulary.idxOf term) :=
      idxOf?_of_mem (known term inLeft)
    rw [found] at number
    rw [← Option.some.inj number]
    exact Prod.ext rfl (Prod.ext leftCount.symm rightCount.symm)
  · exact fun _ _ => rfl

def countHistogram (terms : List Term) : List (Nat × Nat) :=
  occurrences ((occurrences terms).map Prod.snd)

theorem sum_countHistogram (value : Nat → ℝ) (terms : List Term) :
    ((countHistogram terms).map fun entry => value entry.1 * (entry.2 : ℝ)).sum =
      ∑ term ∈ terms.toFinset, value (terms.count term) := by
  rw [countHistogram, sum_histogram, map_map]
  exact sum_occurrences (fun _ count => value count) terms

end TermCounts

end NftData
