import NftData.Foundation.Sorting

namespace NftData.Dedup.Bm25

/-! # Frequency histograms

How many terms of a document have which frequency, in the order of the frequencies. -/

open List

/-- `INLINE_FREQUENCIES`. -/
def inlineFrequencies : Nat := 4

inductive FrequencyHistogram where
  | inline (values : List (Nat × Nat))
  | heap (values : List (Nat × Nat))
  deriving DecidableEq, Repr

namespace FrequencyHistogram

def asSlice : FrequencyHistogram → List (Nat × Nat)
  | inline values => values
  | heap values => values

def increment (frequency : Nat) : List (Nat × Nat) → Option (List (Nat × Nat))
  | [] => none
  | (candidate, count) :: rest =>
      if candidate = frequency then some ((candidate, count + 1) :: rest)
      else (increment frequency rest).map ((candidate, count) :: ·)

/-- Count one term. -/
def add (histogram : FrequencyHistogram) (frequency : Nat) : FrequencyHistogram :=
  match histogram with
  | heap values =>
      match increment frequency values with
      | some counted => heap counted
      | none => heap (values ++ [(frequency, 1)])
  | inline values =>
      match increment frequency values with
      | some counted => inline counted
      | none =>
          if values.length < inlineFrequencies then inline (values ++ [(frequency, 1)])
          else heap (values ++ [(frequency, 1)])

def sortByFrequency (values : List (Nat × Nat)) : List (Nat × Nat) :=
  values.insertionSort fun left right => left.1 ≤ right.1

def fromTerms (terms : List (Nat × Nat)) : FrequencyHistogram :=
  match terms.foldl (fun histogram term => histogram.add term.2) (inline []) with
  | heap values => heap (sortByFrequency values)
  | inline values => inline (sortByFrequency values)

def expand (values : List (Nat × Nat)) : List Nat :=
  values.flatMap fun entry => List.replicate entry.2 entry.1

@[simp] theorem expand_cons (frequency count : Nat) (values : List (Nat × Nat)) :
    expand ((frequency, count) :: values) = List.replicate count frequency ++ expand values := by
  rw [expand, flatMap_cons, ← expand]

variable {values : List (Nat × Nat)}

theorem expand_increment {frequency : Nat} {counted : List (Nat × Nat)}
    (found : increment frequency values = some counted) :
    (expand counted).Perm (frequency :: expand values) := by
  induction values generalizing counted with
  | nil => cases found
  | cons head rest induction =>
      rcases head with ⟨candidate, count⟩
      rw [increment] at found
      split at found
      · next same =>
          cases found
          rw [expand_cons, expand_cons, replicate_succ, cons_append, same]
      · rcases Option.map_eq_some_iff.mp found with ⟨restCounted, isRest, rfl⟩
        rw [expand_cons, expand_cons]
        exact ((induction isRest).append_left _).trans perm_middle

theorem expand_concat (values : List (Nat × Nat)) (frequency : Nat) :
    (expand (values ++ [(frequency, 1)])).Perm (frequency :: expand values) := by
  rw [expand, flatMap_append]
  exact perm_append_comm

theorem expand_add (histogram : FrequencyHistogram) (frequency : Nat) :
    (expand (histogram.add frequency).asSlice).Perm (frequency :: expand histogram.asSlice) := by
  rw [add.eq_def]
  split
  · split
    · next found => exact expand_increment found
    · exact expand_concat _ frequency
  · split
    · next found => exact expand_increment found
    · split
      · exact expand_concat _ frequency
      · exact expand_concat _ frequency

theorem expand_foldl (terms : List (Nat × Nat)) (histogram : FrequencyHistogram) :
    (expand (terms.foldl (fun histogram term => histogram.add term.2) histogram).asSlice).Perm
      (expand histogram.asSlice ++ terms.map Prod.snd) := by
  induction terms generalizing histogram with
  | nil => rw [foldl_nil, map_nil, append_nil]
  | cons head tail induction =>
      rw [foldl_cons, map_cons]
      apply (induction (histogram.add head.2)).trans
      exact ((expand_add histogram head.2).append_right _).trans perm_middle.symm

theorem asSlice_fromTerms (terms : List (Nat × Nat)) :
    (fromTerms terms).asSlice =
      sortByFrequency
        (terms.foldl (fun histogram term => histogram.add term.2) (inline [])).asSlice := by
  rw [fromTerms]
  split
  · next values isHeap => rw [isHeap, asSlice, asSlice]
  · next values isInline => rw [isInline, asSlice, asSlice]

theorem expand_fromTerms_perm (terms : List (Nat × Nat)) :
    (expand (fromTerms terms).asSlice).Perm (terms.map Prod.snd) := by
  rw [asSlice_fromTerms]
  exact ((perm_insertionSort _ _).flatMap_right _).trans (expand_foldl terms (inline []))

theorem expand_sorted (sorted : values.Pairwise fun left right => left.1 ≤ right.1) :
    (expand values).Pairwise (· ≤ ·) := by
  rw [expand, pairwise_flatMap]
  refine ⟨fun entry _ => pairwise_replicate.mpr (.inr le_rfl), sorted.imp ?_⟩
  intro left right atMost first isFirst second isSecond
  rwa [eq_of_mem_replicate isFirst, eq_of_mem_replicate isSecond]

theorem expand_fromTerms_sorted (terms : List (Nat × Nat)) :
    (expand (fromTerms terms).asSlice).Pairwise (· ≤ ·) := by
  rw [asSlice_fromTerms]
  apply expand_sorted
  have total : Std.Total fun left right : Nat × Nat => left.1 ≤ right.1 :=
    ⟨fun left right => Nat.le_total left.1 right.1⟩
  have trans : IsTrans (Nat × Nat) fun left right => left.1 ≤ right.1 :=
    ⟨fun _ _ _ => Nat.le_trans⟩
  exact pairwise_insertionSort _ _

end FrequencyHistogram

end NftData.Dedup.Bm25
