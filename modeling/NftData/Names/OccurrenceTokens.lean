import NftData.Foundation.JaroWinkler

namespace NftData.Names

/-! # Occurrence tokens

A token is a character and how often it has occurred before. Two names share as many tokens as
they share characters, and no token occurs twice in a name, so that an index over tokens finds
names with many common characters. -/

open List

section OccurrenceTokens

variable {α : Type*} [DecidableEq α]

def occurrenceTokensFrom (counts : α → Nat) : List α → List (α × Nat)
  | [] => []
  | character :: rest =>
      (character, counts character) ::
        occurrenceTokensFrom (Function.update counts character (counts character + 1)) rest

def occurrenceTokens (value : List α) : List (α × Nat) := occurrenceTokensFrom (fun _ => 0) value

variable {token : α × Nat} {value : List α}

theorem mem_occurrenceTokensFrom {counts : α → Nat} :
    token ∈ occurrenceTokensFrom counts value ↔
      counts token.1 ≤ token.2 ∧ token.2 < counts token.1 + value.count token.1 := by
  induction value generalizing counts with
  | nil =>
      rw [occurrenceTokensFrom, count_nil]
      exact ⟨fun member => (nomatch member), fun window => absurd window.1 (by omega)⟩
  | cons character rest induction =>
      rcases token with ⟨wanted, occurrence⟩
      rw [occurrenceTokensFrom, mem_cons, induction]
      by_cases same : wanted = character
      · rw [same, Function.update_self, count_cons_self, Prod.mk.injEq]
        simp only [true_and]
        omega
      · rw [Function.update_of_ne same, count_cons_of_ne (Ne.symm same), Prod.mk.injEq]
        dsimp only
        have different : ¬(wanted = character ∧ occurrence = counts character) :=
          fun both => same both.1
        rw [or_iff_right different]

theorem nodup_occurrenceTokensFrom (counts : α → Nat) (value : List α) :
    (occurrenceTokensFrom counts value).Nodup := by
  induction value generalizing counts with
  | nil => exact nodup_nil
  | cons character rest induction =>
      refine nodup_cons.mpr ⟨fun member => ?_, induction _⟩
      have window := mem_occurrenceTokensFrom.mp member
      rw [Function.update_self] at window
      omega

theorem length_occurrenceTokens (value : List α) :
    (occurrenceTokens value).length = value.length := by
  rw [occurrenceTokens]
  generalize (fun _ : α => 0) = counts
  induction value generalizing counts with
  | nil => rfl
  | cons character rest induction => exact congrArg Nat.succ (induction _)

theorem mem_occurrenceTokens :
    token ∈ occurrenceTokens value ↔ token.2 < value.count token.1 := by
  rw [occurrenceTokens, mem_occurrenceTokensFrom, Nat.zero_add]
  exact and_iff_right (Nat.zero_le _)

/-- Two values share as many tokens as they share entries. -/
theorem length_common_tokens (left right : List α) :
    ((occurrenceTokens left).filter fun token => token ∈ occurrenceTokens right).length =
      multisetOverlap left right := by
  have nodup : ((occurrenceTokens left).filter
      fun token => token ∈ occurrenceTokens right).Nodup :=
    (nodup_occurrenceTokensFrom (fun _ => 0) left).filter _
  rw [multisetOverlap, ← Multiset.card_toEnumFinset, ← toFinset_card_of_nodup nodup]
  congr 1
  ext token
  rw [mem_toFinset, mem_filter, decide_eq_true_eq, Multiset.mem_toEnumFinset,
    Multiset.count_inter, Multiset.coe_count, Multiset.coe_count, lt_min_iff]
  exact and_congr mem_occurrenceTokens mem_occurrenceTokens

end OccurrenceTokens

theorem exists_mem_of_omitted {α : Type*} {whole part : List α} (property : α → Bool)
    (inside : part.Subperm whole)
    (many : whole.length < part.length + (whole.filter property).length) :
    ∃ value ∈ part, property value = true := by
  by_contra none
  have empty : part.filter property = [] := by
    rw [filter_eq_nil_iff]
    exact fun value member holds => none ⟨value, member, holds⟩
  rcases inside with ⟨kept, same, sublist⟩
  rcases sublist.exists_perm_append with ⟨omitted, rest⟩
  have split := rest.trans (same.append_right omitted)
  have lengths := split.length_eq
  have filtered := (split.filter property).length_eq
  have atMost := length_filter_le property omitted
  rw [length_append] at lengths
  rw [filter_append, empty, nil_append] at filtered
  omega

/-- Walk two sorted lists until they have enough in common, or cannot have it any more. -/
def overlapAtLeastFrom (required : Nat) : List Char → List Char → Nat → Bool
  | leftHead :: left, rightHead :: right, overlap =>
      if leftHead < rightHead then
        if overlap + min left.length (right.length + 1) < required then
          false
        else
          overlapAtLeastFrom required left (rightHead :: right) overlap
      else if rightHead < leftHead then
        if overlap + min (left.length + 1) right.length < required then
          false
        else
          overlapAtLeastFrom required (leftHead :: left) right overlap
      else if required ≤ overlap + 1 then
        true
      else if overlap + 1 + min left.length right.length < required then
        false
      else
        overlapAtLeastFrom required left right (overlap + 1)
  | _, _, _ => false
termination_by left right => left.length + right.length

def multisetOverlapAtLeast (left right : List Char) (required : Nat) : Bool :=
  required == 0 || overlapAtLeastFrom required left right 0

variable {right left : List Char}

theorem multisetOverlap_of_lt {leftHead rightHead : Char}
    (sorted : (rightHead :: right).Pairwise (· ≤ ·)) (less : leftHead < rightHead) :
    multisetOverlap (leftHead :: left) (rightHead :: right) =
      multisetOverlap left (rightHead :: right) := by
  have missing : leftHead ∉ ((rightHead :: right : List Char) : Multiset Char) := by
    intro member
    rcases mem_cons.mp (Multiset.mem_coe.mp member) with same | later
    · exact absurd same less.ne
    · exact absurd (rel_of_pairwise_cons sorted later) (not_le.mpr less)
  rw [multisetOverlap, multisetOverlap, ← Multiset.cons_coe leftHead,
    Multiset.cons_inter_of_neg _ missing]

theorem multisetOverlap_comm (left right : List Char) :
    multisetOverlap left right = multisetOverlap right left := by
  rw [multisetOverlap, multisetOverlap, Multiset.inter_comm]

theorem multisetOverlap_cons (value : Char) (left right : List Char) :
    multisetOverlap (value :: left) (value :: right) = multisetOverlap left right + 1 := by
  rw [multisetOverlap, multisetOverlap, ← Multiset.cons_coe, ← Multiset.cons_coe,
    Multiset.cons_inter_of_pos _ (Multiset.mem_cons_self _ _), Multiset.erase_cons_head,
    Multiset.card_cons]

variable {required : Nat}

theorem overlapAtLeastFrom_iff {overlap : Nat} (leftSorted : left.Pairwise (· ≤ ·))
    (rightSorted : right.Pairwise (· ≤ ·)) (missing : overlap < required) :
    overlapAtLeastFrom required left right overlap = true ↔
      required ≤ overlap + multisetOverlap left right := by
  fun_induction overlapAtLeastFrom required left right overlap with
  | case1 leftHead left rightHead right overlap less short =>
      have inLeft := multisetOverlap_le_left left (rightHead :: right)
      have inRight := multisetOverlap_le_right left (rightHead :: right)
      rw [length_cons] at inRight
      rw [multisetOverlap_of_lt rightSorted less]
      exact iff_of_false Bool.false_ne_true (by omega)
  | case2 leftHead left rightHead right overlap less long induction =>
      rw [multisetOverlap_of_lt rightSorted less]
      exact induction leftSorted.of_cons rightSorted missing
  | case3 leftHead left rightHead right overlap notLess greater short =>
      have inLeft := multisetOverlap_le_left right (leftHead :: left)
      have inRight := multisetOverlap_le_right right (leftHead :: left)
      rw [length_cons] at inRight
      rw [multisetOverlap_comm, multisetOverlap_of_lt leftSorted greater]
      exact iff_of_false Bool.false_ne_true (by omega)
  | case4 leftHead left rightHead right overlap notLess greater long induction =>
      rw [multisetOverlap_comm, multisetOverlap_of_lt leftSorted greater, multisetOverlap_comm]
      exact induction leftSorted rightSorted.of_cons missing
  | case5 leftHead left rightHead right overlap notLess notGreater enough =>
      have same : leftHead = rightHead := le_antisymm (not_lt.mp notGreater) (not_lt.mp notLess)
      rw [same, multisetOverlap_cons]
      exact iff_of_true rfl (by omega)
  | case6 leftHead left rightHead right overlap notLess notGreater few short =>
      have same : leftHead = rightHead := le_antisymm (not_lt.mp notGreater) (not_lt.mp notLess)
      have inLeft := multisetOverlap_le_left left right
      have inRight := multisetOverlap_le_right left right
      rw [same, multisetOverlap_cons]
      exact iff_of_false Bool.false_ne_true (by omega)
  | case7 leftHead left rightHead right overlap notLess notGreater few long induction =>
      have same : leftHead = rightHead := le_antisymm (not_lt.mp notGreater) (not_lt.mp notLess)
      have rest := induction leftSorted.of_cons rightSorted.of_cons (by omega)
      rw [same, multisetOverlap_cons, rest]
      omega
  | case8 left right overlap empty =>
      have none : multisetOverlap left right = 0 := by
        cases left with
        | nil => exact Nat.le_zero.mp (multisetOverlap_le_left [] right)
        | cons leftHead left =>
            cases right with
            | nil => exact Nat.le_zero.mp (multisetOverlap_le_right (leftHead :: left) [])
            | cons rightHead right => exact absurd rfl (empty leftHead left rightHead right rfl)
      rw [none]
      exact iff_of_false Bool.false_ne_true (by omega)

/-- The walk over sorted lists decides whether their overlap is large enough. -/
theorem multisetOverlapAtLeast_iff (leftSorted : left.Pairwise (· ≤ ·))
    (rightSorted : right.Pairwise (· ≤ ·)) :
    multisetOverlapAtLeast left right required = true ↔
      required ≤ multisetOverlap left right := by
  rw [multisetOverlapAtLeast, Bool.or_eq_true, beq_iff_eq]
  by_cases zero : required = 0
  · rw [zero]
    exact iff_of_true (.inl rfl) (Nat.zero_le _)
  · rw [overlapAtLeastFrom_iff leftSorted rightSorted (Nat.pos_of_ne_zero zero), Nat.zero_add]
    exact or_iff_right zero

end NftData.Names
