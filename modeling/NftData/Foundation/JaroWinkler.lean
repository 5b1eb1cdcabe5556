import Mathlib

namespace NftData

/-! # Jaro-Winkler similarity

Each entry of the left list takes the first equal entry of the right list that is free and not
too far away. The more entries find a partner, and the fewer of them are out of order, the more
similar the lists are; a common prefix counts extra. -/

open List

section JaroWinkler

variable {α : Type*} [DecidableEq α]

/-! ## Matching -/

/-- Take the first free entry with the value, among `width` entries after the first `skip`. -/
def claimEntry (value : α) : Nat → Nat → List (α × Bool) → Option (List (α × Bool))
  | _, _, [] => none
  | skip + 1, width, entry :: rest => (claimEntry value skip width rest).map (entry :: ·)
  | 0, 0, _ :: _ => none
  | 0, width + 1, entry :: rest =>
      if entry.2 = false ∧ entry.1 = value then
        some ((value, true) :: rest)
      else
        (claimEntry value 0 width rest).map (entry :: ·)

def matchEntries (window : Nat) : Nat → List α → List (α × Bool) → List α × List (α × Bool)
  | _, [], right => ([], right)
  | index, value :: rest, right =>
      let low := index - window
      match claimEntry value low (index + window + 1 - low) right with
      | none => matchEntries window (index + 1) rest right
      | some claimed =>
          let later := matchEntries window (index + 1) rest claimed
          (value :: later.1, later.2)

def takenEntries (right : List (α × Bool)) : List α := (right.filter Prod.snd).map Prod.fst

def matchWindow (leftLength rightLength : Nat) : Nat := max leftLength rightLength / 2 - 1

def matching (left right : List α) : List α × List (α × Bool) :=
  matchEntries (matchWindow left.length right.length) 0 left (right.map (·, false))

variable {width skip : Nat} {value : α}

theorem claimEntry_eq_some {right claimed : List (α × Bool)}
    (taken : claimEntry value skip width right = some claimed) :
    claimed.map Prod.fst = right.map Prod.fst ∧
      (takenEntries claimed).Perm (value :: takenEntries right) := by
  fun_induction claimEntry value skip width right generalizing claimed with
  | case1 | case3 => cases taken
  | case2 width entry rest skip induction | case5 width entry rest notFree induction =>
      rcases Option.map_eq_some_iff.mp taken with ⟨later, isLater, isClaimed⟩
      cases isClaimed
      have known := induction isLater
      refine ⟨by rw [map_cons, map_cons, known.1], ?_⟩
      unfold takenEntries at known ⊢
      rw [filter_cons, filter_cons]
      split
      · exact (known.2.cons _).trans (.swap _ _ _)
      · exact known.2
  | case4 width entry rest free =>
      cases taken
      refine ⟨by rw [map_cons, map_cons, free.2], ?_⟩
      unfold takenEntries
      rw [filter_cons, filter_cons, free.1]
      exact .refl _

theorem matchEntries_spec (window index : Nat) (left : List α) (right : List (α × Bool)) :
    (matchEntries window index left right).1.Sublist left ∧
      (matchEntries window index left right).2.map Prod.fst = right.map Prod.fst ∧
      (takenEntries (matchEntries window index left right).2).Perm
        ((matchEntries window index left right).1 ++ takenEntries right) := by
  induction left generalizing index right with
  | nil => exact ⟨.slnil, rfl, .refl _⟩
  | cons value rest induction =>
      rw [matchEntries]
      dsimp only
      split
      · have known := induction (index + 1) right
        exact ⟨known.1.cons _, known.2⟩
      · next claimed taken =>
          have claim := claimEntry_eq_some taken
          have known := induction (index + 1) claimed
          refine ⟨known.1.cons_cons _, known.2.1.trans claim.1, ?_⟩
          refine known.2.2.trans ((claim.2.append_left _).trans ?_)
          exact perm_middle

def multisetOverlap (left right : List α) : Nat :=
  ((left : Multiset α) ∩ (right : Multiset α)).card

theorem multisetOverlap_le_left (left right : List α) :
    multisetOverlap left right ≤ left.length :=
  (Multiset.card_le_card Multiset.inter_le_left).trans (Multiset.coe_card left).le

theorem multisetOverlap_le_right (left right : List α) :
    multisetOverlap left right ≤ right.length :=
  (Multiset.card_le_card Multiset.inter_le_right).trans (Multiset.coe_card right).le

variable {right left : List α}

theorem length_le_multisetOverlap {common other : List α} (inLeft : common.Sublist left)
    (inRight : other.Sublist right) (same : common.Perm other) :
    common.length ≤ multisetOverlap left right := by
  have below : (common : Multiset α) ≤ (left : Multiset α) ∩ (right : Multiset α) := by
    apply Multiset.le_inter
    · exact Multiset.coe_le.mpr inLeft.subperm
    · exact Multiset.coe_le.mpr (same.subperm.trans inRight.subperm)
  exact (Multiset.coe_card common).ge.trans (Multiset.card_le_card below)

omit [DecidableEq α] in
theorem takenEntries_map_false (right : List α) :
    takenEntries (right.map (·, false)) = [] := by
  induction right with
  | nil => rfl
  | cons value rest induction => exact induction

omit [DecidableEq α] in
theorem takenEntries_sublist (right : List (α × Bool)) :
    (takenEntries right).Sublist (right.map Prod.fst) := filter_sublist.map _

theorem matching_perm (left right : List α) :
    (takenEntries (matching left right).2).Perm (matching left right).1 := by
  have spec := (matchEntries_spec (matchWindow left.length right.length) 0 left
    (right.map (·, false))).2.2
  rwa [takenEntries_map_false, append_nil] at spec

theorem length_matching_le (left right : List α) :
    (matching left right).1.length ≤ multisetOverlap left right := by
  have spec := matchEntries_spec (matchWindow left.length right.length) 0 left
    (right.map (·, false))
  refine length_le_multisetOverlap spec.1 ?_ (matching_perm left right).symm
  have sublist := takenEntries_sublist (matching left right).2
  have entries : (matching left right).2.map Prod.fst = right := by
    refine spec.2.1.trans ?_
    rw [map_map]
    exact map_id _
  rwa [entries] at sublist

def mismatches (left right : List α) : Nat :=
  ((left.zip right).filter fun pair => pair.1 ≠ pair.2).length

def jaroOfCounts (leftLength rightLength matched transposed : Nat) : ℚ :=
  ((matched : ℚ) / leftLength + (matched : ℚ) / rightLength +
    ((matched : ℚ) - transposed) / matched) / 3

def jaro (left right : List α) : ℚ :=
  if left = [] ∧ right = [] then
    1
  else
    let matched := matching left right
    if matched.1 = [] then
      0
    else
      jaroOfCounts left.length right.length matched.1.length
        (mismatches matched.1 (takenEntries matched.2) / 2)

def commonPrefix : List α → List α → Nat
  | leftHead :: left, rightHead :: right =>
      if leftHead = rightHead then commonPrefix left right + 1 else 0
  | _, _ => 0

/-- A prefix counts when the lists are similar without it. -/
def withPrefix (similarity : ℚ) (prefixLength : Nat) : ℚ :=
  if 7 / 10 < similarity then
    similarity + 1 / 10 * prefixLength * (1 - similarity)
  else
    similarity

def jaroWinkler (left right : List α) : ℚ :=
  withPrefix (jaro left right) (min (commonPrefix left right) 4)

example : jaroWinkler "martha".toList "marhta".toList = 173 / 180 := by
  decide +kernel

/-! ## Bounds -/

theorem commonPrefix_spec (left right : List α) :
    left.take (commonPrefix left right) = right.take (commonPrefix left right) ∧
      commonPrefix left right ≤ left.length := by
  fun_induction commonPrefix left right with
  | case1 leftHead left right induction =>
      rw [take_succ_cons, take_succ_cons, induction.1]
      exact ⟨rfl, Nat.succ_le_succ induction.2⟩
  | case2 | case3 => exact ⟨rfl, Nat.zero_le _⟩

theorem commonPrefix_le_multisetOverlap (left right : List α) :
    commonPrefix left right ≤ multisetOverlap left right := by
  have spec := commonPrefix_spec left right
  have common := length_le_multisetOverlap (take_sublist (commonPrefix left right) left)
    (take_sublist (commonPrefix left right) right) (.of_eq spec.1)
  rwa [length_take, Nat.min_eq_left spec.2] at common

variable {similarity : ℚ} {bound : ℚ}

theorem raise_mono {prefixLength prefixBound : ℚ} (similar : similarity ≤ bound)
    (limited : bound ≤ 1) (short : prefixLength ≤ prefixBound) (prefixLimited : prefixLength ≤ 10) :
    similarity + 1 / 10 * prefixLength * (1 - similarity) ≤
      bound + 1 / 10 * prefixBound * (1 - bound) := by
  have first : similarity * (1 - 1 / 10 * prefixLength) ≤
      bound * (1 - 1 / 10 * prefixLength) := by
    refine mul_le_mul_of_nonneg_right similar ?_
    linarith
  have second : prefixLength * (1 - bound) ≤ prefixBound * (1 - bound) := by
    refine mul_le_mul_of_nonneg_right short ?_
    linarith
  linarith

theorem withPrefix_le_raise (limited : similarity ≤ 1) (prefixLength : Nat) :
    withPrefix similarity prefixLength ≤
      similarity + 1 / 10 * prefixLength * (1 - similarity) := by
  have bonus : 0 ≤ 1 / 10 * (prefixLength : ℚ) * (1 - similarity) :=
    mul_nonneg (by positivity) (by linarith)
  unfold withPrefix
  split
  · exact le_rfl
  · linarith

/-- More similar lists with a longer prefix are not less similar. -/
theorem withPrefix_mono {prefixLength prefixBound : Nat} (similar : similarity ≤ bound)
    (limited : bound ≤ 1) (short : prefixLength ≤ prefixBound) (prefixLimited : prefixBound ≤ 4) :
    withPrefix similarity prefixLength ≤ withPrefix bound prefixBound := by
  have shortRat : (prefixLength : ℚ) ≤ prefixBound := Nat.cast_le.mpr short
  have limitedRat : (prefixBound : ℚ) ≤ 4 := by exact_mod_cast prefixLimited
  have raise := raise_mono similar limited shortRat (by linarith)
  unfold withPrefix
  split
  · rw [if_pos (by linarith)]
    exact raise
  · split
    · have bonus : 0 ≤ 1 / 10 * (prefixBound : ℚ) * (1 - bound) :=
        mul_nonneg (by positivity) (by linarith)
      linarith
    · exact similar

def jaroBound (leftLength rightLength overlap : Nat) : ℚ :=
  ((overlap : ℚ) / leftLength + (overlap : ℚ) / rightLength + 1) / 3

variable {rightLength leftLength overlap : Nat}

theorem jaroBound_mono {other : Nat} (more : overlap ≤ other) :
    jaroBound leftLength rightLength overlap ≤ jaroBound leftLength rightLength other := by
  have cast : (overlap : ℚ) ≤ other := Nat.cast_le.mpr more
  have left : (overlap : ℚ) / leftLength ≤ other / leftLength := by gcongr
  have right : (overlap : ℚ) / rightLength ≤ other / rightLength := by gcongr
  unfold jaroBound
  linarith

theorem jaroBound_le_one (inLeft : overlap ≤ leftLength) (inRight : overlap ≤ rightLength) :
    jaroBound leftLength rightLength overlap ≤ 1 := by
  have left : (overlap : ℚ) / leftLength ≤ 1 :=
    div_le_one_of_le₀ (Nat.cast_le.mpr inLeft) (Nat.cast_nonneg _)
  have right : (overlap : ℚ) / rightLength ≤ 1 :=
    div_le_one_of_le₀ (Nat.cast_le.mpr inRight) (Nat.cast_nonneg _)
  unfold jaroBound
  linarith

theorem jaroOfCounts_le (leftLength rightLength matched transposed : Nat) :
    jaroOfCounts leftLength rightLength matched transposed ≤
      jaroBound leftLength rightLength matched := by
  have inOrder : ((matched : ℚ) - transposed) / matched ≤ 1 := by
    refine div_le_one_of_le₀ ?_ (Nat.cast_nonneg _)
    have zero : (0 : ℚ) ≤ transposed := Nat.cast_nonneg _
    linarith
  unfold jaroOfCounts jaroBound
  linarith

/-- Lists without common entries are not similar at all. -/
theorem jaro_le (nonempty : ¬(left = [] ∧ right = [])) :
    jaro left right ≤
      if multisetOverlap left right = 0 then 0
      else jaroBound left.length right.length (multisetOverlap left right) := by
  have fewer := length_matching_le left right
  rw [jaro, if_neg nonempty]
  dsimp only
  split
  · next empty =>
      split
      · exact le_refl _
      · unfold jaroBound
        positivity
  · next matched =>
      have some : 0 < (matching left right).1.length := length_pos_of_ne_nil matched
      rw [if_neg (by omega)]
      exact (jaroOfCounts_le _ _ _ _).trans (jaroBound_mono fewer)

/-- What the lengths of two lists and their overlap allow at most. -/
theorem jaroWinkler_le (nonempty : ¬(left = [] ∧ right = [])) :
    jaroWinkler left right ≤
      if multisetOverlap left right = 0 then 0
      else withPrefix (jaroBound left.length right.length (multisetOverlap left right))
        (min (multisetOverlap left right) 4) := by
  have similar := jaro_le nonempty
  have common := commonPrefix_le_multisetOverlap left right
  unfold jaroWinkler
  split
  · next none =>
      rw [if_pos none] at similar
      have bound : withPrefix (jaro left right) (min (commonPrefix left right) 4) ≤
          withPrefix 0 0 :=
        withPrefix_mono similar zero_le_one (by omega) (Nat.zero_le _)
      refine bound.trans (le_of_eq ?_)
      rw [withPrefix, if_neg (by norm_num)]
  · next some =>
      rw [if_neg some] at similar
      refine withPrefix_mono similar ?_ (by omega) (Nat.min_le_right _ _)
      exact jaroBound_le_one (multisetOverlap_le_left left right)
        (multisetOverlap_le_right left right)

theorem jaroWinkler_le_one (left right : List α) : jaroWinkler left right ≤ 1 := by
  by_cases empty : left = [] ∧ right = []
  · rw [jaroWinkler, jaro, if_pos empty, withPrefix, if_pos (by norm_num), sub_self, mul_zero,
      add_zero]
  · refine (jaroWinkler_le empty).trans ?_
    split
    · exact zero_le_one
    · have bound := withPrefix_mono (jaroBound_le_one (multisetOverlap_le_left left right)
        (multisetOverlap_le_right left right)) le_rfl le_rfl
        (Nat.min_le_right (multisetOverlap left right) 4)
      refine bound.trans (le_of_eq ?_)
      rw [withPrefix, if_pos (by norm_num), sub_self, mul_zero, add_zero]

/-- The next free entry is taken when all entries before it are. -/
theorem claimEntry_of_taken {front rest : List (α × Bool)} (taken : ∀ entry ∈ front, entry.2 = true)
    (low : skip ≤ front.length) (high : front.length < skip + width) :
    claimEntry value skip width (front ++ (value, false) :: rest) =
      some (front ++ (value, true) :: rest) := by
  induction front generalizing skip width with
  | nil =>
      have isZero : skip = 0 := Nat.le_zero.mp low
      rw [isZero] at high ⊢
      cases width with
      | zero => cases high
      | succ width => rw [nil_append, claimEntry, if_pos ⟨rfl, rfl⟩, nil_append]
  | cons entry front induction =>
      have later : ∀ other ∈ front, other.2 = true := fun other member =>
        taken other (mem_cons_of_mem _ member)
      rw [length_cons] at low high
      cases skip with
      | succ skip =>
          rw [cons_append, claimEntry, induction later (by omega) (by omega)]
          rfl
      | zero =>
          cases width with
          | zero => cases high
          | succ width =>
              have isTaken := taken entry mem_cons_self
              rw [cons_append, claimEntry, if_neg (by rw [isTaken]; exact fun free =>
                nomatch free.1), induction later (Nat.zero_le _) (by omega)]
              rfl

theorem matchEntries_self (window : Nat) (front rest : List α) :
    matchEntries window front.length rest
        (front.map (·, true) ++ rest.map (·, false)) =
      (rest, (front ++ rest).map (·, true)) := by
  induction rest generalizing front with
  | nil =>
      rw [matchEntries, map_nil, append_nil, append_nil]
  | cons value rest induction =>
      have claimed : claimEntry value (front.length - window)
          (front.length + window + 1 - (front.length - window))
          (front.map (·, true) ++ (value, false) :: rest.map (·, false)) =
            some (front.map (·, true) ++ (value, true) :: rest.map (·, false)) := by
        refine claimEntry_of_taken (fun entry member => ?_) ?_ ?_
        · rcases mem_map.mp member with ⟨other, _, isEntry⟩
          rw [← isEntry]
        · rw [length_map]
          omega
        · rw [length_map]
          omega
      have later := induction (front ++ [value])
      rw [length_append, map_append, List.append_assoc, List.append_assoc] at later
      rw [matchEntries, map_cons, claimed]
      exact congrArg (fun found : List α × List (α × Bool) => (value :: found.1, found.2)) later

theorem mismatches_self (values : List α) : mismatches values values = 0 := by
  induction values with
  | nil => rfl
  | cons value values induction =>
      rw [mismatches, zip_cons_cons, filter_cons, if_neg (by simp)]
      exact induction

omit [DecidableEq α] in
theorem takenEntries_map_true (right : List α) :
    takenEntries (right.map (·, true)) = right := by
  induction right with
  | nil => rfl
  | cons value rest induction => exact congrArg (value :: ·) induction

theorem jaro_self (values : List α) : jaro values values = 1 := by
  unfold jaro
  split
  · rfl
  · next nonempty =>
      have some : values ≠ [] := fun empty => nonempty ⟨empty, empty⟩
      have positive : (0 : ℚ) < values.length :=
        Nat.cast_pos.mpr (length_pos_of_ne_nil some)
      have matched : matching values values = (values, values.map (·, true)) :=
        matchEntries_self _ [] values
      rw [matched]
      dsimp only
      rw [if_neg some, takenEntries_map_true, mismatches_self, jaroOfCounts]
      rw [div_self positive.ne', Nat.zero_div, Nat.cast_zero, sub_zero, div_self positive.ne']
      norm_num

theorem jaroWinkler_self (values : List α) : jaroWinkler values values = 1 := by
  rw [jaroWinkler, jaro_self, withPrefix, if_pos (by norm_num), sub_self, mul_zero, add_zero]

end JaroWinkler

end NftData
