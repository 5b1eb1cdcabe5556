import Mathlib

namespace NftData.Dedup

/-! # Triangular indices

Pairs of members and tiles of score blocks are numbered row by row. The row of an ordinal is
found by halving. -/

/-! ## Rows -/

/-- `while low + 1 < high`, which keeps `low` reached and `high` not. -/
def lastReached (reached : Nat → Bool) (low high : Nat) : Nat :=
  if low + 1 < high then
    let middle := low + (high - low) / 2
    if reached middle then lastReached reached middle high else lastReached reached low middle
  else
    low
termination_by high - low

theorem lastReached_spec {reached : Nat → Bool} {low high : Nat} (ordered : low < high)
    (isReached : reached low = true) (isNot : reached high = false) :
    lastReached reached low high < high ∧ reached (lastReached reached low high) = true ∧
      reached (lastReached reached low high + 1) = false := by
  fun_induction lastReached reached low high with
  | case1 low high apart middle middleReached induction =>
      exact induction (by omega) middleReached isNot
  | case2 low high apart middle notReached induction =>
      have found := induction (by omega) isReached (by simpa using notReached)
      exact ⟨by omega, found.2⟩
  | case3 low high near =>
      obtain rfl : high = low + 1 := by omega
      exact ⟨by omega, isReached, isNot⟩

variable {row ordinal : Nat}

section Rows

variable {start first : Nat → Nat} {rows stop : Nat}

/-- Row `row` has the columns from `first row` up to `stop`, numbered from `start row`. -/
structure NumbersRows (start first : Nat → Nat) (rows stop : Nat) : Prop where
  zero : start 0 = 0
  succ : ∀ row < rows, start (row + 1) = start row + (stop - first row)

def rowCoordinate (start first : Nat → Nat) (rows ordinal : Nat) : Nat × Nat :=
  let row := lastReached (start · ≤ ordinal) 0 rows
  (row, first row + (ordinal - start row))

namespace NumbersRows

variable (numbers : NumbersRows start first rows stop)
include numbers

theorem start_le {other : Nat} (ordered : row ≤ other) (inside : other ≤ rows) :
    start row ≤ start other := by
  induction other, ordered using Nat.le_induction with
  | base => exact le_rfl
  | succ other _ induction =>
      rw [numbers.succ other inside]
      exact (induction (by omega)).trans (Nat.le_add_right _ _)

/-- Every ordinal has a row and a column of it. -/
theorem exists_row (inside : ordinal < start rows) :
    ∃ row < rows, ∃ offset < stop - first row, ordinal = start row + offset ∧
      rowCoordinate start first rows ordinal = (row, first row + offset) := by
  have positive : 0 < rows := by
    by_contra none
    obtain rfl : rows = 0 := by omega
    rw [numbers.zero] at inside
    omega
  have found := @lastReached_spec (start · ≤ ordinal) 0 rows positive
    (by simp [numbers.zero]) (by simpa using inside)
  unfold rowCoordinate
  generalize lastReached (start · ≤ ordinal) 0 rows = row at found
  have reached : start row ≤ ordinal := by simpa using found.2.1
  have beyond : ordinal < start (row + 1) := by simpa using found.2.2
  rw [numbers.succ row found.1] at beyond
  exact ⟨row, found.1, ordinal - start row, by omega, by omega, rfl⟩

variable {offset : Nat}

theorem start_add_lt (inRows : row < rows) (inRow : offset < stop - first row) :
    start row + offset < start rows := by
  have whole := numbers.start_le (show row + 1 ≤ rows from inRows) le_rfl
  rw [numbers.succ row inRows] at whole
  omega

theorem rowCoordinate_start (inRows : row < rows) (inRow : offset < stop - first row) :
    rowCoordinate start first rows (start row + offset) = (row, first row + offset) := by
  obtain ⟨other, otherInRows, otherOffset, otherInRow, same, coordinate⟩ :=
    numbers.exists_row (numbers.start_add_lt inRows inRow)
  have afterRow := numbers.succ row inRows
  have afterOther := numbers.succ other otherInRows
  rcases lt_trichotomy row other with less | rfl | greater
  · have := numbers.start_le (show row + 1 ≤ other from less) otherInRows.le
    omega
  · obtain rfl : offset = otherOffset := by omega
    exact coordinate
  · have := numbers.start_le (show other + 1 ≤ row from greater) inRows.le
    omega

theorem bijOn : Set.BijOn (rowCoordinate start first rows) (Set.Iio (start rows))
    {place | place.1 < rows ∧ first place.1 ≤ place.2 ∧ place.2 < stop} := by
  refine ⟨?_, ?_, ?_⟩
  · intro ordinal inside
    obtain ⟨row, inRows, offset, inRow, _, coordinate⟩ := numbers.exists_row inside
    rw [coordinate]
    exact ⟨inRows, Nat.le_add_right _ _, by omega⟩
  · intro ordinal inside other otherInside same
    obtain ⟨row, _, offset, _, rfl, coordinate⟩ := numbers.exists_row inside
    obtain ⟨otherRow, _, otherOffset, _, rfl, otherCoordinate⟩ := numbers.exists_row otherInside
    rw [coordinate, otherCoordinate, Prod.mk.injEq] at same
    obtain ⟨rfl, sameColumn⟩ := same
    omega
  · intro ⟨row, column⟩ ⟨inRows, afterFirst, beforeStop⟩
    have inRow : column - first row < stop - first row := Nat.sub_lt_sub_right afterFirst beforeStop
    refine ⟨start row + (column - first row), numbers.start_add_lt inRows inRow, ?_⟩
    rw [numbers.rowCoordinate_start inRows inRow, Nat.add_sub_cancel' afterFirst]

end NumbersRows

end Rows

def saturatingMul (left right : Nat) : Nat := min (left * right) (2 ^ 64 - 1)

theorem saturatingMul_eq {left right : Nat} (small : left * right < 2 ^ 64) :
    saturatingMul left right = left * right := by
  unfold saturatingMul
  omega

/-- `choose_two`. -/
def chooseTwo (value : Nat) : Nat := saturatingMul value (value - 1) / 2

def pairRowStart (members row : Nat) : Nat :=
  saturatingMul row (saturatingMul members 2 - row - 1) / 2

def pairCoordinates (ordinal members : Nat) : Nat × Nat :=
  let low := lastReached (pairRowStart members · ≤ ordinal) 0 (members - 1)
  (low, low + 1 + ordinal - pairRowStart members low)

def upperRectTileCount (leftAxis rightAxis : Nat) : Nat :=
  saturatingMul leftAxis rightAxis - chooseTwo leftAxis

def tileRowStart (rightAxis row : Nat) : Nat := saturatingMul row rightAxis - chooseTwo row

def upperRectTileCoordinate (index leftAxis rightAxis : Nat) : Nat × Nat :=
  let low := lastReached (tileRowStart rightAxis · ≤ index) 0 leftAxis
  (low, low + (index - tileRowStart rightAxis low))

structure UpperRectTileCoordinateCursor where
  left : Nat
  right : Nat
  rightAxis : Nat

namespace UpperRectTileCoordinateCursor

def new (index leftAxis rightAxis : Nat) : UpperRectTileCoordinateCursor :=
  let (left, right) := upperRectTileCoordinate index leftAxis rightAxis
  ⟨left, right, rightAxis⟩

def next (cursor : UpperRectTileCoordinateCursor) :
    (Nat × Nat) × UpperRectTileCoordinateCursor :=
  ((cursor.left, cursor.right),
    if cursor.right + 1 = cursor.rightAxis then ⟨cursor.left + 1, cursor.left + 1, cursor.rightAxis⟩
    else ⟨cursor.left, cursor.right + 1, cursor.rightAxis⟩)

/-- What a number of calls to `next` return. -/
def nexts : Nat → UpperRectTileCoordinateCursor → List (Nat × Nat)
  | 0, _ => []
  | calls + 1, cursor => cursor.next.1 :: nexts calls cursor.next.2

end UpperRectTileCoordinateCursor

section Pairs

variable {members : Nat}

theorem pairRowStart_eq (large : members ≤ 2 ^ 32) (inside : row < members) :
    pairRowStart members row = row * (2 * members - row - 1) / 2 := by
  have doubled : saturatingMul members 2 = 2 * members := by
    rw [saturatingMul_eq (by omega), Nat.mul_comm]
  rw [pairRowStart, doubled, saturatingMul_eq]
  obtain ⟨rest, rfl⟩ := Nat.exists_eq_add_of_lt inside
  have width : 2 * (row + rest + 1) - row - 1 = row + 2 * rest + 1 := by omega
  have square : (row + rest + 1) * (row + rest) < 2 ^ 32 * 2 ^ 32 :=
    Nat.mul_lt_mul_of_le_of_lt large (by omega) (by norm_num)
  rw [width]
  nlinarith

theorem numbersRows_pairs (two : 2 ≤ members) (large : members ≤ 2 ^ 32) :
    NumbersRows (pairRowStart members) (· + 1) (members - 1) members := by
  refine ⟨by rw [pairRowStart_eq large (by omega), Nat.zero_mul, Nat.zero_div], ?_⟩
  intro row inside
  obtain ⟨rest, rfl⟩ : ∃ rest, members = row + rest + 2 := ⟨members - row - 2, by omega⟩
  have wider : 2 * (row + rest + 2) - row - 1 = row + 2 * rest + 3 := by omega
  have narrower : 2 * (row + rest + 2) - (row + 1) - 1 = row + 2 * rest + 2 := by omega
  have area : (row + 1) * (row + 2 * rest + 2) = row * (row + 2 * rest + 3) + (rest + 1) * 2 := by
    ring
  rw [pairRowStart_eq large (by omega), pairRowStart_eq large (by omega), wider, narrower, area,
    Nat.add_mul_div_right _ _ (by decide)]
  omega

theorem pairRowStart_last (two : 2 ≤ members) (large : members ≤ 2 ^ 32) :
    pairRowStart members (members - 1) = members.choose 2 := by
  have width : 2 * members - (members - 1) - 1 = members := by omega
  rw [pairRowStart_eq large (by omega), width, Nat.choose_two_right, Nat.mul_comm]

theorem pairCoordinates_eq (two : 2 ≤ members) (large : members ≤ 2 ^ 32)
    (inside : ordinal < members.choose 2) :
    pairCoordinates ordinal members =
      rowCoordinate (pairRowStart members) (· + 1) (members - 1) ordinal := by
  rw [← pairRowStart_last two large] at inside
  obtain ⟨row, _, offset, _, rfl, coordinate⟩ := (numbersRows_pairs two large).exists_row inside
  unfold rowCoordinate at coordinate ⊢
  obtain ⟨isRow, _⟩ := Prod.mk.inj coordinate
  simp only [pairCoordinates, isRow]
  exact Prod.ext rfl (by omega)

end Pairs

section Tiles

variable {leftAxis rightAxis : Nat} (ordered : leftAxis ≤ rightAxis)
  (small : leftAxis * rightAxis < 2 ^ 64)
include ordered small

theorem tileRowStart_eq (inside : row ≤ leftAxis) :
    tileRowStart rightAxis row = row * rightAxis - row * (row - 1) / 2 := by
  have rowSmall : row * rightAxis < 2 ^ 64 :=
    (Nat.mul_le_mul_right rightAxis inside).trans_lt small
  have square : row * (row - 1) < 2 ^ 64 :=
    (Nat.mul_le_mul_left row (by omega)).trans_lt rowSmall
  rw [tileRowStart, chooseTwo, saturatingMul_eq rowSmall, saturatingMul_eq square]

theorem numbersRows_tiles :
    NumbersRows (tileRowStart rightAxis) (fun row => row) leftAxis rightAxis := by
  refine ⟨by simp [tileRowStart, saturatingMul], ?_⟩
  intro row inside
  obtain ⟨rest, rfl⟩ : ∃ rest, rightAxis = row + rest + 1 := ⟨rightAxis - row - 1, by omega⟩
  have next : (row + 1) * row / 2 = row * (row - 1) / 2 + row := by
    rw [← Nat.add_mul_div_right _ _ (by decide)]
    cases row with
    | zero => rfl
    | succ row =>
        congr 1
        rw [Nat.add_sub_cancel]
        ring
  have fits : row * (row - 1) / 2 ≤ row * (row + rest + 1) :=
    (Nat.div_le_self _ _).trans (Nat.mul_le_mul_left row (by omega))
  have grown : (row + 1) * (row + rest + 1) = row * (row + rest + 1) + (row + rest + 1) := by ring
  rw [tileRowStart_eq ordered small (by omega), tileRowStart_eq ordered small (by omega),
    Nat.add_sub_cancel, next, grown]
  omega

variable {index : Nat}

theorem new_next (inside : index + 1 < upperRectTileCount leftAxis rightAxis) :
    (UpperRectTileCoordinateCursor.new index leftAxis rightAxis).next.2 =
      UpperRectTileCoordinateCursor.new (index + 1) leftAxis rightAxis := by
  have numbers := numbersRows_tiles ordered small
  obtain ⟨row, inRows, offset, inRow, rfl, coordinate⟩ :=
    numbers.exists_row (Nat.lt_of_succ_lt inside)
  have afterRow := numbers.succ row inRows
  change upperRectTileCoordinate _ leftAxis rightAxis = _ at coordinate
  simp only [UpperRectTileCoordinateCursor.new, UpperRectTileCoordinateCursor.next, coordinate]
  split
  · next full =>
      have notLast : row + 1 < leftAxis := by
        by_contra isLast
        obtain rfl : leftAxis = row + 1 := by omega
        change _ < tileRowStart rightAxis (row + 1) at inside
        omega
      have starts : 0 < rightAxis - (row + 1) := by omega
      have moved := numbers.rowCoordinate_start notLast starts
      change upperRectTileCoordinate _ leftAxis rightAxis = _ at moved
      rw [show tileRowStart rightAxis row + offset + 1 = tileRowStart rightAxis (row + 1) + 0 by
        omega, moved]
  · next notFull =>
      have goesOn : offset + 1 < rightAxis - row := by omega
      have moved := numbers.rowCoordinate_start inRows goesOn
      change upperRectTileCoordinate _ leftAxis rightAxis = _ at moved
      rw [← Nat.add_assoc, ← Nat.add_assoc] at moved
      rw [moved]

theorem nexts_eq {calls : Nat} (inside : index + calls ≤ upperRectTileCount leftAxis rightAxis) :
    (UpperRectTileCoordinateCursor.new index leftAxis rightAxis).nexts calls =
      (List.range calls).map fun call => upperRectTileCoordinate (index + call) leftAxis rightAxis := by
  induction calls generalizing index with
  | zero => rfl
  | succ calls induction =>
      rw [List.range_succ_eq_map, List.map_cons, List.map_map, UpperRectTileCoordinateCursor.nexts]
      congr 1
      cases calls with
      | zero => rfl
      | succ calls =>
          rw [new_next ordered small (by omega), induction (by omega)]
          apply List.map_congr_left
          intro call _
          rw [Function.comp_apply, Nat.add_assoc, Nat.add_comm 1]

end Tiles

/-- Every pair of members and every tile has one ordinal, and the cursor goes through the tiles
in the order of theirs. -/
theorem triangular_bijOn :
    (∀ members, 2 ≤ members → members ≤ 2 ^ 32 →
      Set.BijOn (pairCoordinates · members) (Set.Iio (members.choose 2))
        {pair | pair.1 < pair.2 ∧ pair.2 < members}) ∧
    ∀ leftAxis rightAxis, leftAxis ≤ rightAxis → leftAxis * rightAxis < 2 ^ 64 →
      Set.BijOn (upperRectTileCoordinate · leftAxis rightAxis)
          (Set.Iio (upperRectTileCount leftAxis rightAxis))
          {tile | tile.1 < leftAxis ∧ tile.1 ≤ tile.2 ∧ tile.2 < rightAxis} ∧
        ∀ index calls, index + calls ≤ upperRectTileCount leftAxis rightAxis →
          (UpperRectTileCoordinateCursor.new index leftAxis rightAxis).nexts calls =
            (List.range calls).map fun call =>
              upperRectTileCoordinate (index + call) leftAxis rightAxis := by
  constructor
  · intro members two large
    have bijection := (numbersRows_pairs two large).bijOn
    rw [pairRowStart_last two large] at bijection
    have whole : {pair : Nat × Nat | pair.1 < members - 1 ∧ pair.1 + 1 ≤ pair.2 ∧ pair.2 < members} =
        {pair | pair.1 < pair.2 ∧ pair.2 < members} := by
      ext pair
      simp only [Set.mem_ofPred_eq]
      omega
    rw [whole] at bijection
    exact bijection.congr fun ordinal inside => (pairCoordinates_eq two large inside).symm
  · intro leftAxis rightAxis ordered small
    exact ⟨(numbersRows_tiles ordered small).bijOn, fun index calls => nexts_eq ordered small⟩

theorem triangular_bijOn_small :
    Set.BijOn (pairCoordinates · 4) (Set.Iio (Nat.choose 4 2))
        {pair | pair.1 < pair.2 ∧ pair.2 < 4} ∧
      (UpperRectTileCoordinateCursor.new 3 2 5).nexts 3 =
        (List.range 3).map fun call => upperRectTileCoordinate (3 + call) 2 5 :=
  ⟨triangular_bijOn.1 4 (by decide) (by decide),
    (triangular_bijOn.2 2 5 (by decide) (by decide)).2 3 3 (by decide)⟩

end NftData.Dedup
