import NftData.Foundation.CycleWalk

namespace NftData.Dedup

/-! # Random task permutation

Tasks are visited in a keyed order without storing it: a Feistel network permutes the least
power of four that holds all tasks, and cycle walking stays below their number. -/

open List
open BitVec (ofNat eq_of_toNat_eq le_def lt_def toNat_ofNat toNat_sub_of_le)

/-- `u64`. -/
abbrev Word64 : Type := BitVec 64

def splitmix64 (value : Word64) : Word64 :=
  let value := value + 0x9e3779b97f4a7c15
  let value := (value ^^^ (value >>> 30)) * 0xbf58476d1ce4e5b9
  let value := (value ^^^ (value >>> 27)) * 0x94d049bb133111eb
  value ^^^ (value >>> 31)

structure FastSamplingRandomness where
  key : Word64

def FastSamplingRandomness.score (randomness : FastSamplingRandomness)
    (domain : List (BitVec 8)) (values : List Word64) : Word64 :=
  let state := randomness.key ^^^ 0xcbf29ce484222325
  let state := domain.foldl
    (fun state byte => (state ^^^ byte.setWidth 64) * 0x100000001b3) state
  let state := values.foldl (fun state value => splitmix64 (state ^^^ value)) state
  splitmix64 (state ^^^ ofNat 64 values.length)

structure RandomTaskPermutation where
  len : Word64
  remaining : Word64
  ordinal : Word64
  halfBits : Nat
  roundKeys : List Word64

namespace RandomTaskPermutation

def new (len : Word64) (randomness : FastSamplingRandomness) (domain : List (BitVec 8))
    (salt : Word64) : RandomTaskPermutation :=
  let key := randomness.score domain [salt]
  { len := len
    remaining := len
    ordinal := 0
    halfBits := if len ≤ 1 then 1 else (64 - (len - 1).clz.toNat + 1) / 2
    roundKeys := (List.range 6).map fun round =>
      splitmix64 (key ^^^ ofNat 64 round * 0x9e3779b97f4a7c15) }

def mask (permutation : RandomTaskPermutation) : Word64 :=
  (1#64 <<< permutation.halfBits) - 1

def round (permutation : RandomTaskPermutation) (halves : Word64 × Word64)
    (roundKey : Word64) : Word64 × Word64 :=
  let mixed := splitmix64 (roundKey ^^^ halves.2) &&& permutation.mask
  (halves.2, halves.1 ^^^ mixed)

def split (permutation : RandomTaskPermutation) (value : Word64) : Word64 × Word64 :=
  (value >>> permutation.halfBits, value &&& permutation.mask)

/-- The body of the loop of `permuted`. -/
def permute (permutation : RandomTaskPermutation) (value : Word64) : Word64 :=
  let halves := permutation.roundKeys.foldl permutation.round (permutation.split value)
  (halves.1 <<< permutation.halfBits) ||| halves.2

def permuted (permutation : RandomTaskPermutation) (fuel : Nat) (value : Word64) :
    Option Word64 :=
  if permutation.len ≤ 1 then some 0
  else cycleWalk permutation.permute (fun value => value < permutation.len) fuel value

/-- The selected value, if any is left, and the permutation after the call. -/
def next (permutation : RandomTaskPermutation) (fuel : Nat) :
    Option (Option Word64 × RandomTaskPermutation) :=
  if permutation.remaining = 0 then some (none, permutation)
  else
    (permutation.permuted fuel permutation.ordinal).map fun selected =>
      (some selected,
        { permutation with
          remaining := permutation.remaining - 1
          ordinal := permutation.ordinal + 1 })

/-- Call `next` until nothing is left, at most so many times. -/
def drain (fuel : Nat) : Nat → RandomTaskPermutation → Option (List Word64)
  | 0, _ => none
  | calls + 1, permutation => do
      match ← permutation.next fuel with
      | (none, _) => some []
      | (some selected, rest) => (selected :: ·) <$> drain fuel calls rest

/-! ## The Feistel network -/

/-- The halves are short enough to be joined in a word, and joined they number all tasks. -/
structure Sized (permutation : RandomTaskPermutation) : Prop where
  fits : permutation.halfBits ≤ 32
  covers : permutation.len.toNat ≤ 2 ^ (2 * permutation.halfBits)

theorem sized_new (len : Word64) (randomness : FastSamplingRandomness)
    (domain : List (BitVec 8)) (salt : Word64) : (new len randomness domain salt).Sized := by
  have clz := BitVec.toNat_lt_two_pow_sub_clz (x := len - 1)
  by_cases small : len ≤ 1
  · have bits : (new len randomness domain salt).halfBits = 1 := if_pos small
    refine ⟨by omega, ?_⟩
    have one : len.toNat ≤ 1 := small
    exact one.trans Nat.one_le_two_pow
  · have bits : (new len randomness domain salt).halfBits =
        (64 - (len - 1).clz.toNat + 1) / 2 := if_neg small
    have large : ¬ len.toNat ≤ 1 := small
    have less : (len - 1).toNat = len.toNat - 1 := by
      rw [toNat_sub_of_le (le_def.mpr (by simp; omega))]
      rfl
    refine ⟨by rw [bits]; omega, ?_⟩
    rw [less] at clz
    calc
      len.toNat ≤ 2 ^ (64 - (len - 1).clz.toNat) := by omega
      _ ≤ 2 ^ (2 * (new len randomness domain salt).halfBits) :=
        Nat.pow_le_pow_right (by omega) (by rw [bits]; omega)

section Network

variable {permutation : RandomTaskPermutation} (sized : permutation.Sized)

include sized

theorem toNat_mask : permutation.mask.toNat = 2 ^ permutation.halfBits - 1 := by
  have fits := sized.fits
  have power : 2 ^ permutation.halfBits < 2 ^ 64 := Nat.pow_lt_pow_right (by omega) (by omega)
  have one : (1#64 <<< permutation.halfBits).toNat = 2 ^ permutation.halfBits := by
    rw [BitVec.toNat_shiftLeft, toNat_ofNat, Nat.one_mod_two_pow (by omega),
      Nat.one_shiftLeft, Nat.mod_eq_of_lt power]
  rw [mask, toNat_sub_of_le, one]
  · rfl
  · rw [le_def, one]
    exact Nat.one_le_two_pow

theorem toNat_and_mask (value : Word64) :
    (value &&& permutation.mask).toNat = value.toNat % 2 ^ permutation.halfBits := by
  rw [BitVec.toNat_and, toNat_mask sized, Nat.and_two_pow_sub_one_eq_mod]

variable {right left : Word64}

theorem toNat_join (leftFits : left.toNat < 2 ^ permutation.halfBits)
    (rightFits : right.toNat < 2 ^ permutation.halfBits) :
    ((left <<< permutation.halfBits) ||| right).toNat =
      left.toNat * 2 ^ permutation.halfBits + right.toNat := by
  have fits := sized.fits
  have power : 2 ^ permutation.halfBits ≤ 2 ^ 32 := Nat.pow_le_pow_right (by omega) fits
  have product : left.toNat * 2 ^ permutation.halfBits < 2 ^ 64 := by nlinarith
  rw [BitVec.toNat_or, BitVec.toNat_shiftLeft, Nat.shiftLeft_eq, Nat.mod_eq_of_lt product,
    ← Nat.shiftLeft_eq, ← Nat.shiftLeft_add_eq_or_of_lt rightFits]

/-- Joining short halves loses nothing. -/
theorem join_injective {otherLeft otherRight : Word64}
    (leftFits : left.toNat < 2 ^ permutation.halfBits)
    (rightFits : right.toNat < 2 ^ permutation.halfBits)
    (otherLeftFits : otherLeft.toNat < 2 ^ permutation.halfBits)
    (otherRightFits : otherRight.toNat < 2 ^ permutation.halfBits)
    (equal : (left <<< permutation.halfBits) ||| right =
      (otherLeft <<< permutation.halfBits) ||| otherRight) :
    left = otherLeft ∧ right = otherRight := by
  have joined := congrArg BitVec.toNat equal
  rw [toNat_join sized leftFits rightFits, toNat_join sized otherLeftFits otherRightFits,
    Nat.mul_comm, Nat.mul_comm otherLeft.toNat] at joined
  have high := congrArg (· / 2 ^ permutation.halfBits) joined
  have low := congrArg (· % 2 ^ permutation.halfBits) joined
  simp only [Nat.mul_add_div (Nat.two_pow_pos _), Nat.div_eq_of_lt rightFits,
    Nat.div_eq_of_lt otherRightFits, Nat.add_zero] at high
  simp only [Nat.mul_add_mod, Nat.mod_eq_of_lt rightFits, Nat.mod_eq_of_lt otherRightFits] at low
  exact ⟨eq_of_toNat_eq high, eq_of_toNat_eq low⟩

variable {halves : Word64 × Word64}

theorem round_fits (roundKey : Word64) (leftFits : halves.1.toNat < 2 ^ permutation.halfBits)
    (rightFits : halves.2.toNat < 2 ^ permutation.halfBits) :
    (permutation.round halves roundKey).1.toNat < 2 ^ permutation.halfBits ∧
      (permutation.round halves roundKey).2.toNat < 2 ^ permutation.halfBits := by
  refine ⟨rightFits, ?_⟩
  rw [round, BitVec.toNat_xor]
  apply Nat.xor_lt_two_pow leftFits
  rw [toNat_and_mask sized]
  exact Nat.mod_lt _ (Nat.two_pow_pos _)

theorem rounds_fit (roundKeys : List Word64) (leftFits : halves.1.toNat < 2 ^ permutation.halfBits)
    (rightFits : halves.2.toNat < 2 ^ permutation.halfBits) :
    (roundKeys.foldl permutation.round halves).1.toNat < 2 ^ permutation.halfBits ∧
      (roundKeys.foldl permutation.round halves).2.toNat < 2 ^ permutation.halfBits := by
  induction roundKeys generalizing halves with
  | nil => exact ⟨leftFits, rightFits⟩
  | cons roundKey rest induction =>
      have next := round_fits sized roundKey leftFits rightFits
      exact induction next.1 next.2

end Network

theorem round_injective (permutation : RandomTaskPermutation) (roundKey : Word64) :
    Function.Injective fun halves => permutation.round halves roundKey := by
  intro first second equal
  simp only [round, Prod.mk.injEq] at equal
  rcases equal with ⟨right, left⟩
  rw [right] at left
  exact Prod.ext ((BitVec.xor_left_inj _).mp left) right

theorem rounds_injective (permutation : RandomTaskPermutation) (roundKeys : List Word64) :
    Function.Injective fun halves => roundKeys.foldl permutation.round halves := by
  induction roundKeys with
  | nil => exact fun _ _ equal => equal
  | cons roundKey rest induction =>
      exact induction.comp (round_injective permutation roundKey)

def enclosing (permutation : RandomTaskPermutation) : Nat := 2 ^ (2 * permutation.halfBits)

def enclosed (permutation : RandomTaskPermutation) : Finset Word64 :=
  (Finset.range permutation.enclosing).image (ofNat 64)

theorem card_enclosed (permutation : RandomTaskPermutation) :
    permutation.enclosed.card ≤ permutation.enclosing :=
  Finset.card_image_le.trans (Finset.card_range _).le

variable {value : Word64}

theorem mem_enclosed {permutation : RandomTaskPermutation} :
    value ∈ permutation.enclosed ↔ value.toNat < permutation.enclosing := by
  rw [enclosed, Finset.mem_image]
  constructor
  · rintro ⟨number, inside, rfl⟩
    rw [toNat_ofNat]
    exact (Nat.mod_le _ _).trans_lt (Finset.mem_range.mp inside)
  · intro inside
    exact ⟨value.toNat, Finset.mem_range.mpr inside, BitVec.ofNat_toNat _ _ |>.trans (BitVec.setWidth_eq _)⟩

section Values

variable {permutation : RandomTaskPermutation} (sized : permutation.Sized)

include sized

theorem split_fits (inside : value ∈ permutation.enclosed) :
    (permutation.split value).1.toNat < 2 ^ permutation.halfBits ∧
      (permutation.split value).2.toNat < 2 ^ permutation.halfBits := by
  constructor
  · rw [mem_enclosed, enclosing, Nat.two_mul, Nat.pow_add] at inside
    rw [split, BitVec.toNat_ushiftRight, Nat.shiftRight_eq_div_pow]
    exact Nat.div_lt_of_lt_mul inside
  · rw [split, toNat_and_mask sized]
    exact Nat.mod_lt _ (Nat.two_pow_pos _)

theorem permute_mem (inside : value ∈ permutation.enclosed) :
    permutation.permute value ∈ permutation.enclosed := by
  have halves := split_fits sized inside
  have mixed := rounds_fit sized permutation.roundKeys halves.1 halves.2
  rw [mem_enclosed, permute, toNat_join sized mixed.1 mixed.2, enclosing, Nat.two_mul, Nat.pow_add]
  nlinarith [mixed.1, mixed.2]

theorem permute_injOn : Set.InjOn permutation.permute permutation.enclosed := by
  intro first firstInside second secondInside equal
  have firstHalves := split_fits sized firstInside
  have secondHalves := split_fits sized secondInside
  have firstMixed := rounds_fit sized permutation.roundKeys firstHalves.1 firstHalves.2
  have secondMixed := rounds_fit sized permutation.roundKeys secondHalves.1 secondHalves.2
  have same := join_injective sized firstMixed.1 firstMixed.2 secondMixed.1 secondMixed.2 equal
  have halves := rounds_injective permutation permutation.roundKeys (Prod.ext same.1 same.2)
  have high := congrArg (BitVec.toNat ∘ Prod.fst) halves
  have low := congrArg (BitVec.toNat ∘ Prod.snd) halves
  simp only [Function.comp_apply, split, BitVec.toNat_ushiftRight, Nat.shiftRight_eq_div_pow,
    toNat_and_mask sized] at high low
  apply eq_of_toNat_eq
  rw [← Nat.div_add_mod first.toNat (2 ^ permutation.halfBits), high, low, Nat.div_add_mod]

variable {ordinal : Word64}

theorem mem_enclosed_of_lt (less : ordinal < permutation.len) :
    ordinal ∈ permutation.enclosed :=
  mem_enclosed.mpr ((lt_def.mp less).trans_le sized.covers)

theorem exists_permuted (less : ordinal < permutation.len) :
    ∃ selected, selected < permutation.len ∧
      ∀ extra, permutation.permuted (permutation.enclosing + extra) ordinal = some selected := by
  by_cases small : permutation.len ≤ 1
  · refine ⟨0, ?_, fun extra => if_pos small⟩
    rw [lt_def] at less ⊢
    exact Nat.zero_lt_of_lt less
  · rcases @cycleWalk_returns _ _ (fun value => value < permutation.len) _ _ (fun _ => permute_mem sized)
      (permute_injOn sized) _ (mem_enclosed_of_lt sized less) less with
      ⟨selected, _, walks⟩
    refine ⟨selected,
      @inside_of_cycleWalk _ _ (fun value => value < permutation.len) _ _ _ _ walks,
      fun extra => ?_⟩
    rw [permuted, if_neg small]
    exact cycleWalk_mono ((card_enclosed _).trans (Nat.le_add_right _ _)) walks

theorem permuted_injective {first second selected : Word64} {firstFuel secondFuel : Nat}
    (firstLess : first < permutation.len) (secondLess : second < permutation.len)
    (firstSelects : permutation.permuted firstFuel first = some selected)
    (secondSelects : permutation.permuted secondFuel second = some selected) :
    first = second := by
  by_cases small : permutation.len ≤ 1
  · rw [lt_def] at firstLess secondLess
    rw [le_def] at small
    apply eq_of_toNat_eq
    have one : (1 : Word64).toNat = 1 := rfl
    omega
  · rw [permuted, if_neg small] at firstSelects secondSelects
    exact cycleWalk_injective (fun _ => permute_mem sized) (permute_injOn sized)
      (mem_enclosed_of_lt sized firstLess) (mem_enclosed_of_lt sized secondLess) firstLess
      secondLess firstSelects secondSelects

end Values

theorem drain_eq {fuel : Nat} {select : Word64 → Word64} (left : Nat)
    {permutation : RandomTaskPermutation}
    (selects : ∀ ordinal < permutation.len,
      permutation.permuted fuel ordinal = some (select ordinal))
    (remaining : permutation.remaining.toNat = left)
    (ordinal : permutation.ordinal.toNat + left = permutation.len.toNat) :
    drain fuel (left + 1) permutation =
      some ((List.range' permutation.ordinal.toNat left).map
        fun ordinal => select (ofNat 64 ordinal)) := by
  induction left generalizing permutation with
  | zero =>
      have none : permutation.remaining = 0 := eq_of_toNat_eq remaining
      simp [drain, next, none]
  | succ left induction =>
      have present : permutation.remaining ≠ 0 := by
        intro none
        rw [none] at remaining
        cases remaining
      have within : permutation.ordinal < permutation.len := by
        rw [lt_def]
        omega
      have inWord := permutation.len.isLt
      have less : (permutation.remaining - 1).toNat = left := by
        rw [toNat_sub_of_le (by rw [le_def, remaining]; simp), remaining]
        rfl
      have more : (permutation.ordinal + 1).toNat = permutation.ordinal.toNat + 1 := by
        rw [BitVec.toNat_add, Nat.mod_eq_of_lt]
        · rfl
        · change permutation.ordinal.toNat + 1 < 2 ^ 64
          omega
      have rest := @induction { permutation with
        remaining := permutation.remaining - 1
        ordinal := permutation.ordinal + 1 } selects less (by simp only [more]; omega)
      have first : permutation.next fuel = some (some (select permutation.ordinal),
          { permutation with
            remaining := permutation.remaining - 1
            ordinal := permutation.ordinal + 1 }) := by
        rw [next, if_neg present, selects _ within, Option.map_some]
      rw [drain, first]
      simp only [Option.bind_eq_bind, Option.bind_some, rest, Option.map_eq_map, Option.map_some]
      rw [more, range'_succ, map_cons, BitVec.ofNat_toNat, BitVec.setWidth_eq]

/-- The loop of `permuted` ends for every task, and `next` yields every task exactly once
before it yields nothing. -/
theorem drain_perm (len : Word64) (randomness : FastSamplingRandomness)
    (domain : List (BitVec 8)) (salt : Word64) :
    (∀ ordinal < len, ∃ selected, selected < len ∧
        ∀ extra, (new len randomness domain salt).permuted
          ((new len randomness domain salt).enclosing + extra) ordinal = some selected) ∧
      ∃ values : List Word64, (values.map BitVec.toNat).Perm (List.range len.toNat) ∧
        ∀ extra, drain ((new len randomness domain salt).enclosing + extra) (len.toNat + 1)
          (new len randomness domain salt) = some values := by
  have sized := sized_new len randomness domain salt
  have ends : ∀ ordinal < len, ∃ selected, selected < len ∧
      ∀ extra, (new len randomness domain salt).permuted
        ((new len randomness domain salt).enclosing + extra) ordinal = some selected :=
    fun ordinal less => exists_permuted sized less
  refine ⟨ends, ?_⟩
  choose! select below selects using ends
  have isOrdinal : ∀ number ∈ List.range len.toNat,
      (ofNat 64 number).toNat = number ∧ ofNat 64 number < len := by
    intro number inRange
    have less := mem_range.mp inRange
    have same : (ofNat 64 number).toNat = number := by
      rw [toNat_ofNat, Nat.mod_eq_of_lt (less.trans len.isLt)]
    refine ⟨same, ?_⟩
    rw [lt_def, same]
    exact less
  refine ⟨(List.range len.toNat).map fun ordinal => select (ofNat 64 ordinal), ?_, ?_⟩
  · have nodup : (((List.range len.toNat).map
        fun ordinal => select (ofNat 64 ordinal)).map BitVec.toNat).Nodup := by
      rw [map_map]
      apply List.Nodup.map_on _ nodup_range
      intro first firstIn second secondIn equal
      have firstOrdinal := isOrdinal first firstIn
      have secondOrdinal := isOrdinal second secondIn
      have same := permuted_injective sized firstOrdinal.2 secondOrdinal.2
        (selects _ firstOrdinal.2 0)
        ((selects _ secondOrdinal.2 0).trans (congrArg some (eq_of_toNat_eq equal.symm)))
      rw [← firstOrdinal.1, ← secondOrdinal.1, same]
    have inside : (((List.range len.toNat).map
        fun ordinal => select (ofNat 64 ordinal)).map BitVec.toNat) ⊆
          List.range len.toNat := by
      intro value member
      simp only [map_map, mem_map, Function.comp_apply] at member
      rcases member with ⟨ordinal, inRange, rfl⟩
      exact mem_range.mpr (below _ (isOrdinal ordinal inRange).2)
    exact (subperm_of_subset nodup inside).perm_of_length_le (by simp)
  · intro extra
    have drained := @drain_eq _ _ len.toNat (new len randomness domain salt)
      (fun ordinal less => selects ordinal less extra) rfl (Nat.zero_add _)
    rw [drained, range_eq_range']
    rfl

end RandomTaskPermutation

end NftData.Dedup
