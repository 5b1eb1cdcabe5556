import NftData.Foundation.Runs

namespace NftData

/-! # Runs in chunks

A list is divided into chunks of positions. Every chunk handles the runs that start in
it, reading beyond its end where a run goes on. -/

open List

section RunChunks

variable {α Key : Type*} (key : α → Key) (values : List α)

def Continues (position : Nat) : Prop :=
  ∃ before ∈ values[position - 1]?, ∃ here ∈ values[position]?,
    0 < position ∧ key before = key here

variable {key values} {position : Nat}

theorem continues_iff (inside : position + 1 < values.length) :
    Continues key values (position + 1) ↔
      key values[position] = key values[position + 1] := by
  simp [Continues, List.getElem?_eq_getElem inside,
    List.getElem?_eq_getElem (Nat.lt_of_succ_lt inside)]

theorem not_continues_zero : ¬ Continues key values 0 := by
  rintro ⟨_, _, _, _, impossible, _⟩
  exact Nat.lt_irrefl 0 impossible

theorem not_continues_length : ¬ Continues key values values.length := by
  rintro ⟨_, _, here, found, _⟩
  simp at found

variable [DecidableEq Key] (key values)

instance (position : Nat) : Decidable (Continues key values position) :=
  match beforeAt : values[position - 1]?, hereAt : values[position]? with
  | some before, some here =>
      decidable_of_iff (0 < position ∧ key before = key here) (by
        simp [Continues, beforeAt, hereAt])
  | none, _ => .isFalse (by simp [Continues, beforeAt])
  | some _, none => .isFalse (by simp [Continues, hereAt])

/-- Where the stretch of equal keys that covers the position ends. -/
def runEnd (position : Nat) : Nat :=
  match values.drop position with
  | [] => position
  | head :: tail => position + 1 + (tail.takeWhile fun other => key other = key head).length

/-- The first position from the given one on where no run goes on. -/
def firstStart (position : Nat) : Nat :=
  if Continues key values position then runEnd key values position else position

variable {key values} {other : Nat}

section

variable (inside : position < values.length)
include inside

theorem runEnd_eq :
    runEnd key values position = position + 1 +
      ((values.drop (position + 1)).takeWhile
        fun other => key other = key values[position]).length := by
  rw [runEnd, drop_eq_getElem_cons inside]

theorem lt_runEnd :
    position < runEnd key values position := by
  rw [runEnd_eq inside]
  omega

theorem runEnd_le :
    runEnd key values position ≤ values.length := by
  have atMost := (List.takeWhile_prefix (l := values.drop (position + 1))
    fun other => decide (key other = key values[position])).length_le
  rw [length_drop] at atMost
  rw [runEnd_eq inside]
  omega

theorem key_eq_of_lt_runEnd (fits : other < values.length) (atLeast : position ≤ other)
    (before : other < runEnd key values position) :
    key values[other] = key values[position] := by
  rcases Nat.eq_or_lt_of_le atLeast with same | later
  · simp only [same]
  · rw [runEnd_eq inside] at before
    have isPrefix := takeWhile_prefix (l := values.drop (position + 1))
      fun other => decide (key other = key values[position])
    have short : other - (position + 1) < ((values.drop (position + 1)).takeWhile
        fun other => key other = key values[position]).length := by omega
    have equal := isPrefix.getElem short
    have satisfies := mem_takeWhile_imp (getElem_mem short)
    rw [equal, getElem_drop] at satisfies
    have back : position + 1 + (other - (position + 1)) = other := by omega
    simpa only [back, decide_eq_true_eq] using satisfies

end

theorem not_of_getElem?_takeWhile {condition : α → Bool} {entries : List α} {entry : α}
    (found : entries[(entries.takeWhile condition).length]? = some entry) :
    condition entry = false := by
  induction entries with
  | nil => cases found
  | cons head tail induction =>
      cases holds : condition head with
      | true =>
          rw [takeWhile_cons_of_pos holds, length_cons,
            List.getElem?_cons_succ] at found
          exact induction found
      | false =>
          rw [takeWhile_cons_of_neg (by simp [holds])] at found
          exact Option.some.inj found ▸ holds

theorem key_runEnd_ne (inside : position < values.length)
    (fits : runEnd key values position < values.length) :
    key values[runEnd key values position] ≠ key values[position] := by
  have found := List.getElem?_eq_getElem fits
  have atEnd : runEnd key values position = position + 1 +
      ((values.drop (position + 1)).takeWhile
        fun other => key other = key values[position]).length := runEnd_eq inside
  have beyond : (values.drop (position + 1))[runEnd key values position - (position + 1)]? =
      some values[runEnd key values position] := by
    rw [List.getElem?_drop, ← found]
    congr 1
    omega
  have outside : runEnd key values position - (position + 1) =
      ((values.drop (position + 1)).takeWhile
        fun other => key other = key values[position]).length := by
    omega
  rw [outside] at beyond
  have rejected := not_of_getElem?_takeWhile beyond
  simpa only [decide_eq_false_iff_not] using rejected

theorem continues_of_lt_runEnd (inside : position < values.length) (later : position < other)
    (before : other < runEnd key values position) :
    Continues key values other := by
  have fits : other < values.length := before.trans_le (runEnd_le inside)
  cases other with
  | zero => omega
  | succ previous =>
      have here := key_eq_of_lt_runEnd inside fits (by omega) before
      have earlier : key values[previous] = key values[position] :=
        key_eq_of_lt_runEnd inside (Nat.lt_of_succ_lt fits) (by omega) (by omega)
      rw [continues_iff fits, earlier, here]

/-- At its end no run goes on. -/
theorem not_continues_runEnd (inside : position < values.length) :
    ¬ Continues key values (runEnd key values position) := by
  have atMost : runEnd key values position ≤ values.length := runEnd_le inside
  rcases Nat.eq_or_lt_of_le atMost with atEnd | fits
  · rw [atEnd]
    exact not_continues_length
  · have later : position < runEnd key values position := lt_runEnd inside
    have last : runEnd key values position - 1 + 1 = runEnd key values position := by omega
    intro continues
    rw [← last] at continues
    rw [continues_iff (by omega)] at continues
    have equal : key values[runEnd key values position - 1] = key values[position] :=
      key_eq_of_lt_runEnd inside (by omega) (by omega) (by omega)
    apply key_runEnd_ne inside fits
    rw [← equal, continues]
    simp only [last]

theorem firstStart_eq {start : Nat} (le : position ≤ start) (fits : start ≤ values.length)
    (isStart : ¬ Continues key values start)
    (between : ∀ other, position ≤ other → other < start → Continues key values other) :
    firstStart key values position = start := by
  rcases Nat.eq_or_lt_of_le le with same | later
  · rw [firstStart, if_neg (same ▸ isStart), same]
  · have inside : position < values.length := later.trans_le fits
    rw [firstStart, if_pos (between position le_rfl later)]
    rcases Nat.lt_trichotomy (runEnd key values position) start with less | same | greater
    · exact absurd (between _ (lt_runEnd inside).le less) (not_continues_runEnd inside)
    · exact same
    · exact absurd (continues_of_lt_runEnd inside later greater) isStart

variable (key values)

def runsFrom (position stop : Nat) : List (List α) :=
  if _inside : position < stop ∧ position < values.length then
    (values.take (runEnd key values position)).drop position ::
      runsFrom (runEnd key values position) stop
  else []
termination_by values.length - position
decreasing_by
  have later : position < runEnd key values position := lt_runEnd _inside.2
  omega

variable {key values}

theorem runsFrom_append {middle stop : Nat} (le : middle ≤ stop) (fits : middle ≤ values.length)
    (isStart : ¬ Continues key values position) (inside : position ≤ values.length)
    (between : ∀ other, middle ≤ other → other < position → Continues key values other) :
    runsFrom key values position middle ++
        runsFrom key values (firstStart key values middle) stop =
      runsFrom key values position stop := by
  induction remaining : values.length - position using Nat.strong_induction_on
    generalizing position with
  | _ remaining induction =>
      by_cases passed : middle ≤ position
      · rw [firstStart_eq passed inside isStart between]
        have none : runsFrom key values position middle = [] := by
          rw [runsFrom, dif_neg (by omega)]
        rw [none, nil_append]
      · have within : position < values.length := by omega
        have later : position < runEnd key values position := lt_runEnd within
        have rest := induction (values.length - runEnd key values position) (by omega)
          (not_continues_runEnd within) (runEnd_le within)
          (fun other atLeast before =>
            continues_of_lt_runEnd within (by omega) before) rfl
        have whole : runsFrom key values position stop = _ :=
          runsFrom.eq_def key values position stop
        rw [dif_pos (by omega)] at whole
        rw [whole, ← rest, runsFrom, dif_pos (by omega), cons_append]

theorem runs_cons (head : α) (tail : List α) :
    runs key (head :: tail) =
      (key head, head :: tail.takeWhile fun other => key other = key head) ::
        runs key (tail.dropWhile fun other => key other = key head) := by
  induction tail generalizing head with
  | nil => simp [runs]
  | cons next rest induction =>
      rw [runs, induction next]
      by_cases same : key head = key next
      · simp [same]
      · have different : ¬ key next = key head := fun equal => same equal.symm
        simp [same, different, ← induction next]

theorem drop_runEnd (inside : position < values.length) :
    values.drop (runEnd key values position) =
      (values.drop (position + 1)).dropWhile fun other => key other = key values[position] := by
  have split := takeWhile_append_dropWhile (l := values.drop (position + 1))
    (p := fun other => decide (key other = key values[position]))
  rw [runEnd_eq inside, ← drop_drop]
  nth_rewrite 2 [← split]
  exact drop_left

theorem slice_runEnd (inside : position < values.length) :
    (values.take (runEnd key values position)).drop position =
      values[position] :: (values.drop (position + 1)).takeWhile
        fun other => key other = key values[position] := by
  have split := takeWhile_append_dropWhile (l := values.drop (position + 1))
    (p := fun other => decide (key other = key values[position]))
  have count : runEnd key values position - position =
      ((values.drop (position + 1)).takeWhile
        fun other => key other = key values[position]).length + 1 := by
    rw [runEnd_eq inside]
    omega
  rw [drop_take, count, drop_eq_getElem_cons inside, take_succ_cons]
  congr 1
  nth_rewrite 2 [← split]
  exact take_left

/-- Without a stop all runs are found. -/
theorem runsFrom_length (position : Nat) :
    runsFrom key values position values.length =
      (runs key (values.drop position)).map Prod.snd := by
  induction remaining : values.length - position using Nat.strong_induction_on
    generalizing position with
  | _ remaining induction =>
      by_cases inside : position < values.length
      · have later : position < runEnd key values position := lt_runEnd inside
        have rest := induction _ (by omega) (runEnd key values position) rfl
        rw [runsFrom, dif_pos ⟨inside, inside⟩, rest, slice_runEnd inside, drop_runEnd inside,
          drop_eq_getElem_cons inside, runs_cons, map_cons]
      · rw [runsFrom, dif_neg (by omega), drop_eq_nil_of_le (by omega)]
        rfl

variable (key values)

/-- The runs that chunk `task` of `size` entries handles. -/
def chunkRuns (size task : Nat) : List (List α) :=
  runsFrom key values (firstStart key values (task * size))
    (min (task * size + size) values.length)

variable {key values} {count size : Nat}

theorem flatMap_chunkRuns (fits : (count - 1) * size ≤ values.length) :
    (List.range count).flatMap (chunkRuns key values size) =
      runsFrom key values 0 (min (count * size) values.length) := by
  induction count with
  | zero =>
      rw [runsFrom, dif_neg (by omega)]
      rfl
  | succ task induction =>
      have reached : task * size ≤ values.length := fits
      have before : (task - 1) * size ≤ values.length :=
        (Nat.mul_le_mul_right size (Nat.sub_le task 1)).trans reached
      have next : (task + 1) * size = task * size + size := Nat.succ_mul task size
      rw [range_succ, flatMap_append, induction before, flatMap_singleton,
        chunkRuns, Nat.min_eq_left reached, next]
      exact runsFrom_append (by omega) reached not_continues_zero (Nat.zero_le _)
        (fun _ _ impossible => absurd impossible (Nat.not_lt_zero _))

theorem flatMap_chunkRuns_eq_runs (fits : (count - 1) * size ≤ values.length)
    (covers : values.length ≤ count * size) :
    (List.range count).flatMap (chunkRuns key values size) =
      (runs key values).map Prod.snd := by
  rw [flatMap_chunkRuns fits, Nat.min_eq_right covers, runsFrom_length, drop_zero]

end RunChunks

end NftData
