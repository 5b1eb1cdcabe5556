import Mathlib

namespace NftData

/-! # Runs

A list sorted by a key falls into runs, one for each key. A compressed table stores the
runs one after the other together with their offsets. -/

open List

section Runs

variable {α Key : Type*} [DecidableEq Key] (key : α → Key)

def runs : List α → List (Key × List α)
  | [] => []
  | entry :: rest =>
      match runs rest with
      | [] => [(key entry, [entry])]
      | (known, run) :: more =>
          if key entry = known then (known, entry :: run) :: more
          else (key entry, [entry]) :: (known, run) :: more

theorem runs_flatMap (entries : List α) : (runs key entries).flatMap Prod.snd = entries := by
  induction entries with
  | nil => rfl
  | cons entry rest induction =>
      rw [runs]
      cases restRuns : runs key rest with
      | nil =>
          rw [restRuns] at induction
          simp [← induction]
      | cons first more =>
          rw [restRuns] at induction
          simp only
          split
          · simpa using induction
          · simpa using induction

variable {key} {entries : List α} {run : Key × List α}

theorem key_of_mem_runs (member : run ∈ runs key entries) :
    run.2 ≠ [] ∧ ∀ entry ∈ run.2, key entry = run.1 := by
  induction entries generalizing run with
  | nil => cases member
  | cons entry rest induction =>
      rw [runs] at member
      cases restRuns : runs key rest with
      | nil =>
          rw [restRuns] at member
          rw [mem_singleton.mp member]
          simp
      | cons first more =>
          have known := induction (restRuns ▸ mem_cons_self)
          rw [restRuns] at member
          simp only at member
          split at member
          · next same =>
              rcases mem_cons.mp member with isFirst | inMore
              · rw [isFirst]
                refine ⟨cons_ne_nil _ _, ?_⟩
                intro other inRun
                rcases mem_cons.mp inRun with isEntry | inside
                · exact isEntry ▸ same
                · exact known.2 other inside
              · exact induction (restRuns ▸ mem_cons_of_mem _ inMore)
          · rcases mem_cons.mp member with isFirst | inRest
            · rw [isFirst]
              simp
            · exact induction (restRuns ▸ inRest)

theorem mem_keys_runs {value : Key} :
    value ∈ (runs key entries).map Prod.fst ↔ ∃ entry ∈ entries, key entry = value := by
  constructor
  · intro member
    rcases mem_map.mp member with ⟨run, inRuns, equal⟩
    have facts := key_of_mem_runs inRuns
    rcases exists_mem_of_ne_nil _ facts.1 with ⟨entry, inRun⟩
    refine ⟨entry, ?_, (facts.2 entry inRun).trans equal⟩
    rw [← runs_flatMap key entries]
    exact mem_flatMap.mpr ⟨run, inRuns, inRun⟩
  · intro known
    rcases known with ⟨entry, member, equal⟩
    rw [← runs_flatMap key entries] at member
    rcases mem_flatMap.mp member with ⟨run, inRuns, inRun⟩
    exact mem_map.mpr
      ⟨run, inRuns, ((key_of_mem_runs inRuns).2 entry inRun).symm.trans equal⟩

theorem keys_runs_sorted [LinearOrder Key]
    (sorted : entries.Pairwise fun left right => key left ≤ key right) :
    ((runs key entries).map Prod.fst).Pairwise (· < ·) := by
  induction entries with
  | nil => exact List.Pairwise.nil
  | cons entry rest induction =>
      rw [pairwise_cons] at sorted
      have restSorted := induction sorted.2
      have atLeast : ∀ value ∈ (runs key rest).map Prod.fst, key entry ≤ value := by
        intro value member
        rcases mem_keys_runs.mp member with ⟨other, inRest, equal⟩
        exact equal ▸ sorted.1 other inRest
      rw [runs]
      cases restRuns : runs key rest with
      | nil => simp
      | cons first more =>
          rw [restRuns] at restSorted atLeast
          simp only
          split
          · exact restSorted
          · next different =>
              rw [map_cons, pairwise_cons]
              refine ⟨?_, restSorted⟩
              intro value member
              have firstLess : key entry < first.1 :=
                lt_of_le_of_ne (atLeast first.1 mem_cons_self) different
              rcases mem_cons.mp member with isFirst | inMore
              · exact isFirst ▸ firstLess
              · exact firstLess.trans ((pairwise_cons.mp restSorted).1 value inMore)

/-- When no key has two runs, a run holds all entries of its key. -/
theorem run_eq_filter (nodup : ((runs key entries).map Prod.fst).Nodup)
    (member : run ∈ runs key entries) :
    run.2 = entries.filter fun entry => decide (key entry = run.1) := by
  have whole : ∀ parts : List (Key × List α), (parts.map Prod.fst).Nodup →
      (∀ part ∈ parts, ∀ entry ∈ part.2, key entry = part.1) → run ∈ parts →
      (parts.flatMap Prod.snd).filter (fun entry => decide (key entry = run.1)) = run.2 := by
    intro parts
    induction parts with
    | nil => exact fun _ _ inside => absurd inside not_mem_nil
    | cons part parts induction =>
        intro partsNodup keyed inside
        rw [map_cons, nodup_cons] at partsNodup
        rw [flatMap_cons, filter_append]
        rcases mem_cons.mp inside with isPart | inParts
        · subst isPart
          have own : run.2.filter (fun entry => decide (key entry = run.1)) = run.2 := by
            rw [filter_eq_self]
            intro entry inRun
            exact decide_eq_true (keyed run mem_cons_self entry inRun)
          have others : (parts.flatMap Prod.snd).filter
              (fun entry => decide (key entry = run.1)) = [] := by
            rw [filter_eq_nil_iff]
            intro entry inRest sameKey
            rcases mem_flatMap.mp inRest with ⟨part, inParts, inPart⟩
            apply partsNodup.1
            rw [← of_decide_eq_true sameKey,
              keyed part (mem_cons_of_mem _ inParts) entry inPart]
            exact mem_map.mpr ⟨part, inParts, rfl⟩
          rw [own, others, append_nil]
        · have head : part.2.filter (fun entry => decide (key entry = run.1)) = [] := by
            rw [filter_eq_nil_iff]
            intro entry inPart sameKey
            apply partsNodup.1
            rw [← keyed part mem_cons_self entry inPart, of_decide_eq_true sameKey]
            exact mem_map.mpr ⟨run, inParts, rfl⟩
          rw [head, nil_append]
          exact induction partsNodup.2
            (fun other inside => keyed other (mem_cons_of_mem _ inside)) inParts
  rw [← whole (runs key entries) nodup
    (fun part inside => (key_of_mem_runs inside).2) member, runs_flatMap]

/-- Grouping by distinct keys only moves entries. -/
theorem flatMap_filter_perm {keys : List Key} (nodup : keys.Nodup) {entries : List α}
    (covers : ∀ entry ∈ entries, key entry ∈ keys) :
    (keys.flatMap fun value => entries.filter fun entry => decide (key entry = value)).Perm
      entries := by
  induction keys generalizing entries with
  | nil =>
      have none : entries = [] :=
        eq_nil_iff_forall_not_mem.mpr fun entry member =>
          not_mem_nil (covers entry member)
      rw [none]
      exact List.Perm.refl _
  | cons first keys induction =>
      rw [nodup_cons] at nodup
      have covered : ∀ entry ∈ entries.filter fun entry => !decide (key entry = first),
          key entry ∈ keys := by
        intro entry member
        rcases mem_filter.mp member with ⟨inside, other⟩
        apply (mem_cons.mp (covers entry inside)).resolve_left
        simpa using other
      have rest := induction nodup.2 covered
      have same : (keys.flatMap fun value => (entries.filter fun entry =>
            !decide (key entry = first)).filter fun entry => decide (key entry = value)) =
          keys.flatMap fun value => entries.filter fun entry => decide (key entry = value) := by
        apply flatMap_congr
        intro value member
        rw [filter_filter]
        apply filter_congr
        intro entry _
        have different : value ≠ first := fun equal => nodup.1 (equal ▸ member)
        by_cases isValue : key entry = value
        · simp [isValue, different]
        · simp [isValue]
      rw [same] at rest
      rw [flatMap_cons]
      exact (rest.append_left _).trans (filter_append_perm _ _)

end Runs

/-- `values[offsets[index]..offsets[index + 1]]`, where the offsets are the partial sums
of the lengths of the parts. -/
theorem slice_partialSums {α : Type*} (parts : List (List α)) {index : Nat}
    (inside : index < parts.length) :
    (parts.map List.length).partialSums[index]? =
        some ((parts.map List.length).take index).sum ∧
      (parts.map List.length).partialSums[index + 1]? =
        some ((parts.map List.length).take (index + 1)).sum ∧
      (parts.flatten.take ((parts.map List.length).take (index + 1)).sum).drop
        ((parts.map List.length).take index).sum = parts[index] := by
  refine ⟨?_, ?_, drop_take_succ_flatten_eq_getElem parts index inside⟩
  · rw [List.getElem?_partialSums, if_pos (by rw [length_map]; omega)]
  · rw [List.getElem?_partialSums, if_pos (by rw [length_map]; omega)]

end NftData
