import NftData.Analysis.Reporting.DenseIdSet
import NftData.Foundation.Accumulation

namespace NftData.Dedup

/-! # Postings of candidates

The candidates of a left profile arrive as postings: sorted slices of profiles, or words
with one bit for each profile. Up to two postings are held back; the third one starts a
set of the candidates seen so far, whose words later profiles use again. -/

open List
open Analysis.DenseIdSet (and_twoPow_ne_zero idsOf mem_idsOf mem_idsOf_set)

inductive PostingView where
  | sparse (profiles : List Nat)
  | dense (words : List (BitVec 64)) (baseWord minimum : Nat)

def maskedDenseWord (word : BitVec 64) (wordIndex minimum : Nat) : BitVec 64 :=
  if wordIndex < minimum / 64 then 0
  else if minimum / 64 < wordIndex then word
  else word &&& (BitVec.allOnes 64 <<< (minimum % 64))

def wordProfiles (wordIndex : Nat) (word : BitVec 64) : List Nat :=
  ((List.range 64).filter word.getLsbD).map (wordIndex * 64 + ·)

def maskedWords (baseWord minimum : Nat) : List (BitVec 64) → List (Nat × BitVec 64)
  | [] => []
  | word :: words =>
      (baseWord, maskedDenseWord word baseWord minimum) ::
        maskedWords (baseWord + 1) minimum words

def wordsProfiles (words : List (Nat × BitVec 64)) : List Nat :=
  words.flatMap fun (index, word) => wordProfiles index word

namespace PostingView

def isEmpty : PostingView → Bool
  | sparse profiles => profiles.isEmpty
  | dense .. => false

def iter : PostingView → List Nat
  | sparse profiles => profiles
  | dense words baseWord minimum => wordsProfiles (maskedWords baseWord minimum words)

end PostingView

/-- A posting of profiles below the count. Slices are sorted, where neighbours may repeat. -/
structure Posting (profileCount : Nat) where
  view : PostingView
  sorted : ∀ profiles, view = .sparse profiles → profiles.Pairwise (· ≤ ·)
  below : ∀ right ∈ view.iter, right < profileCount

structure CandidateSeen where
  words : List (BitVec 64)
  touchedWords : List Nat

namespace CandidateSeen

def new (profileCount : Nat) : CandidateSeen := ⟨replicate ((profileCount + 63) / 64) 0, []⟩

def beginProfile (seen : CandidateSeen) : CandidateSeen :=
  ⟨seen.touchedWords.foldl (fun words word => words.set word 0) seen.words, []⟩

/-- Add bits to a word, which is touched when it was zero. -/
def mark (seen : CandidateSeen) (index : Nat) (bits : BitVec 64) : CandidateSeen :=
  let word := seen.words.getD index 0
  ⟨seen.words.set index (word ||| bits),
    if word = 0 then seen.touchedWords ++ [index] else seen.touchedWords⟩

def insert (seen : CandidateSeen) (profile : Nat) : CandidateSeen × Bool :=
  let bit := BitVec.twoPow 64 (profile % 64)
  if seen.words.getD (profile / 64) 0 &&& bit ≠ 0 then (seen, false)
  else (seen.mark (profile / 64) bit, true)

/-- Returns the candidates that were not seen before. -/
def insertWord (seen : CandidateSeen) (index : Nat) (candidates : BitVec 64) :
    CandidateSeen × BitVec 64 :=
  if candidates = 0 then (seen, 0)
  else (seen.mark index candidates, candidates &&& ~~~seen.words.getD index 0)

end CandidateSeen

section

variable (left : Nat)

def scoreUniqueIndexedCandidate (scored : List (Nat × Nat)) (right : Nat) : List (Nat × Nat) :=
  scored ++ [(left, right)]

def scoreSeenProfile (state : CandidateSeen × List (Nat × Nat)) (right : Nat) :
    CandidateSeen × List (Nat × Nat) :=
  let inserted := state.1.insert right
  (inserted.1, if inserted.2 then scoreUniqueIndexedCandidate left state.2 right else state.2)

def scoreSeenWord (state : CandidateSeen × List (Nat × Nat)) (word : Nat × BitVec 64) :
    CandidateSeen × List (Nat × Nat) :=
  let inserted := state.1.insertWord word.1 word.2
  (inserted.1, (wordProfiles word.1 inserted.2).foldl (scoreUniqueIndexedCandidate left) state.2)

def scoreSeenCandidatePosting (state : CandidateSeen × List (Nat × Nat)) :
    PostingView → CandidateSeen × List (Nat × Nat)
  | .sparse profiles => profiles.foldl (scoreSeenProfile left) state
  | .dense words baseWord minimum =>
      (maskedWords baseWord minimum words).foldl (scoreSeenWord left) state

/-- Score a candidate that is not the previous one. -/
def scoreUnlessPrevious (state : Option Nat × List (Nat × Nat)) (right : Nat) :
    Option Nat × List (Nat × Nat) :=
  if state.1 = some right then state
  else (some right, scoreUniqueIndexedCandidate left state.2 right)

def scoreSingleCandidatePosting (scored : List (Nat × Nat)) : PostingView → List (Nat × Nat)
  | .sparse profiles => (profiles.foldl (scoreUnlessPrevious left) (none, scored)).2
  | .dense words baseWord minimum =>
      (maskedWords baseWord minimum words).foldl
        (fun scored (index, word) =>
          (wordProfiles index word).foldl (scoreUniqueIndexedCandidate left) scored) scored

def mergedCandidates : List Nat → List Nat → List Nat
  | [], seconds => seconds
  | firsts, [] => firsts
  | first :: firsts, second :: seconds =>
      if first < second then first :: mergedCandidates firsts (second :: seconds)
      else if second < first then second :: mergedCandidates (first :: firsts) seconds
      else first :: mergedCandidates firsts seconds
termination_by firsts seconds => firsts.length + seconds.length

def scoreMergedCandidatePostings (first second : PostingView) (scored : List (Nat × Nat)) :
    List (Nat × Nat) :=
  ((mergedCandidates first.iter second.iter).foldl (scoreUnlessPrevious left) (none, scored)).2

end

/-- A worker keeps its set of candidates from one left profile to the next. -/
structure CandidateWorker where
  seen : Option CandidateSeen
  scored : List (Nat × Nat)

structure CandidatePostingConsumer where
  first : Option PostingView
  second : Option PostingView
  streaming : Bool
  worker : CandidateWorker

namespace CandidatePostingConsumer

variable (profileCount left : Nat)

def push (consumer : CandidatePostingConsumer) (posting : PostingView) :
    CandidatePostingConsumer :=
  let seen := consumer.worker.seen.getD (.new profileCount)
  if posting.isEmpty then consumer
  else if consumer.streaming then
    let (seen, scored) := scoreSeenCandidatePosting left (seen, consumer.worker.scored) posting
    { consumer with worker := ⟨some seen, scored⟩ }
  else
    match consumer.first, consumer.second with
    | none, _ => { consumer with first := some posting }
    | some _, none => { consumer with second := some posting }
    | some first, some second =>
        let (seen, scored) := [first, second, posting].foldl (scoreSeenCandidatePosting left)
          (seen.beginProfile, consumer.worker.scored)
        { consumer with streaming := true, worker := ⟨some seen, scored⟩ }

/-- A second posting is only held behind a first one. -/
def finish (consumer : CandidatePostingConsumer) : CandidateWorker :=
  let worker := consumer.worker
  if consumer.streaming then worker
  else
    match consumer.first, consumer.second with
    | none, _ => worker
    | some first, none =>
        { worker with scored := scoreSingleCandidatePosting left worker.scored first }
    | some first, some second =>
        { worker with scored := scoreMergedCandidatePostings left first second worker.scored }

end CandidatePostingConsumer

def scorePostings {profileCount : Nat} (worker : CandidateWorker)
    (work : Nat × List (Posting profileCount)) : CandidateWorker :=
  let consumer := work.2.foldl
    (fun consumer posting =>
      CandidatePostingConsumer.push profileCount work.1 consumer posting.view)
    ⟨none, none, false, worker⟩
  consumer.finish work.1

def scoreCandidates {profileCount : Nat} (work : List (Nat × List (Posting profileCount)))
    (worker : CandidateWorker) : CandidateWorker :=
  work.foldl scorePostings worker

variable {right index : Nat} {word : BitVec 64}

theorem mem_wordProfiles :
    right ∈ wordProfiles index word ↔ right / 64 = index ∧ word.getLsbD (right % 64) = true := by
  rw [wordProfiles, mem_map]
  constructor
  · rintro ⟨bit, member, rfl⟩
    rcases mem_filter.mp member with ⟨inWord, isSet⟩
    have small := mem_range.mp inWord
    have quotient : (index * 64 + bit) / 64 = index := by omega
    have remainder : (index * 64 + bit) % 64 = bit := by omega
    rw [remainder]
    exact ⟨quotient, isSet⟩
  · rintro ⟨rfl, isSet⟩
    exact ⟨right % 64, mem_filter.mpr ⟨mem_range.mpr (Nat.mod_lt _ (by decide)), isSet⟩,
      Nat.div_add_mod' right 64⟩

theorem sorted_wordProfiles (index : Nat) (word : BitVec 64) :
    (wordProfiles index word).Pairwise (· < ·) := by
  apply (pairwise_lt_range.filter _).map
  intro first second less
  exact Nat.add_lt_add_left less _

theorem sorted_wordsProfiles (words : List (BitVec 64)) (baseWord minimum : Nat) :
    (wordsProfiles (maskedWords baseWord minimum words)).Pairwise (· < ·) ∧
      ∀ right ∈ wordsProfiles (maskedWords baseWord minimum words), baseWord ≤ right / 64 := by
  induction words generalizing baseWord with
  | nil => exact ⟨.nil, fun _ member => by cases member⟩
  | cons word words induction =>
      have rest := induction (baseWord + 1)
      rw [maskedWords, wordsProfiles, flatMap_cons, pairwise_append]
      refine ⟨⟨sorted_wordProfiles _ _, rest.1, ?_⟩, ?_⟩
      · intro first inWord second inRest
        have here := (mem_wordProfiles.mp inWord).1
        have later := rest.2 second inRest
        omega
      · intro right member
        rcases mem_append.mp member with inWord | inRest
        · exact (mem_wordProfiles.mp inWord).1.ge
        · exact Nat.le_of_succ_le (rest.2 right inRest)

variable {profileCount : Nat}

theorem Posting.sorted_iter (posting : Posting profileCount) :
    posting.view.iter.Pairwise (· ≤ ·) := by
  cases isView : posting.view with
  | sparse profiles => exact posting.sorted profiles isView
  | dense words baseWord minimum => exact (sorted_wordsProfiles words baseWord minimum).1.imp le_of_lt

namespace CandidateSeen

/-- The set holds the candidates, and every word in use will be cleared. -/
structure Holds (profileCount : Nat) (candidates : List Nat) (seen : CandidateSeen) : Prop where
  length : seen.words.length = (profileCount + 63) / 64
  touched : ∀ index, seen.words.getD index 0 ≠ 0 → index ∈ seen.touchedWords
  ids : ∀ right, right ∈ idsOf seen.words ↔ right ∈ candidates

theorem holds_of_zero {seen : CandidateSeen} (length : seen.words.length = (profileCount + 63) / 64)
    (zero : ∀ index, seen.words.getD index 0 = 0) : seen.Holds profileCount [] := by
  refine ⟨length, fun index used => absurd (zero index) used, fun right => ?_⟩
  rw [mem_idsOf, zero]
  simp

theorem new_holds : (new profileCount).Holds profileCount [] := by
  apply holds_of_zero length_replicate
  intro index
  rw [new, getD_eq_getElem?_getD, getElem?_replicate]
  split <;> rfl

theorem getD_clear (touched : List Nat) (words : List (BitVec 64)) (index : Nat) :
    (touched.foldl (fun words word => words.set word 0) words).getD index 0 =
      if index ∈ touched then 0 else words.getD index 0 := by
  induction touched generalizing words with
  | nil => rfl
  | cons word rest induction =>
      rw [foldl_cons, induction]
      by_cases here : word = index
      · subst here
        rw [if_pos mem_cons_self, getD_eq_getElem?_getD, getElem?_set_self']
        cases words[word]? <;> simp
      · simp [here, Ne.symm here, getD_eq_getElem?_getD, getElem?_set_ne]

section

variable {candidates new : List Nat} {seen : CandidateSeen}
  (holds : seen.Holds profileCount candidates)
include holds

theorem Holds.beginProfile : seen.beginProfile.Holds profileCount [] := by
  apply holds_of_zero
  · rw [← holds.length]
    exact @foldl_unchanged _ _ _ _ List.length (fun _ _ => length_set) _ _
  · intro index
    rw [CandidateSeen.beginProfile, getD_clear]
    split
    · rfl
    · by_contra used
      exact ‹index ∉ seen.touchedWords› (holds.touched index used)

theorem Holds.mark {bits : BitVec 64} (inside : index < seen.words.length)
    (isNew : ∀ right, right ∈ new ↔ right / 64 = index ∧ bits.getLsbD (right % 64) = true) :
    (seen.mark index bits).Holds profileCount (candidates ++ new) := by
  refine ⟨length_set.trans holds.length, ?_, ?_⟩
  · intro other used
    have before : other ≠ index → other ∈ seen.touchedWords := by
      intro different
      rw [CandidateSeen.mark, getD_eq_getElem?_getD, getElem?_set_ne different.symm,
        ← getD_eq_getElem?_getD] at used
      exact holds.touched other used
    rw [CandidateSeen.mark]
    split
    · rw [mem_append, mem_singleton]
      exact (em (other = index)).symm.imp_left before
    · rename_i nonzero
      by_cases here : other = index
      · exact here ▸ holds.touched index nonzero
      · exact before here
  · intro right
    rw [CandidateSeen.mark, mem_idsOf_set inside, holds.ids, mem_append, isNew]

theorem Holds.inside (below : right < profileCount) :
    right / 64 < seen.words.length := by
  rw [holds.length]
  omega

theorem Holds.insert (below : right < profileCount) :
    (seen.insert right).1.Holds profileCount (candidates ++ [right]) ∧
      ((seen.insert right).2 = true ↔ right ∉ candidates) := by
  have isSeen := and_twoPow_ne_zero (seen.words.getD (right / 64) 0)
    (Nat.mod_lt right (show 64 > 0 by decide))
  rw [← mem_idsOf, holds.ids] at isSeen
  by_cases known : right ∈ candidates
  · rw [CandidateSeen.insert, if_pos (isSeen.mpr known)]
    refine ⟨⟨holds.length, holds.touched, fun other => ?_⟩, by simp [known]⟩
    rw [holds.ids, mem_append, mem_singleton]
    exact ⟨.inl, fun either => either.elim id fun same => same ▸ known⟩
  · rw [CandidateSeen.insert, if_neg (mt isSeen.mp known)]
    refine ⟨holds.mark (holds.inside below) fun other => ?_, by simp [known]⟩
    rw [mem_singleton, BitVec.getLsbD_twoPow, Bool.and_eq_true, decide_eq_true_eq,
      decide_eq_true_eq]
    omega

theorem Holds.insertWord (below : ∀ right ∈ wordProfiles index word, right < profileCount) :
    (seen.insertWord index word).1.Holds profileCount (candidates ++ wordProfiles index word) ∧
      ∀ right, right ∈ wordProfiles index (seen.insertWord index word).2 ↔
        right ∈ wordProfiles index word ∧ right ∉ candidates := by
  rw [CandidateSeen.insertWord]
  split
  · rename_i zero
    have empty : wordProfiles index word = [] := by simp [zero, wordProfiles]
    rw [empty, append_nil]
    exact ⟨holds, by simp [← zero, empty]⟩
  · rename_i nonzero
    have used : ∃ bit, word.getLsbD bit = true := by
      by_contra none
      exact nonzero (BitVec.eq_of_getLsbD_eq fun bit _ => by simpa using not_exists.mp none bit)
    rcases used with ⟨bit, isSet⟩
    have small := BitVec.lt_of_getLsbD isSet
    have place : (index * 64 + bit) / 64 = index ∧ (index * 64 + bit) % 64 = bit := by omega
    have member : index * 64 + bit ∈ wordProfiles index word :=
      mem_wordProfiles.mpr ⟨place.1, place.2.symm ▸ isSet⟩
    have inside : index < seen.words.length := place.1 ▸ holds.inside (below _ member)
    refine ⟨holds.mark inside fun right => mem_wordProfiles, fun right => ?_⟩
    have within := Nat.mod_lt right (show 64 > 0 by decide)
    rw [mem_wordProfiles, mem_wordProfiles, ← holds.ids, mem_idsOf, and_assoc]
    refine and_congr_right fun here => ?_
    subst here
    simp [within]

end

end CandidateSeen

/-! ## Work on one left profile -/

/-- The candidates of a stretch of work were scored, each once. -/
def Scored (left : Nat) (before : List (Nat × Nat)) (candidates : List Nat)
    (scored : List (Nat × Nat)) : Prop :=
  ∃ rights : List Nat, rights.Nodup ∧ (∀ right, right ∈ rights ↔ right ∈ candidates) ∧
    scored = before ++ rights.map (left, ·)

theorem foldl_scoreUniqueIndexedCandidate (left : Nat) (rights : List Nat)
    (scored : List (Nat × Nat)) :
    rights.foldl (scoreUniqueIndexedCandidate left) scored = scored ++ rights.map (left, ·) := by
  induction rights generalizing scored with
  | nil => exact (append_nil _).symm
  | cons right rest induction =>
      rw [foldl_cons, induction, map_cons, append_cons]
      rfl

section

variable {left : Nat} {before scored : List (Nat × Nat)} {candidates : List Nat}

theorem Scored.extend {new fresh : List Nat} (isScored : Scored left before candidates scored)
    (nodup : fresh.Nodup)
    (isFresh : ∀ right, right ∈ fresh ↔ right ∈ new ∧ right ∉ candidates) :
    Scored left before (candidates ++ new)
      (fresh.foldl (scoreUniqueIndexedCandidate left) scored) := by
  rcases isScored with ⟨rights, distinct, members, rfl⟩
  refine ⟨rights ++ fresh, ?_, ?_, ?_⟩
  · apply distinct.append nodup
    intro right inRights inFresh
    exact ((isFresh right).mp inFresh).2 ((members right).mp inRights)
  · intro right
    rw [mem_append, mem_append, members, isFresh]
    tauto
  · rw [foldl_scoreUniqueIndexedCandidate, map_append, append_assoc]

def Streamed (profileCount left : Nat) (before : List (Nat × Nat)) (candidates : List Nat)
    (state : CandidateSeen × List (Nat × Nat)) : Prop :=
  state.1.Holds profileCount candidates ∧ Scored left before candidates state.2

variable {state : CandidateSeen × List (Nat × Nat)}

theorem Streamed.profile (streamed : Streamed profileCount left before candidates state)
    (below : right < profileCount) :
    Streamed profileCount left before (candidates ++ [right])
      (scoreSeenProfile left state right) := by
  have inserted := streamed.1.insert below
  refine ⟨inserted.1, ?_⟩
  change Scored left before _ (if (state.1.insert right).2 then _ else _)
  split
  · apply streamed.2.extend (nodup_singleton right)
    intro other
    rw [mem_singleton]
    exact (and_iff_left_of_imp fun same => same ▸ inserted.2.mp ‹_›).symm
  · apply streamed.2.extend nodup_nil
    intro other
    rw [mem_singleton]
    refine ⟨fun member => (not_mem_nil member).elim, fun both => ?_⟩
    exact absurd (inserted.2.mpr (both.1 ▸ both.2)) ‹_›

theorem Streamed.posting {posting : PostingView}
    (streamed : Streamed profileCount left before candidates state)
    (below : ∀ right ∈ posting.iter, right < profileCount) :
    Streamed profileCount left before (candidates ++ posting.iter)
      (scoreSeenCandidatePosting left state posting) := by
  cases posting with
  | sparse profiles =>
      rw [PostingView.iter] at below ⊢
      rw [scoreSeenCandidatePosting]
      induction profiles generalizing candidates state with
      | nil => exact (append_nil candidates).symm ▸ streamed
      | cons right rest induction =>
          rw [append_cons]
          have first := streamed.profile (below right mem_cons_self)
          exact induction first fun other member => below other (mem_cons_of_mem _ member)
  | dense words baseWord minimum =>
      rw [PostingView.iter] at below ⊢
      rw [scoreSeenCandidatePosting]
      generalize maskedWords baseWord minimum words = masked at below ⊢
      induction masked generalizing candidates state with
      | nil => exact (append_nil candidates).symm ▸ streamed
      | cons word rest induction =>
          rw [wordsProfiles, flatMap_cons, forall_mem_append] at below
          rw [wordsProfiles, flatMap_cons, ← append_assoc]
          have inserted := streamed.1.insertWord below.1
          have sorted := sorted_wordProfiles word.1 (state.1.insertWord word.1 word.2).2
          exact induction ⟨inserted.1, streamed.2.extend (sorted.imp ne_of_lt) inserted.2⟩ below.2

/-- The candidates passed so far in increasing order were scored, the last one last. -/
def Ascends (left : Nat) (before : List (Nat × Nat)) (candidates : List Nat)
    (state : Option Nat × List (Nat × Nat)) : Prop :=
  Scored left before candidates state.2 ∧ (∀ last, state.1 = some last → last ∈ candidates) ∧
    ∀ right ∈ candidates, ∃ last, state.1 = some last ∧ right ≤ last

theorem Ascends.step {state : Option Nat × List (Nat × Nat)}
    (ascends : Ascends left before candidates state)
    (greatest : ∀ other ∈ candidates, other ≤ right) :
    Ascends left before (candidates ++ [right]) (scoreUnlessPrevious left state right) := by
  rcases ascends with ⟨isScored, isPassed, atMost⟩
  rw [scoreUnlessPrevious]
  split
  · rename_i previous
    have known := isPassed right previous
    have same : ∀ other, other ∈ candidates ++ [right] ↔ other ∈ candidates := by
      intro other
      rw [mem_append, mem_singleton]
      exact or_iff_left_of_imp fun isRight => isRight ▸ known
    simpa only [Ascends, Scored, same] using And.intro isScored ⟨isPassed, atMost⟩
  · rename_i notPrevious
    have unknown : right ∉ candidates := by
      intro member
      rcases atMost right member with ⟨last, isLast, below⟩
      have equal := le_antisymm below (greatest last (isPassed last isLast))
      exact notPrevious (equal ▸ isLast)
    refine ⟨isScored.extend (nodup_singleton right) fun other => ?_, ?_, fun other member => ?_⟩
    · rw [mem_singleton]
      exact (and_iff_left_of_imp fun same => same ▸ unknown).symm
    · rintro last ⟨⟩
      exact mem_append_right _ mem_cons_self
    · rw [mem_append, mem_singleton] at member
      exact ⟨right, rfl, member.elim (greatest other) Nat.le_of_eq⟩

theorem scored_foldl {rights : List Nat} (sorted : rights.Pairwise (· ≤ ·)) :
    Scored left scored rights (rights.foldl (scoreUnlessPrevious left) (none, scored)).2 := by
  have ascends : ∀ rights candidates state, (candidates ++ rights).Pairwise (· ≤ ·) →
      Ascends left scored candidates state → Ascends left scored (candidates ++ rights)
        (rights.foldl (scoreUnlessPrevious left) state) := by
    intro rights
    induction rights with
    | nil =>
        intro candidates state _ ascends
        rw [append_nil]
        exact ascends
    | cons right rest induction =>
        intro candidates state sorted ascends
        have greatest : ∀ other ∈ candidates, other ≤ right := fun other member =>
          (pairwise_append.mp sorted).2.2 other member right mem_cons_self
        rw [append_cons] at sorted ⊢
        exact induction _ _ sorted (ascends.step greatest)
  have start : Ascends left scored [] (none, scored) :=
    ⟨⟨[], nodup_nil, fun _ => Iff.rfl, (append_nil _).symm⟩, by simp, by simp⟩
  exact (ascends rights [] _ sorted start).1

theorem Scored.single {posting : PostingView} (sorted : posting.iter.Pairwise (· ≤ ·)) :
    Scored left scored posting.iter (scoreSingleCandidatePosting left scored posting) := by
  cases posting with
  | sparse profiles => exact scored_foldl sorted
  | dense words baseWord minimum =>
      have ascending := (sorted_wordsProfiles words baseWord minimum).1
      refine ⟨_, ascending.imp ne_of_lt, fun _ => Iff.rfl, ?_⟩
      rw [scoreSingleCandidatePosting, ← foldl_scoreUniqueIndexedCandidate, wordsProfiles,
        foldl_flatMap]

theorem mergedCandidates_spec {firsts seconds : List Nat} (firstSorted : firsts.Pairwise (· ≤ ·))
    (secondSorted : seconds.Pairwise (· ≤ ·)) :
    (mergedCandidates firsts seconds).Pairwise (· ≤ ·) ∧
      ∀ right, right ∈ mergedCandidates firsts seconds ↔ right ∈ firsts ∨ right ∈ seconds := by
  fun_induction mergedCandidates firsts seconds with
  | case1 seconds => simpa using secondSorted
  | case2 firsts => simpa using firstSorted
  | case3 first firsts second seconds less induction =>
      have rest := induction firstSorted.of_cons secondSorted
      simp only [pairwise_cons, mem_cons, rest.2] at *
      refine ⟨⟨fun right member => ?_, rest.1⟩, by tauto⟩
      rcases member with member | rfl | member
      · exact firstSorted.1 right member
      · exact less.le
      · exact less.le.trans (secondSorted.1 right member)
  | case4 first firsts second seconds notLess less induction =>
      have rest := induction firstSorted secondSorted.of_cons
      simp only [pairwise_cons, mem_cons, rest.2] at *
      refine ⟨⟨fun right member => ?_, rest.1⟩, by tauto⟩
      rcases member with (rfl | member) | member
      · exact less.le
      · exact less.le.trans (firstSorted.1 right member)
      · exact secondSorted.1 right member
  | case5 first firsts second seconds notLess notGreater induction =>
      have rest := induction firstSorted.of_cons secondSorted.of_cons
      obtain rfl : first = second := by omega
      simp only [pairwise_cons, mem_cons, rest.2] at *
      refine ⟨⟨fun right member => ?_, rest.1⟩, by tauto⟩
      exact member.elim (firstSorted.1 right) (secondSorted.1 right)

theorem Scored.merged (first second : Posting profileCount) :
    Scored left scored (first.view.iter ++ second.view.iter)
      (scoreMergedCandidatePostings left first.view second.view scored) := by
  have merged := mergedCandidates_spec first.sorted_iter second.sorted_iter
  rcases scored_foldl merged.1 with ⟨rights, distinct, members, isScored⟩
  refine ⟨rights, distinct, fun right => ?_, isScored⟩
  rw [members, merged.2, mem_append]

end

def CandidateWorker.Reusable (profileCount : Nat) (worker : CandidateWorker) : Prop :=
  ∀ seen, worker.seen = some seen → ∃ earlier, seen.Holds profileCount earlier

/-- What the consumer of a worker holds after the candidates of some postings. -/
inductive Consumed (profileCount left : Nat) (worker : CandidateWorker) :
    List Nat → CandidatePostingConsumer → Prop
  | none : Consumed profileCount left worker [] ⟨none, none, false, worker⟩
  | one (first : Posting profileCount) :
      Consumed profileCount left worker first.view.iter ⟨some first.view, none, false, worker⟩
  | two (first second : Posting profileCount) :
      Consumed profileCount left worker (first.view.iter ++ second.view.iter)
        ⟨some first.view, some second.view, false, worker⟩
  | streaming {candidates : List Nat} {first second : Option PostingView} {seen : CandidateSeen}
      {scored : List (Nat × Nat)}
      (streamed : Streamed profileCount left worker.scored candidates (seen, scored)) :
      Consumed profileCount left worker candidates ⟨first, second, true, ⟨some seen, scored⟩⟩

section

variable {left : Nat} {worker : CandidateWorker} (reusable : worker.Reusable profileCount)
  {candidates : List Nat} {consumer : CandidatePostingConsumer}
  (consumed : Consumed profileCount left worker candidates consumer)
include reusable consumed

theorem Consumed.push (posting : Posting profileCount) :
    Consumed profileCount left worker (candidates ++ posting.view.iter)
      (consumer.push profileCount left posting.view) := by
  rw [CandidatePostingConsumer.push]
  split
  · rename_i isEmpty
    have empty : posting.view.iter = [] := by
      cases isView : posting.view with
      | sparse profiles => simpa [isView, PostingView.isEmpty, PostingView.iter] using isEmpty
      | dense => simp [isView, PostingView.isEmpty] at isEmpty
    rw [empty, append_nil]
    exact consumed
  · cases consumed with
    | none => exact .one posting
    | one first => exact .two first posting
    | streaming streamed => exact .streaming (streamed.posting posting.below)
    | two first second =>
        have cleared : (worker.seen.getD (.new profileCount)).beginProfile.Holds profileCount [] := by
          cases isSeen : worker.seen with
          | none => exact CandidateSeen.new_holds.beginProfile
          | some seen =>
              rcases reusable seen isSeen with ⟨earlier, holds⟩
              exact holds.beginProfile
        have start : Streamed profileCount left worker.scored []
            ((worker.seen.getD (.new profileCount)).beginProfile, worker.scored) :=
          ⟨cleared, [], nodup_nil, fun _ => Iff.rfl, (append_nil _).symm⟩
        exact .streaming
          (((start.posting first.below).posting second.below).posting posting.below)

theorem Consumed.finish :
    (consumer.finish left).Reusable profileCount ∧
      Scored left worker.scored candidates (consumer.finish left).scored := by
  cases consumed with
  | none => exact ⟨reusable, [], nodup_nil, fun _ => Iff.rfl, (append_nil _).symm⟩
  | one first => exact ⟨reusable, .single first.sorted_iter⟩
  | two first second => exact ⟨reusable, .merged first second⟩
  | streaming streamed =>
      refine ⟨fun seen isSeen => ?_, streamed.2⟩
      cases isSeen
      exact ⟨_, streamed.1⟩

end

theorem scorePostings_once {worker : CandidateWorker} (reusable : worker.Reusable profileCount)
    (work : Nat × List (Posting profileCount)) :
    (scorePostings worker work).Reusable profileCount ∧
      Scored work.1 worker.scored (work.2.flatMap fun posting => posting.view.iter)
        (scorePostings worker work).scored := by
  have consumed : ∀ (postings : List (Posting profileCount)) candidates consumer,
      Consumed profileCount work.1 worker candidates consumer →
      Consumed profileCount work.1 worker
        (candidates ++ postings.flatMap fun posting => posting.view.iter)
        (postings.foldl (fun consumer posting =>
          CandidatePostingConsumer.push profileCount work.1 consumer posting.view) consumer) := by
    intro postings
    induction postings with
    | nil =>
        intro candidates consumer consumed
        rw [flatMap_nil, append_nil]
        exact consumed
    | cons posting rest induction =>
        intro candidates consumer consumed
        rw [flatMap_cons, ← append_assoc]
        exact induction _ _ (consumed.push reusable posting)
  exact (consumed work.2 [] _ .none).finish reusable

def ScoredOnce (work : Nat × List (Posting profileCount)) (rights : List Nat) : Prop :=
  rights.Nodup ∧ ∀ right, right ∈ rights ↔ ∃ posting ∈ work.2, right ∈ posting.view.iter

/-- However many profiles a worker has scored before, each left profile is scored with the
candidates of its postings, each once, and with nothing else. -/
theorem scoreCandidates_each_once (work : List (Nat × List (Posting profileCount)))
    (scored : List (Nat × Nat)) :
    ∃ rights : List (List Nat), Forall₂ ScoredOnce work rights ∧
      (scoreCandidates work ⟨none, scored⟩).scored = scored ++
        (zipWith (fun entry rights => rights.map (entry.1, ·)) work rights).flatten := by
  have runs : ∀ worker : CandidateWorker, worker.Reusable profileCount →
      ∃ rights : List (List Nat), Forall₂ ScoredOnce work rights ∧
        (scoreCandidates work worker).scored = worker.scored ++
          (zipWith (fun entry rights => rights.map (entry.1, ·)) work rights).flatten := by
    induction work with
    | nil => exact fun worker _ => ⟨[], .nil, (append_nil _).symm⟩
    | cons entry rest induction =>
        intro worker reusable
        rcases scorePostings_once reusable entry with ⟨again, first, distinct, members, isScored⟩
        rcases induction _ again with ⟨rights, once, later⟩
        refine ⟨first :: rights, .cons ⟨distinct, by simpa using members⟩ once, ?_⟩
        rw [scoreCandidates, foldl_cons, ← scoreCandidates, later, isScored, append_assoc]
        rfl
  exact runs ⟨none, scored⟩ fun _ isSeen => nomatch isSeen

end NftData.Dedup
