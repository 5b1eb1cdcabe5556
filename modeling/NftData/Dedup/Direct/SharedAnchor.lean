import NftData.Foundation.BinarySearch
import NftData.Dedup.Direct.Profiles

namespace NftData.Dedup.Direct

open Option

/-! # Documents that two profiles are compared by

EVM profiles are compared by the documents of the greatest token that both have. Anchors
are sorted by their token keys; a key may be repeated. -/

open List

abbrev Anchor : Type := Nat × Nat

def anchorTokenRangesOverlap (left right : List Anchor) : Bool :=
  match left.head?, left.getLast?, right.head?, right.getLast? with
  | some leftFirst, some leftLast, some rightFirst, some rightLast =>
      leftFirst.1 ≤ rightLast.1 && rightFirst.1 ≤ leftLast.1
  | _, _, _, _ => false

def tokenMasksOverlap (left right : List Nat) : Bool :=
  (left.zip right).any fun words => words.1 &&& words.2 ≠ 0

/-- The loop of `highest_shared_anchor_entries`, which looks at the anchors before the two
ends. -/
def sharedBeforeEnds (left right : List Anchor) (leftEnd rightEnd : Nat) :
    Option (Anchor × Anchor) :=
  if leftEnd = 0 ∨ rightEnd = 0 then none
  else
    match left[leftEnd - 1]?, right[rightEnd - 1]? with
    | some leftAnchor, some rightAnchor =>
        match compare leftAnchor.1 rightAnchor.1 with
        | .eq => some (leftAnchor, rightAnchor)
        | .gt => sharedBeforeEnds left right (leftEnd - 1) rightEnd
        | .lt => sharedBeforeEnds left right leftEnd (rightEnd - 1)
    | _, _ => none
termination_by leftEnd + rightEnd
decreasing_by all_goals omega

def highestSharedAnchorEntries (left right : List Anchor) : Option (Anchor × Anchor) :=
  sharedBeforeEnds left right left.length right.length

/-- The loop of `highest_shared_anchor_imbalanced`, over the anchors of the shorter list
from the last one on. -/
def sharedBySearch (longer : List Anchor) : List Anchor → Nat → Option (Nat × Nat)
  | [], _ => none
  | anchor :: before, longerEnd =>
      let longerEnd := partitionPoint (longer.take longerEnd) fun candidate =>
        candidate.1 ≤ anchor.1
      match longer[longerEnd - 1]? with
      | some candidate =>
          if longerEnd ≠ 0 ∧ candidate.1 = anchor.1 then some (anchor.2, candidate.2)
          else sharedBySearch longer before longerEnd
      | none => sharedBySearch longer before longerEnd

def highestSharedAnchorImbalanced (shorter longer : List Anchor) : Option (Nat × Nat) :=
  sharedBySearch longer shorter.reverse longer.length

def imbalanceRatio : Nat := 8

/-- `len().saturating_mul(IMBALANCE_RATIO)`, as a `usize`. -/
def imbalanceLimit (anchors : List Anchor) : Nat :=
  min (anchors.length * imbalanceRatio) (2 ^ 64 - 1)

def highestSharedAnchor (left right : List Anchor) : Option (Nat × Nat) :=
  if imbalanceLimit left < right.length then
    highestSharedAnchorImbalanced left right
  else if imbalanceLimit right < left.length then
    (highestSharedAnchorImbalanced right left).map fun documents => (documents.2, documents.1)
  else
    (sharedBeforeEnds left right left.length right.length).map fun anchors =>
      (anchors.1.2, anchors.2.2)

def selectedEvmDocuments (left : ContractProfile) (leftAnchors : List Anchor)
    (right : ContractProfile) (rightAnchors : List Anchor) : Nat × Nat :=
  if anchorTokenRangesOverlap leftAnchors rightAnchors &&
      tokenMasksOverlap left.tokenMask right.tokenMask then
    (highestSharedAnchor leftAnchors rightAnchors).getD (left.maxDocument, right.maxDocument)
  else
    (left.maxDocument, right.maxDocument)

def selectedDocuments (left : ContractProfile) (leftAnchors : List Anchor)
    (right : ContractProfile) (rightAnchors : List Anchor) : Nat × Nat :=
  if left.isEvm && right.isEvm then
    selectedEvmDocuments left leftAnchors right rightAnchors
  else
    (left.maxDocument, right.maxDocument)

/-- The last anchor with the document. -/
def lastAnchorOf (anchors : List Anchor) (document : Nat) : Option Anchor :=
  anchors.reverse.find? fun anchor => anchor.2 = document

def maxAnchors (left : ContractProfile) (leftAnchors : List Anchor)
    (right : ContractProfile) (rightAnchors : List Anchor) : Option (Anchor × Anchor) := do
  let leftAnchor ← lastAnchorOf leftAnchors left.maxDocument
  let rightAnchor ← lastAnchorOf rightAnchors right.maxDocument
  some (leftAnchor, rightAnchor)

def selectedImageAnchors (left : ContractProfile) (leftAnchors : List Anchor)
    (right : ContractProfile) (rightAnchors : List Anchor) : Option (Anchor × Anchor) :=
  if left.isEvm && right.isEvm && anchorTokenRangesOverlap leftAnchors rightAnchors &&
      tokenMasksOverlap left.tokenMask right.tokenMask then
    match highestSharedAnchorEntries leftAnchors rightAnchors with
    | some anchors => some anchors
    | none => maxAnchors left leftAnchors right rightAnchors
  else
    maxAnchors left leftAnchors right rightAnchors

/-- The last anchor with the token key. -/
def lastEntry (anchors : List Anchor) (key : Nat) : Option Anchor :=
  (anchors.filter fun anchor => anchor.1 = key).getLast?

def greatestSharedKey (left right : List Anchor) : Option Nat :=
  ((left.map Prod.fst).filter fun key => key ∈ right.map Prod.fst).max?

/-- The last anchors with the greatest token key that both lists have. -/
def sharedEntries (left right : List Anchor) : Option (Anchor × Anchor) := do
  let key ← greatestSharedKey left right
  let leftEntry ← lastEntry left key
  let rightEntry ← lastEntry right key
  some (leftEntry, rightEntry)

example : sharedEntries [(1, 4), (3, 5), (3, 6), (8, 7)] [(0, 9), (3, 2), (7, 1)] =
    some ((3, 6), (3, 2)) := by
  decide

/-- No token is in both lists. -/
def Apart (left right : List Anchor) : Prop :=
  ∀ leftAnchor ∈ left, ∀ rightAnchor ∈ right, leftAnchor.1 ≠ rightAnchor.1

variable {right left : List Anchor}

theorem Apart.symm (apart : Apart left right) : Apart right left :=
  fun rightAnchor inRight leftAnchor inLeft equal =>
    apart leftAnchor inLeft rightAnchor inRight equal.symm

/-- The anchors are the last ones with a token that no later token of both lists follows. -/
structure LastShared (left right : List Anchor) (anchors : Anchor × Anchor) : Prop where
  sameKey : anchors.1.1 = anchors.2.1
  leftLast : lastEntry left anchors.1.1 = some anchors.1
  rightLast : lastEntry right anchors.1.1 = some anchors.2
  greatest : ∀ leftAnchor ∈ left, ∀ rightAnchor ∈ right,
    leftAnchor.1 = rightAnchor.1 → leftAnchor.1 ≤ anchors.1.1

theorem LastShared.symm {anchors : Anchor × Anchor} (shared : LastShared left right anchors) :
    LastShared right left anchors.swap where
  sameKey := shared.sameKey.symm
  leftLast := by
    rw [Prod.fst_swap, ← shared.sameKey]
    exact shared.rightLast
  rightLast := by
    rw [Prod.fst_swap, ← shared.sameKey]
    exact shared.leftLast
  greatest rightAnchor inRight leftAnchor inLeft equal := by
    rw [equal, Prod.fst_swap, ← shared.sameKey]
    exact shared.greatest leftAnchor inLeft rightAnchor inRight equal.symm

variable {anchors : List Anchor} {entry : Anchor}

theorem mem_of_lastEntry {key : Nat} (isLast : lastEntry anchors key = some entry) :
    entry ∈ anchors ∧ entry.1 = key := by
  have member := List.mem_of_getLast? isLast
  rw [mem_filter] at member
  exact ⟨member.1, of_decide_eq_true member.2⟩

theorem lastEntry_of_split {before after : List Anchor} (last : ∀ later ∈ after, later.1 ≠ entry.1)
    :
    lastEntry (before ++ entry :: after) entry.1 = some entry := by
  have none : after.filter (fun anchor => anchor.1 = entry.1) = [] :=
    filter_eq_nil_iff.mpr fun later member => by simpa using last later member
  rw [lastEntry, filter_append, filter_cons_of_pos (by simp), none,
    List.getLast?_concat]

theorem lastEntry_of_getElem? {position : Nat} (found : anchors[position]? = some entry)
    (last : ∀ later ∈ anchors.drop (position + 1), later.1 ≠ entry.1) :
    lastEntry anchors entry.1 = some entry := by
  rcases List.getElem?_eq_some_iff.mp found with ⟨inside, isEntry⟩
  have split : anchors = anchors.take position ++ entry :: anchors.drop (position + 1) := by
    rw [← isEntry, ← drop_eq_getElem_cons inside, take_append_drop]
  rw [split]
  exact lastEntry_of_split last

theorem sharedEntries_of_apart (apart : Apart left right) :
    sharedEntries left right = none := by
  have none : (left.map Prod.fst).filter (fun key => key ∈ right.map Prod.fst) = [] := by
    refine filter_eq_nil_iff.mpr fun key inLeft inRight => ?_
    rcases mem_map.mp inLeft with ⟨leftAnchor, isLeft, rfl⟩
    rcases mem_map.mp (of_decide_eq_true inRight) with ⟨rightAnchor, isRight, equal⟩
    exact apart leftAnchor isLeft rightAnchor isRight equal.symm
  rw [sharedEntries, greatestSharedKey, none]
  rfl

theorem LastShared.sharedEntries {anchors : Anchor × Anchor}
    (shared : LastShared left right anchors) :
    sharedEntries left right = some anchors := by
  have inLeft := mem_of_lastEntry shared.leftLast
  have inRight := mem_of_lastEntry shared.rightLast
  have key : greatestSharedKey left right = some anchors.1.1 := by
    refine List.max?_eq_some_iff.mpr ⟨?_, ?_⟩
    · refine mem_filter.mpr ⟨mem_map.mpr ⟨_, inLeft.1, rfl⟩, decide_eq_true ?_⟩
      exact mem_map.mpr ⟨_, inRight.1, inRight.2⟩
    · intro other member
      rcases mem_filter.mp member with ⟨isLeft, isRight⟩
      rcases mem_map.mp isLeft with ⟨leftAnchor, leftIn, rfl⟩
      rcases mem_map.mp (of_decide_eq_true isRight) with ⟨rightAnchor, rightIn, equal⟩
      exact shared.greatest leftAnchor leftIn rightAnchor rightIn equal.symm
  rw [Direct.sharedEntries, key]
  simp only [bind_eq_bind, bind_some, shared.leftLast,
    shared.rightLast]

/-! ## The searches -/

/-- What a search reports: the documents of the last shared anchors, or nothing if no token
is shared. -/
def Reports (left right : List Anchor) : Option (Nat × Nat) → Prop
  | none => Apart left right
  | some documents => ∃ anchors, LastShared left right anchors ∧
      documents = (anchors.1.2, anchors.2.2)

variable {documents : Option (Nat × Nat)}

theorem Reports.eq (reports : Reports left right documents) :
    documents = (sharedEntries left right).map fun anchors => (anchors.1.2, anchors.2.2) := by
  cases documents with
  | none => rw [sharedEntries_of_apart reports, map_none]
  | some documents =>
      rcases reports with ⟨anchors, shared, rfl⟩
      rw [shared.sharedEntries, map_some]

theorem Reports.symm (reports : Reports left right documents) :
    Reports right left (documents.map fun documents => (documents.2, documents.1)) := by
  cases documents with
  | none => exact Apart.symm reports
  | some documents =>
      rcases reports with ⟨anchors, shared, rfl⟩
      exact ⟨anchors.swap, shared.symm, rfl⟩

def TokenSorted (anchors : List Anchor) : Prop :=
  anchors.Pairwise fun left right => left.1 ≤ right.1

variable {anchor : Anchor} {token : Nat}

section Searches

variable {left right : List Anchor}

theorem TokenSorted.le_of_le (sorted : TokenSorted anchors) {first second : Nat}
    {firstAnchor secondAnchor : Anchor} (atMost : first ≤ second)
    (firstAt : anchors[first]? = some firstAnchor) (secondAt : anchors[second]? = some secondAnchor)
    : firstAnchor.1 ≤ secondAnchor.1 := by
  rcases List.getElem?_eq_some_iff.mp firstAt with ⟨firstIn, rfl⟩
  rcases List.getElem?_eq_some_iff.mp secondAt with ⟨secondIn, rfl⟩
  rcases Nat.eq_or_lt_of_le atMost with same | less
  · subst same
    exact le_rfl
  · exact pairwise_iff_getElem.mp sorted _ _ firstIn secondIn less

theorem exists_position (position : Nat) (member : anchor ∈ anchors) :
    (∃ index < position, anchors[index]? = some anchor) ∨ anchor ∈ anchors.drop position := by
  rcases mem_iff_getElem?.mp member with ⟨index, found⟩
  by_cases before : index < position
  · exact .inl ⟨index, before, found⟩
  · refine .inr (mem_iff_getElem?.mpr ⟨index - position, ?_⟩)
    rw [List.getElem?_drop, Nat.add_sub_cancel' (Nat.not_lt.mp before)]
    exact found

/-- The anchors behind the ends are not shared; the loop keeps this. -/
theorem sharedBeforeEnds_spec (leftSorted : TokenSorted left) (rightSorted : TokenSorted right)
    (leftEnd rightEnd : Nat) (leftInside : leftEnd ≤ left.length)
    (rightInside : rightEnd ≤ right.length)
    (leftApart : Apart (left.drop leftEnd) right)
    (rightApart : Apart left (right.drop rightEnd)) :
    match sharedBeforeEnds left right leftEnd rightEnd with
    | none => Apart left right
    | some anchors => LastShared left right anchors := by
  induction leftEnd, rightEnd using sharedBeforeEnds.induct left right with
  | case1 leftEnd rightEnd isEmpty =>
      rw [sharedBeforeEnds, if_pos isEmpty]
      rcases isEmpty with isEmpty | isEmpty
      · subst isEmpty
        exact leftApart
      · subst isEmpty
        exact rightApart
  | case2 leftEnd rightEnd notEmpty leftAnchor rightAnchor rightAt leftAt same =>
      rw [sharedBeforeEnds, if_neg notEmpty]
      simp only [leftAt, rightAt, same]
      have key : leftAnchor.1 = rightAnchor.1 := Nat.compare_eq_eq.mp same
      rw [not_or] at notEmpty
      have rightMember := mem_of_getElem? rightAt
      have leftMember := mem_of_getElem? leftAt
      refine ⟨key, ?_, ?_, ?_⟩
      · apply lastEntry_of_getElem? leftAt
        intro later member
        rw [Nat.sub_add_cancel (Nat.pos_of_ne_zero notEmpty.1)] at member
        rw [key]
        exact leftApart later member _ rightMember
      · rw [key]
        apply lastEntry_of_getElem? rightAt
        intro later member
        rw [Nat.sub_add_cancel (Nat.pos_of_ne_zero notEmpty.2)] at member
        rw [← key]
        exact (rightApart _ leftMember later member).symm
      · intro other inLeft partner inRight equal
        rcases exists_position leftEnd inLeft with ⟨index, before, found⟩ | behind
        · exact leftSorted.le_of_le (by omega) found leftAt
        · exact absurd equal (leftApart other behind partner inRight)
  | case3 leftEnd rightEnd notEmpty leftAnchor rightAnchor rightAt leftAt greater induction =>
      rw [sharedBeforeEnds, if_neg notEmpty]
      simp only [leftAt, rightAt, greater]
      have key : rightAnchor.1 < leftAnchor.1 := Nat.compare_eq_gt.mp greater
      rw [not_or] at notEmpty
      apply induction (by omega) rightInside _ rightApart
      intro other behind partner inRight equal
      have split : left.drop (leftEnd - 1) = leftAnchor :: left.drop leftEnd := by
        rcases List.getElem?_eq_some_iff.mp leftAt with ⟨inside, isAnchor⟩
        rw [drop_eq_getElem_cons inside, isAnchor, Nat.sub_add_cancel (by omega)]
      rw [split, mem_cons] at behind
      rcases behind with rfl | behind
      · rcases exists_position rightEnd inRight with ⟨index, before, found⟩ | partnerBehind
        · have atMost := rightSorted.le_of_le (by omega) found rightAt
          omega
        · exact rightApart _ (mem_of_getElem? leftAt) partner partnerBehind equal
      · exact leftApart other behind partner inRight equal
  | case4 leftEnd rightEnd notEmpty leftAnchor rightAnchor rightAt leftAt less induction =>
      rw [sharedBeforeEnds, if_neg notEmpty]
      simp only [leftAt, rightAt, less]
      have key : leftAnchor.1 < rightAnchor.1 := Nat.compare_eq_lt.mp less
      rw [not_or] at notEmpty
      apply induction leftInside (by omega) leftApart
      intro other inLeft partner behind equal
      have split : right.drop (rightEnd - 1) = rightAnchor :: right.drop rightEnd := by
        rcases List.getElem?_eq_some_iff.mp rightAt with ⟨inside, isAnchor⟩
        rw [drop_eq_getElem_cons inside, isAnchor, Nat.sub_add_cancel (by omega)]
      rw [split, mem_cons] at behind
      rcases behind with rfl | behind
      · rcases exists_position leftEnd inLeft with ⟨index, before, found⟩ | otherBehind
        · have atMost := leftSorted.le_of_le (by omega) found leftAt
          omega
        · exact leftApart other otherBehind _ (mem_of_getElem? rightAt) equal
      · exact rightApart other inLeft partner behind equal
  | case5 leftEnd rightEnd notEmpty missing =>
      rw [not_or] at notEmpty
      have leftAt := List.getElem?_eq_getElem (l := left) (i := leftEnd - 1) (by omega)
      have rightAt := List.getElem?_eq_getElem (l := right) (i := rightEnd - 1) (by omega)
      exact (missing _ _ leftAt rightAt).elim

theorem highestSharedAnchorEntries_eq (leftSorted : TokenSorted left)
    (rightSorted : TokenSorted right) :
    highestSharedAnchorEntries left right = sharedEntries left right := by
  have nothing : ∀ anchors others : List Anchor, Apart (anchors.drop anchors.length) others := by
    intro anchors others
    rw [drop_length]
    intro _ impossible
    cases impossible
  have spec := sharedBeforeEnds_spec leftSorted rightSorted left.length right.length le_rfl le_rfl
    (nothing left right) (nothing right left).symm
  rw [highestSharedAnchorEntries]
  cases result : sharedBeforeEnds left right left.length right.length with
  | none =>
      rw [result] at spec
      exact (sharedEntries_of_apart spec).symm
  | some anchors =>
      rw [result] at spec
      exact (LastShared.sharedEntries spec).symm

variable {longer : List Anchor}

theorem take_search (sorted : TokenSorted longer) (longerEnd token : Nat) :
    let found := partitionPoint (longer.take longerEnd) fun candidate => candidate.1 ≤ token
    found ≤ longer.length ∧ (∀ candidate ∈ longer.take found, candidate.1 ≤ token) ∧
      ∀ candidate ∈ longer.drop found,
        token < candidate.1 ∨ candidate ∈ longer.drop longerEnd := by
  intro found
  have partitioned : Partitioned (fun candidate : Anchor => decide (candidate.1 ≤ token))
      (longer.take longerEnd) :=
    @partitioned_of_sorted _ _ _ _ _ Prod.fst (sorted.sublist (take_sublist _ _))
      fun _ _ atMost holds => decide_eq_true (atMost.trans (of_decide_eq_true holds))
  have split := partitionPoint_spec partitioned
  have inside : found ≤ longerEnd := split.1.trans (length_take_le _ _)
  refine ⟨split.1.trans (length_take_le' _ _), ?_, ?_⟩
  · intro candidate member
    apply of_decide_eq_true
    apply split.2.1 candidate
    rw [take_take, Nat.min_eq_left inside]
    exact member
  · intro candidate member
    rw [← take_append_drop longerEnd longer, drop_append, mem_append] at member
    rcases member with here | behind
    · have above := of_decide_eq_false (split.2.2 candidate here)
      exact .inl (Nat.not_le.mp above)
    · exact .inr (mem_of_mem_drop behind)

theorem absent_of_search (sorted : TokenSorted longer) {found : Nat}
    (inside : found ≤ longer.length) (upTo : ∀ candidate ∈ longer.take found, candidate.1 ≤ token)
    (beyond : ∀ candidate ∈ longer.drop found, token < candidate.1)
    (missing : ∀ candidate, longer[found - 1]? = some candidate → found ≠ 0 →
      candidate.1 ≠ token) :
    ∀ candidate ∈ longer, candidate.1 ≠ token := by
  intro candidate inLonger equal
  rcases exists_position found inLonger with ⟨index, less, isAt⟩ | isBehind
  · have inside : found - 1 < longer.length := by omega
    have last := List.getElem?_eq_getElem inside
    have inPart : longer[found - 1] ∈ longer.take found := by
      refine mem_iff_getElem?.mpr ⟨found - 1, ?_⟩
      rw [List.getElem?_take, if_pos (by omega)]
      exact last
    have atMost := upTo _ inPart
    have least := sorted.le_of_le (by omega) isAt last
    exact missing _ last (by omega) (by omega)
  · have less := beyond candidate isBehind
    omega

variable {shorter : List Anchor}

/-- The anchors of the shorter list that were looked at are not shared, and the anchors of
the longer list behind the end come after all that are left; the loop keeps this. -/
theorem sharedBySearch_spec (shorterSorted : TokenSorted shorter)
    (longerSorted : TokenSorted longer) (before processed : List Anchor)
    (isShorter : shorter = before.reverse ++ processed) (longerEnd : Nat)
    (apart : Apart processed longer)
    (behind : ∀ candidate ∈ longer.drop longerEnd, ∀ anchor ∈ before,
      anchor.1 < candidate.1) :
    Reports shorter longer (sharedBySearch longer before longerEnd) := by
  induction before generalizing processed longerEnd with
  | nil =>
      rw [reverse_nil, nil_append] at isShorter
      exact isShorter ▸ apart
  | cons anchor before induction =>
      rcases take_search longerSorted longerEnd anchor.1 with ⟨inside, upTo, after⟩
      rw [sharedBySearch]
      set found := partitionPoint (longer.take longerEnd) fun candidate =>
        decide (candidate.1 ≤ anchor.1)
      have isSplit : shorter = before.reverse ++ anchor :: processed := by
        rw [isShorter, reverse_cons, List.append_assoc]
        rfl
      have beyond : ∀ candidate ∈ longer.drop found, anchor.1 < candidate.1 := by
        intro candidate member
        rcases after candidate member with less | isBehind
        · exact less
        · exact behind candidate isBehind anchor mem_cons_self
      have lower : ∀ other ∈ before, other.1 ≤ anchor.1 := by
        intro other member
        have sorted := shorterSorted
        rw [isSplit, TokenSorted, pairwise_append] at sorted
        exact sorted.2.2 other (mem_reverse.mpr member) anchor mem_cons_self
      -- Without an equal token right before the end, the token is not in the longer list.
      have next : (∀ candidate, longer[found - 1]? = some candidate → found ≠ 0 →
            candidate.1 ≠ anchor.1) →
          Reports shorter longer (sharedBySearch longer before found) := by
        intro missing
        apply induction (anchor :: processed) isSplit
        · intro other member candidate inLonger equal
          rcases mem_cons.mp member with rfl | isProcessed
          · exact absent_of_search longerSorted inside upTo beyond missing candidate inLonger
              equal.symm
          · exact apart other isProcessed candidate inLonger equal
        · intro candidate member other isBefore
          exact (lower other isBefore).trans_lt (beyond candidate member)
      split
      · next candidate candidateAt =>
          split
          · next isFound =>
              have inLonger := mem_of_getElem? candidateAt
              refine ⟨(anchor, candidate), ⟨isFound.2.symm, ?_, ?_, ?_⟩, rfl⟩
              · rw [isSplit]
                apply lastEntry_of_split
                intro later member equal
                exact apart later member candidate inLonger (equal.trans isFound.2.symm)
              · rw [← isFound.2]
                apply lastEntry_of_getElem? candidateAt
                intro later member
                rw [Nat.sub_add_cancel (Nat.pos_of_ne_zero isFound.1)] at member
                have less := beyond later member
                omega
              · intro other inShorter partner inLonger' equal
                rw [isSplit, mem_append, mem_cons] at inShorter
                rcases inShorter with isBefore | rfl | isProcessed
                · exact lower other (mem_reverse.mp isBefore)
                · exact le_rfl
                · exact absurd equal (apart other isProcessed partner inLonger')
          · next notFound =>
              apply next
              intro other otherAt notEmpty equal
              rw [candidateAt] at otherAt
              exact notFound ⟨notEmpty, Option.some.inj otherAt ▸ equal⟩
      · next missing =>
          apply next
          intro other otherAt
          rw [missing] at otherAt
          cases otherAt

theorem highestSharedAnchorImbalanced_reports (shorterSorted : TokenSorted shorter)
    (longerSorted : TokenSorted longer) :
    Reports shorter longer (highestSharedAnchorImbalanced shorter longer) := by
  apply sharedBySearch_spec shorterSorted longerSorted shorter.reverse []
  · rw [reverse_reverse, append_nil]
  · intro _ impossible
    cases impossible
  · intro candidate member
    rw [drop_length] at member
    cases member

theorem highestSharedAnchor_eq (leftSorted : TokenSorted left)
    (rightSorted : TokenSorted right) :
    highestSharedAnchor left right =
      (sharedEntries left right).map fun anchors => (anchors.1.2, anchors.2.2) := by
  rw [highestSharedAnchor]
  split
  · exact (highestSharedAnchorImbalanced_reports leftSorted rightSorted).eq
  · split
    · exact (highestSharedAnchorImbalanced_reports rightSorted leftSorted).symm.eq
    · rw [← highestSharedAnchorEntries, highestSharedAnchorEntries_eq leftSorted rightSorted]

end Searches

/-! ## The filters

Both filters let every pair with a shared token through. -/

theorem anchorTokenRangesOverlap_of_shared (leftSorted : TokenSorted left)
    (rightSorted : TokenSorted right) {leftAnchor rightAnchor : Anchor} (inLeft : leftAnchor ∈ left)
    (inRight : rightAnchor ∈ right) (shared : leftAnchor.1 = rightAnchor.1) :
    anchorTokenRangesOverlap left right = true := by
  have bounds : ∀ {anchors : List Anchor} {anchor : Anchor}, TokenSorted anchors →
      anchor ∈ anchors → ∃ first last, anchors.head? = some first ∧
        anchors.getLast? = some last ∧ first.1 ≤ anchor.1 ∧ anchor.1 ≤ last.1 := by
    intro anchors anchor sorted member
    rcases mem_iff_getElem?.mp member with ⟨index, found⟩
    have inside := (List.getElem?_eq_some_iff.mp found).1
    have firstAt := List.getElem?_eq_getElem (l := anchors) (i := 0) (by omega)
    have lastAt := List.getElem?_eq_getElem (l := anchors) (i := anchors.length - 1) (by omega)
    exact ⟨_, _, List.head?_eq_getElem?.trans firstAt, List.getLast?_eq_getElem?.trans lastAt,
      sorted.le_of_le (Nat.zero_le _) firstAt found, sorted.le_of_le (by omega) found lastAt⟩
  rcases bounds leftSorted inLeft with ⟨leftFirst, leftLast, leftHead, leftEnd, leftLow, leftHigh⟩
  rcases bounds rightSorted inRight with
    ⟨rightFirst, rightLast, rightHead, rightEnd, rightLow, rightHigh⟩
  simp only [anchorTokenRangesOverlap, leftHead, leftEnd, rightHead, rightEnd, Bool.and_eq_true,
    decide_eq_true_eq]
  omega

def MaskHas (mask : List Nat) (token : Nat) : Prop :=
  ∃ word, mask[(tokenBit token).1]? = some word ∧
    word &&& (tokenBit token).2 = (tokenBit token).2

variable {masked mask : List Nat}

theorem maskToken_keeps (ok : maskToken mask anchor = .ok masked) :
    MaskHas masked anchor.1 ∧ ∀ token, MaskHas mask token → MaskHas masked token := by
  rcases bind_eq_ok ok with ⟨word, wordOk, assigned⟩
  rw [EntityStore.assign] at assigned
  split at assigned
  · next inside =>
      cases assigned
      have wordAt : mask[(tokenBit anchor.1).1]? = some word := by
        rw [indexed] at wordOk
        split at wordOk
        · next found => rw [found, Except.ok.inj wordOk]
        · cases wordOk
      constructor
      · refine ⟨_, List.getElem?_set_self inside, ?_⟩
        apply Nat.eq_of_testBit_eq
        intro bit
        rw [Nat.testBit_and, Nat.testBit_or]
        cases Nat.testBit (tokenBit anchor.1).2 bit with
        | false => rw [Bool.and_false]
        | true => rw [Bool.or_true, Bool.and_true]
      · rintro token ⟨other, otherAt, has⟩
        by_cases same : (tokenBit anchor.1).1 = (tokenBit token).1
        · rw [← same, wordAt] at otherAt
          cases otherAt
          refine ⟨_, (congrArg (_[·]?) same).symm.trans (List.getElem?_set_self inside), ?_⟩
          rw [Nat.and_or_distrib_right, has]
          apply Nat.eq_of_testBit_eq
          intro bit
          rw [Nat.testBit_or, Nat.testBit_and]
          cases Nat.testBit (tokenBit token).2 bit with
          | false => rw [Bool.and_false, Bool.or_false]
          | true => rw [Bool.true_or]
        · exact ⟨other, by rw [List.getElem?_set_ne same, otherAt], has⟩
  · cases assigned

theorem maskTokens_has (ok : anchors.foldlM maskToken mask = .ok masked) :
    (∀ anchor ∈ anchors, MaskHas masked anchor.1) ∧
      ∀ token, MaskHas mask token → MaskHas masked token := by
  induction anchors generalizing mask with
  | nil =>
      cases ok
      refine ⟨?_, fun _ has => has⟩
      intro _ impossible
      cases impossible
  | cons head tail induction =>
      rw [foldlM_cons] at ok
      rcases bind_eq_ok ok with ⟨next, nextOk, rest⟩
      have here := maskToken_keeps nextOk
      have later := induction rest
      refine ⟨?_, fun token has => later.2 token (here.2 token has)⟩
      intro anchor member
      rcases mem_cons.mp member with rfl | inTail
      · exact later.2 _ here.1
      · exact later.1 anchor inTail

theorem tokenMasksOverlap_of_shared {left right : List Nat} (leftHas : MaskHas left token)
    (rightHas : MaskHas right token) :
    tokenMasksOverlap left right = true := by
  rcases leftHas with ⟨leftWord, leftAt, leftBit⟩
  rcases rightHas with ⟨rightWord, rightAt, rightBit⟩
  refine any_eq_true.mpr ⟨(leftWord, rightWord), ?_, ?_⟩
  · refine mem_iff_getElem?.mpr ⟨(tokenBit token).1, ?_⟩
    rw [List.getElem?_zip_eq_some]
    exact ⟨leftAt, rightAt⟩
  · have positive : 0 < (tokenBit token).2 := by
      rw [tokenBit]
      exact Nat.two_pow_pos _
    refine decide_eq_true fun zero => ?_
    have both : leftWord &&& rightWord &&& (tokenBit token).2 = (tokenBit token).2 := by
      rw [Nat.and_assoc, rightBit, leftBit]
    rw [zero, Nat.zero_and] at both
    omega

/-- A profile of an EVM chain and its anchors, as the build of the index makes them. -/
structure IsEvmProfile (profile : ContractProfile) (anchors : List Anchor) : Prop where
  isEvm : profile.isEvm = true
  sorted : TokenSorted anchors
  tokenMask : anchors.foldlM maskToken (List.replicate 4 0) = .ok profile.tokenMask
  maxDocument : anchors.getLast?.map Prod.snd = some profile.maxDocument

section Selection

variable {left right : ContractProfile} {leftAnchors rightAnchors : List Anchor} {profile :
  ContractProfile}

theorem IsEvmProfile.maskHas (isProfile : IsEvmProfile profile anchors) (member : anchor ∈ anchors)
    :
    MaskHas profile.tokenMask anchor.1 :=
  (maskTokens_has isProfile.tokenMask).1 anchor member

theorem filters_of_shared (leftProfile : IsEvmProfile left leftAnchors)
    (rightProfile : IsEvmProfile right rightAnchors) {anchors : Anchor × Anchor}
    (shared : sharedEntries leftAnchors rightAnchors = some anchors) :
    (anchorTokenRangesOverlap leftAnchors rightAnchors &&
      tokenMasksOverlap left.tokenMask right.tokenMask) = true := by
  rcases bind_eq_some_iff.mp shared with ⟨key, _, shared⟩
  rcases bind_eq_some_iff.mp shared with ⟨leftEntry, leftLast, shared⟩
  rcases bind_eq_some_iff.mp shared with ⟨rightEntry, rightLast, _⟩
  have inLeft := mem_of_lastEntry leftLast
  have inRight := mem_of_lastEntry rightLast
  have same : leftEntry.1 = rightEntry.1 := inLeft.2.trans inRight.2.symm
  rw [anchorTokenRangesOverlap_of_shared leftProfile.sorted rightProfile.sorted inLeft.1 inRight.1
    same, Bool.true_and]
  apply tokenMasksOverlap_of_shared (leftProfile.maskHas inLeft.1)
  rw [same]
  exact rightProfile.maskHas inRight.1

theorem exists_lastAnchorOf (isProfile : IsEvmProfile profile anchors) :
    ∃ anchor ∈ anchors, lastAnchorOf anchors profile.maxDocument = some anchor ∧
      anchor.2 = profile.maxDocument := by
  rcases map_eq_some_iff.mp isProfile.maxDocument with ⟨last, isLast, isMax⟩
  have present : (lastAnchorOf anchors profile.maxDocument).isSome = true := by
    rw [lastAnchorOf, List.find?_isSome]
    exact ⟨last, mem_reverse.mpr (List.mem_of_getLast? isLast), decide_eq_true isMax⟩
  rcases isSome_iff_exists.mp present with ⟨anchor, found⟩
  have isDocument := List.find?_some found
  exact ⟨anchor, mem_reverse.mp (List.mem_of_find?_eq_some found), found,
    of_decide_eq_true isDocument⟩

/-- The selected documents are those of the last anchors with the greatest token of both
profiles, or else the documents of the greatest tokens of each; the selected image anchors
carry them. -/
theorem selectedEvmDocuments_eq (leftProfile : IsEvmProfile left leftAnchors)
    (rightProfile : IsEvmProfile right rightAnchors) :
    selectedEvmDocuments left leftAnchors right rightAnchors =
        ((sharedEntries leftAnchors rightAnchors).map fun anchors =>
          (anchors.1.2, anchors.2.2)).getD (left.maxDocument, right.maxDocument) ∧
      ∃ leftAnchor ∈ leftAnchors, ∃ rightAnchor ∈ rightAnchors,
        selectedImageAnchors left leftAnchors right rightAnchors =
            some (leftAnchor, rightAnchor) ∧
          (leftAnchor.2, rightAnchor.2) =
            selectedEvmDocuments left leftAnchors right rightAnchors := by
  have search := highestSharedAnchor_eq leftProfile.sorted rightProfile.sorted
  have entries := highestSharedAnchorEntries_eq leftProfile.sorted rightProfile.sorted
  rw [selectedEvmDocuments, selectedImageAnchors, leftProfile.isEvm, rightProfile.isEvm, search,
    entries, Bool.true_and, Bool.true_and]
  cases shared : sharedEntries leftAnchors rightAnchors with
  | some anchors =>
      rw [if_pos (filters_of_shared leftProfile rightProfile shared),
        if_pos (filters_of_shared leftProfile rightProfile shared)]
      rcases bind_eq_some_iff.mp shared with ⟨key, _, parts⟩
      rcases bind_eq_some_iff.mp parts with ⟨leftEntry, leftLast, parts⟩
      rcases bind_eq_some_iff.mp parts with ⟨rightEntry, rightLast, isPair⟩
      cases isPair
      exact ⟨rfl, leftEntry, (mem_of_lastEntry leftLast).1, rightEntry,
        (mem_of_lastEntry rightLast).1, rfl, rfl⟩
  | none =>
      rcases exists_lastAnchorOf leftProfile with ⟨leftAnchor, inLeft, leftFound, leftMax⟩
      rcases exists_lastAnchorOf rightProfile with ⟨rightAnchor, inRight, rightFound, rightMax⟩
      have fallback : maxAnchors left leftAnchors right rightAnchors =
          some (leftAnchor, rightAnchor) := by
        rw [maxAnchors, leftFound, rightFound]
        rfl
      simp only [map_none, getD_none, ite_self, fallback]
      exact ⟨trivial, leftAnchor, inLeft, rightAnchor, inRight, rfl,
        Prod.ext leftMax rightMax⟩

def evmProfile (maxDocument : Nat) (tokenMask : List Nat) : ContractProfile :=
  ⟨true, false, false, 0, 2, maxDocument, tokenMask, 0, 0, 1, 0, 1⟩

/-- Both profiles have the token 3, the right one twice. -/
theorem selectedEvmDocuments_eq_repeated :
    ∃ left right leftAnchors rightAnchors,
      selectedEvmDocuments left leftAnchors right rightAnchors = (20, 50) ∧
      ∃ leftAnchor ∈ leftAnchors, ∃ rightAnchor ∈ rightAnchors,
        selectedImageAnchors left leftAnchors right rightAnchors =
            some (leftAnchor, rightAnchor) ∧
          (leftAnchor.2, rightAnchor.2) = (20, 50) := by
  have leftProfile : IsEvmProfile (evmProfile 20 [0, 0, 2 ^ 30, 2 ^ 26]) [(1, 10), (3, 20)] :=
    ⟨rfl, by simp [TokenSorted], by decide, rfl⟩
  have rightProfile : IsEvmProfile (evmProfile 60 [0, 0, 0, 2 ^ 26 + 2 ^ 49])
      [(3, 40), (3, 50), (8, 60)] :=
    ⟨rfl, by simp [TokenSorted], by decide, rfl⟩
  have selected := selectedEvmDocuments_eq leftProfile rightProfile
  have documents := selected.1.trans (b := _) (c := (20, 50)) (by decide)
  rw [documents] at selected
  exact ⟨_, _, _, _, documents, selected.2⟩

end Selection

end NftData.Dedup.Direct
