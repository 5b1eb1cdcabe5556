import NftData.Foundation.Csr
import NftData.Foundation.Sorting
import NftData.Foundation.Text

namespace NftData.Analysis2

/-! # Address graphs

Directed graphs over addresses in compressed rows, and the search for their strong components. -/

open List

structure AddressGraph where
  addresses : List Text
  offsets : List Nat
  edges : List Nat
  deriving DecidableEq, Repr

namespace AddressGraph

def countEdges (offsets : List Nat) (edgePairs : List (Nat × Nat)) : List Nat :=
  edgePairs.foldl (fun offsets pair => offsets.modify (pair.1 + 1) (· + 1)) offsets

def addUp (offsets : List Nat) (count : Nat) : List Nat :=
  (List.range count).foldl
    (fun offsets vertex => offsets.modify (vertex + 1) (· + offsets.getD vertex 0)) offsets

def addressesOf (pairs : List (Text × Text)) : List Text :=
  (pairs.flatMap fun pair => [pair.1, pair.2]).dedup.insertionSort (· ≤ ·)

def edgePairs (addresses : List Text) (pairs : List (Text × Text)) : List (Nat × Nat) :=
  let collected := pairs.map fun pair => (addresses.idxOf pair.1, addresses.idxOf pair.2)
  (collected.insertionSort fun left right => toLex left ≤ toLex right).destutter (· ≠ ·)

def build (pairs : List (Text × Text)) : AddressGraph :=
  let addresses := addressesOf pairs
  let edgePairs := edgePairs addresses pairs
  { addresses
    offsets := addUp (countEdges (List.replicate (addresses.length + 1) 0) edgePairs)
      addresses.length
    edges := edgePairs.map Prod.snd }

end AddressGraph

structure DfsFrame where
  vertex : Nat
  nextEdge : Nat
  parent : Option Nat
  deriving DecidableEq, Repr

/-- The state of a search; the stack starts at its top. -/
structure Tarjan where
  nextIndex : Nat
  indices : Nat → Option Nat
  lowlink : Nat → Nat
  stack : List Nat
  onStack : Nat → Bool
  components : List (List Nat)

namespace Tarjan

def new : Tarjan := ⟨0, fun _ => none, fun _ => 0, [], fun _ => false, []⟩

def discover (state : Tarjan) (vertex : Nat) : Tarjan where
  nextIndex := state.nextIndex + 1
  indices := Function.update state.indices vertex (some state.nextIndex)
  lowlink := Function.update state.lowlink vertex state.nextIndex
  stack := vertex :: state.stack
  onStack := Function.update state.onStack vertex true
  components := state.components

/-- `lowlink[vertex] = lowlink[vertex].min(index)`. -/
def lower (state : Tarjan) (vertex index : Nat) : Tarjan :=
  { state with
    lowlink := Function.update state.lowlink vertex (min (state.lowlink vertex) index) }

def popComponent (root : Nat) : List Nat → Option (List Nat × List Nat)
  | [] => none
  | member :: rest =>
      if member = root then some ([member], rest)
      else (popComponent root rest).map fun popped => (member :: popped.1, popped.2)

def emit (state : Tarjan) (root : Nat) : Option Tarjan :=
  (popComponent root state.stack).map fun popped =>
    { state with
      stack := popped.2
      onStack := popped.1.foldl (fun onStack member => Function.update onStack member false)
        state.onStack
      components := state.components ++ [popped.1.insertionSort (· ≤ ·)] }

/-- The frame has no edge left. -/
def complete (state : Tarjan) (completed : DfsFrame) : Option Tarjan :=
  let state :=
    match completed.parent with
    | some parent => state.lower parent (state.lowlink completed.vertex)
    | none => state
  (state.indices completed.vertex).bind fun index =>
    if state.lowlink completed.vertex = index then state.emit completed.vertex else some state

/-- One turn of the loop with the top frame and those below; `none` is a panic. -/
def visitStep (graph : AddressGraph) (state : Tarjan) (frame : DfsFrame)
    (frames : List DfsFrame) : Option (Tarjan × List DfsFrame) :=
  (graph.offsets[frame.vertex + 1]?).bind fun stop =>
    if frame.nextEdge < stop then
      (graph.edges[frame.nextEdge]?).bind fun next =>
        let advanced := { frame with nextEdge := frame.nextEdge + 1 }
        match state.indices next with
        | none =>
            (graph.offsets[next]?).map fun start =>
              (state.discover next, ⟨next, start, some frame.vertex⟩ :: advanced :: frames)
        | some index =>
            if state.onStack next then some (state.lower frame.vertex index, advanced :: frames)
            else some (state, advanced :: frames)
    else
      (state.complete frame).map fun state => (state, frames)

/-- The loop of `visit_iterative`, with as many turns as there is fuel. -/
def visitLoop (graph : AddressGraph) : Nat → Tarjan → List DfsFrame → Option Tarjan
  | _, state, [] => some state
  | 0, _, _ :: _ => none
  | fuel + 1, state, frame :: frames =>
      (visitStep graph state frame frames).bind fun next => visitLoop graph fuel next.1 next.2

def visitIterative (graph : AddressGraph) (fuel : Nat) (state : Tarjan) (start : Nat) :
    Option Tarjan :=
  (graph.offsets[start]?).bind fun offset =>
    visitLoop graph fuel (state.discover start) [⟨start, offset, none⟩]

end Tarjan

/-- `none` is a panic, or a visit that takes more turns than there is fuel. -/
def AddressGraph.stronglyConnectedComponents (graph : AddressGraph) (fuel : Nat) :
    Option (List (List Nat)) :=
  ((List.range graph.addresses.length).foldlM
    (fun (state : Tarjan) vertex =>
      if (state.indices vertex).isNone then Tarjan.visitIterative graph fuel state vertex
      else some state)
    Tarjan.new).map Tarjan.components

namespace AddressGraph

def targets (graph : AddressGraph) (vertex : Nat) : List Nat :=
  (rowAt graph.offsets graph.edges vertex).getD []

def Edge (graph : AddressGraph) (vertex next : Nat) : Prop := next ∈ graph.targets vertex

def IsCsr (graph : AddressGraph) (rows : List (List Nat)) : Prop :=
  rows.length = graph.addresses.length ∧ graph.offsets = (rows.map List.length).partialSums ∧
    graph.edges = rows.flatten ∧ ∀ next ∈ graph.edges, next < graph.addresses.length

theorem IsCsr.targets_eq {graph : AddressGraph} {rows : List (List Nat)}
    (isCsr : graph.IsCsr rows) {vertex : Nat} (inside : vertex < rows.length) :
    graph.targets vertex = rows[vertex] := by
  rw [targets, isCsr.2.1, isCsr.2.2.1, rowAt_partialSums rows inside, Option.getD_some]

theorem IsCsr.targets_eq_nil {graph : AddressGraph} {rows : List (List Nat)}
    (isCsr : graph.IsCsr rows) {vertex : Nat} (outside : rows.length ≤ vertex) :
    graph.targets vertex = [] := by
  have missing : graph.offsets[vertex + 1]? = none := by
    rw [isCsr.2.1, List.getElem?_eq_none_iff, length_partialSums, length_map]
    omega
  rw [targets, rowAt, missing]
  cases graph.offsets[vertex]? <;> rfl

/-! ## Building -/

theorem getElem?_countEdges (edgePairs : List (Nat × Nat)) (offsets : List Nat) (index : Nat) :
    (countEdges offsets edgePairs)[index]? =
      offsets[index]?.map (· + edgePairs.countP fun pair => pair.1 + 1 = index) := by
  induction edgePairs generalizing offsets with
  | nil =>
      rw [countEdges, foldl_nil]
      cases offsets[index]? <;> simp
  | cons pair edgePairs induction =>
      rw [countEdges, foldl_cons, ← countEdges, induction, List.getElem?_modify,
        countP_cons]
      cases offsets[index]? with
      | none => simp
      | some count =>
          by_cases same : pair.1 + 1 = index
          · simp [same, Nat.add_assoc, Nat.add_comm]
          · simp [same]

theorem getElem?_addUp (counts : List Nat) {count : Nat} (fits : count ≤ counts.length)
    (index : Nat) :
    (addUp (0 :: counts) count)[index]? =
      if index ≤ count then some (counts.take index).sum else (0 :: counts)[index]? := by
  induction count generalizing index with
  | zero =>
      rw [addUp, range_zero, foldl_nil]
      split
      · next isZero =>
          rw [Nat.le_zero.mp isZero]
          rfl
      · rfl
  | succ count induction =>
      have before := induction (by omega)
      have atCount : (addUp (0 :: counts) count).getD count 0 = (counts.take count).sum := by
        rw [getD_eq_getElem?_getD, before, if_pos le_rfl, Option.getD_some]
      rw [addUp, range_succ, List.foldl_append, foldl_cons, foldl_nil, ← addUp,
        atCount, List.getElem?_modify, before]
      have inside : count < counts.length := by omega
      rcases Nat.lt_trichotomy index (count + 1) with below | same | above
      · rw [if_pos (by omega), if_pos (by omega)]
        simp [below.ne']
      · subst same
        rw [if_neg (by omega), if_pos le_rfl, List.getElem?_cons_succ,
          List.getElem?_eq_getElem inside, take_add_one, List.getElem?_eq_getElem inside,
          sum_append]
        simp [Nat.add_comm]
      · rw [if_neg (by omega), if_neg (by omega)]
        simp [above.ne]

theorem addUp_eq_partialSums (counts : List Nat) :
    addUp (0 :: counts) counts.length = counts.partialSums := by
  apply ext_getElem?
  intro index
  rw [getElem?_addUp counts le_rfl, List.getElem?_partialSums]
  split
  · rfl
  · rw [List.getElem?_eq_none_iff, length_cons]
    omega

section Build

variable (pairs : List (Text × Text))

theorem addressesOf_sorted : (addressesOf pairs).Pairwise (· < ·) := by
  have sorted := pairwise_insertionSort (· ≤ ·)
    (pairs.flatMap fun pair => [pair.1, pair.2]).dedup
  have nodup := (perm_insertionSort (· ≤ ·)
    (pairs.flatMap fun pair => [pair.1, pair.2]).dedup).nodup_iff.mpr (nodup_dedup _)
  exact (sorted.and nodup).imp fun both => lt_of_le_of_ne both.1 both.2

theorem mem_addressesOf {address : Text} :
    address ∈ addressesOf pairs ↔ ∃ pair ∈ pairs, address = pair.1 ∨ address = pair.2 := by
  rw [addressesOf, mem_insertionSort, mem_dedup, mem_flatMap]
  simp only [mem_cons, not_mem_nil, or_false]

theorem edgePairs_sorted (addresses : List Text) :
    (edgePairs addresses pairs).Pairwise fun left right => toLex left < toLex right := by
  have total : Std.Total fun left right : Nat × Nat => toLex left ≤ toLex right :=
    ⟨fun left right => le_total (toLex left) (toLex right)⟩
  have trans : IsTrans (Nat × Nat) fun left right => toLex left ≤ toLex right :=
    ⟨fun _ _ _ => le_trans⟩
  have antisymmetric : Std.Antisymm fun left right : Nat × Nat => toLex left ≤ toLex right :=
    ⟨fun _ _ above below => toLex.injective (le_antisymm above below)⟩
  apply (pairwise_destutter (pairwise_insertionSort
    (fun left right : Nat × Nat => toLex left ≤ toLex right) _)).imp
  intro left right both
  exact lt_of_le_of_ne both.1 fun equal => both.2 (toLex.injective equal)

theorem mem_edgePairs {addresses : List Text} {edge : Nat × Nat} :
    edge ∈ edgePairs addresses pairs ↔
      ∃ pair ∈ pairs, (addresses.idxOf pair.1, addresses.idxOf pair.2) = edge := by
  rw [edgePairs, mem_destutter, mem_insertionSort, mem_map]

theorem idxOf_inside {pair : Text × Text} (member : pair ∈ pairs) :
    (addressesOf pairs).idxOf pair.1 < (addressesOf pairs).length ∧
      (addressesOf pairs).idxOf pair.2 < (addressesOf pairs).length :=
  ⟨idxOf_lt_length_of_mem ((mem_addressesOf pairs).mpr ⟨pair, member, .inl rfl⟩),
    idxOf_lt_length_of_mem ((mem_addressesOf pairs).mpr ⟨pair, member, .inr rfl⟩)⟩

def rows : List (List Nat) :=
  (List.range (addressesOf pairs).length).map fun vertex =>
    ((edgePairs (addressesOf pairs) pairs).filter fun pair => pair.1 = vertex).map Prod.snd

theorem countEdges_eq :
    countEdges (List.replicate ((addressesOf pairs).length + 1) 0)
      (edgePairs (addressesOf pairs) pairs) = 0 :: (rows pairs).map List.length := by
  apply ext_getElem?
  intro index
  rw [getElem?_countEdges, List.getElem?_replicate]
  cases index with
  | zero => simp
  | succ vertex =>
      rw [List.getElem?_cons_succ, rows, map_map, List.getElem?_map]
      by_cases inside : vertex < (addressesOf pairs).length
      · rw [if_pos (by omega), List.getElem?_range inside]
        simp [countP_eq_length_filter]
      · rw [if_neg (by omega), List.getElem?_eq_none (by simpa using inside)]
        rfl

theorem rows_flatten :
    (rows pairs).flatten = (edgePairs (addressesOf pairs) pairs).map Prod.snd := by
  have sorted := edgePairs_sorted pairs (addressesOf pairs)
  have inside : ∀ edge ∈ edgePairs (addressesOf pairs) pairs,
      edge.1 ∈ List.range (addressesOf pairs).length := by
    intro edge member
    rcases (mem_edgePairs pairs).mp member with ⟨pair, isPair, rfl⟩
    exact mem_range.mpr (idxOf_inside pairs isPair).1
  have perm := @flatMap_filter_perm _ _ _ Prod.fst _ nodup_range _ inside
  rw [rows]
  generalize edgePairs (addressesOf pairs) pairs = edges at sorted perm ⊢
  have grouped : ((List.range (addressesOf pairs).length).flatMap fun vertex =>
      edges.filter fun edge => decide (edge.1 = vertex)) = edges := by
    have ordered : ((List.range (addressesOf pairs).length).flatMap fun vertex =>
        edges.filter fun edge => decide (edge.1 = vertex)).Pairwise
          fun left right => toLex left < toLex right := by
      rw [pairwise_flatMap]
      refine ⟨fun vertex _ => sorted.sublist filter_sublist, ?_⟩
      apply pairwise_lt_range.imp
      intro left right less first isFirst second isSecond
      rw [mem_filter, decide_eq_true_iff] at isFirst isSecond
      rw [Prod.Lex.toLex_lt_toLex]
      left
      rwa [isFirst.2, isSecond.2]
    exact perm.eq_of_pairwise (fun left right _ _ less more => absurd less more.not_gt) ordered
      sorted
  have mapped := congrArg (List.map Prod.snd) grouped
  rw [map_flatMap] at mapped
  exact mapped

theorem build_isCsr : (build pairs).IsCsr (rows pairs) := by
  refine ⟨by simp [rows, build], ?_, (rows_flatten pairs).symm, ?_⟩
  · have counts := addUp_eq_partialSums ((rows pairs).map List.length)
    rw [length_map, rows, length_map, length_range, ← rows] at counts
    rw [build, countEdges_eq]
    exact counts
  · intro next member
    rcases mem_map.mp member with ⟨edge, isEdge, rfl⟩
    rcases (mem_edgePairs pairs).mp isEdge with ⟨pair, isPair, rfl⟩
    exact (idxOf_inside pairs isPair).2

end Build

end AddressGraph

example :
    (AddressGraph.build [("b".toList, "a".toList), ("a".toList, "b".toList),
      ("b".toList, "c".toList)]).stronglyConnectedComponents 9 = some [[2], [0, 1]] := by
  decide +kernel

end NftData.Analysis2
