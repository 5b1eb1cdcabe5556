import NftData.Analysis2.Analysis.TarjanSteps

namespace NftData.Analysis2

/-! # Runs of the search

Every turn of the search lowers the work that is left, and the search ends with all components. -/

open List
open Option (bind_some getD_some isNone_iff_eq_none map_none map_some some_ne_none)

section Frames

variable {graph : AddressGraph} {rows : List (List Nat)} {vertex : Nat}

theorem AddressGraph.IsCsr.offsets_next (isCsr : graph.IsCsr rows)
    (inside : vertex < graph.addresses.length) :
    ∃ start stop, graph.offsets[vertex]? = some start ∧ graph.offsets[vertex + 1]? = some stop ∧
      stop ≤ graph.edges.length ∧ graph.targets vertex = (graph.edges.take stop).drop start := by
  have inRows : vertex < rows.length := isCsr.1 ▸ inside
  rcases slice_partialSums rows inRows with ⟨startAt, stopAt, slice⟩
  rw [← isCsr.2.1] at startAt stopAt
  rw [← isCsr.2.2.1] at slice
  refine ⟨_, _, startAt, stopAt, ?_, (isCsr.targets_eq inRows).trans slice.symm⟩
  rw [isCsr.2.2.1, length_flatten]
  exact (take_sublist _ _).sum_le_sum (by simp)

theorem DfsFrame.remaining_start (isCsr : graph.IsCsr rows) {offset : Nat}
    (inside : vertex < graph.addresses.length) (isOffset : graph.offsets[vertex]? = some offset)
    (parent : Option Nat) :
    (DfsFrame.mk vertex offset parent).remaining graph = graph.targets vertex := by
  rcases isCsr.offsets_next inside with ⟨start, stop, isStart, isStop, _, isTargets⟩
  rw [isStart] at isOffset
  cases isOffset
  rw [isTargets, DfsFrame.remaining, isStop]

/-- Where a frame stands in its row. -/
theorem DfsFrame.remaining_cases (isCsr : graph.IsCsr rows) {frame : DfsFrame}
    (inside : frame.vertex < graph.addresses.length) :
    ∃ stop, graph.offsets[frame.vertex + 1]? = some stop ∧
      (stop ≤ frame.nextEdge ∧ frame.remaining graph = [] ∨
        ∃ next, frame.nextEdge < stop ∧ graph.edges[frame.nextEdge]? = some next ∧
          next < graph.addresses.length ∧ frame.remaining graph =
            next :: { frame with nextEdge := frame.nextEdge + 1 }.remaining graph) := by
  rcases isCsr.offsets_next inside with ⟨_, stop, _, isStop, fits, _⟩
  refine ⟨stop, isStop, ?_⟩
  have length : (graph.edges.take stop).length = stop := length_take_of_le fits
  simp only [DfsFrame.remaining, isStop]
  rcases Nat.lt_or_ge frame.nextEdge stop with before | after
  · right
    have isEdge : frame.nextEdge < graph.edges.length := before.trans_le fits
    refine ⟨graph.edges[frame.nextEdge], before, List.getElem?_eq_getElem isEdge,
      isCsr.2.2.2 _ (getElem_mem isEdge), ?_⟩
    rw [drop_eq_getElem_cons (length.symm ▸ before), getElem_take]
  · left
    exact ⟨after, drop_eq_nil_of_le (length.symm ▸ after)⟩

end Frames

variable {fuel : Nat}

namespace Tarjan

section Turns

variable {graph : AddressGraph} {rows : List (List Nat)} {state : Tarjan} {frame : DfsFrame}
  {frames : List DfsFrame}

/-! ## Turns -/

variable {next : Nat}

theorem Visiting.advanced (visiting : Visiting graph state (frame :: frames))
    (remaining : frame.remaining graph =
      next :: { frame with nextEdge := frame.nextEdge + 1 }.remaining graph) :
    Advanced graph next (frame :: frames)
      ({ frame with nextEdge := frame.nextEdge + 1 } :: frames) where
  vertices := rfl
  parents := id
  remains := by
    intro other member
    rcases mem_cons.mp member with rfl | below
    · refine ⟨frame, mem_cons_self, rfl, fun target isTarget => ?_⟩
      rw [remaining]
      exact mem_cons_of_mem _ isTarget
    · exact ⟨other, mem_cons_of_mem _ below, rfl, fun _ isTarget => isTarget⟩
  kept := by
    intro other member target isTarget
    rcases mem_cons.mp member with rfl | below
    · rw [remaining] at isTarget
      rcases mem_cons.mp isTarget with isNext | later
      · exact .inl ⟨rfl, isNext⟩
      · exact .inr ⟨_, mem_cons_self, rfl, later⟩
    · exact .inr ⟨other, mem_cons_of_mem _ below, rfl, isTarget⟩
  edge := by
    intro other isHead
    rw [← Option.some.inj isHead]
    apply visiting.remains frame mem_cons_self next
    rw [remaining]
    exact mem_cons_self

/-- The edges and vertices that are not visited, and the edges that the frames have left. -/
def work (graph : AddressGraph) (state : Tarjan) (frames : List DfsFrame) : Nat :=
  ∑ vertex ∈ Finset.range graph.addresses.length,
    (if (state.indices vertex).isSome then 0 else (graph.targets vertex).length + 1) +
  (frames.map fun frame => (frame.remaining graph).length + 1).sum

theorem work_congr {after : Tarjan} (same : after.indices = state.indices)
    (frames : List DfsFrame) : work graph after frames = work graph state frames := by
  rw [work, work, same]

/-- The work on a new vertex goes from the vertices to the frames. -/
theorem work_discover (fresh : ¬ state.Visited next) (inside : next < graph.addresses.length)
    (frames : List DfsFrame) :
    work graph (state.discover next) frames + ((graph.targets next).length + 1) =
      work graph state frames := by
  have isNext : next ∈ Finset.range graph.addresses.length := Finset.mem_range.mpr inside
  have others : ∀ vertex ∈ (Finset.range graph.addresses.length).erase next,
      (if ((state.discover next).indices vertex).isSome then 0
        else (graph.targets vertex).length + 1) =
      if (state.indices vertex).isSome then 0 else (graph.targets vertex).length + 1 := by
    intro vertex member
    have same : (state.discover next).indices vertex = state.indices vertex :=
      Function.update_of_ne (Finset.ne_of_mem_erase member) ..
    rw [same]
  have own : ((state.discover next).indices next).isSome = true :=
    (visited_discover state next next).mpr (.inl rfl)
  have unseen : ¬ (state.indices next).isSome = true := fresh
  rw [work, work, ← Finset.add_sum_erase _ _ isNext, ← Finset.add_sum_erase _ _ isNext,
    Finset.sum_congr rfl others, if_pos own, if_neg unseen]
  omega

variable {rest : List DfsFrame} {parent : DfsFrame}

theorem Visiting.parent_lt (visiting : Visiting graph state (frame :: parent :: rest)) :
    parent.vertex ∈ state.stack ∧ state.indexOf parent.vertex < state.indexOf frame.vertex := by
  rcases visiting.segments.split with ⟨above, below, isStack, _, _, _, segments⟩
  have isBelow : parent.vertex ∈ below := segments.sublist.mem mem_cons_self
  have descending := visiting.descending
  rw [isStack] at descending
  refine ⟨isStack ▸ mem_append_right _ (mem_cons_of_mem _ isBelow), ?_⟩
  exact (pairwise_cons.mp (pairwise_append.mp descending).2.1).1 _ isBelow

theorem Visiting.complete_root (visiting : Visiting graph state (frame :: frames))
    (own : state.indices frame.vertex = some (state.indexOf frame.vertex))
    (isRoot : state.lowlink frame.vertex = state.indexOf frame.vertex) :
    state.complete frame = state.emit frame.vertex := by
  have isParent := visiting.parents.1
  cases frames with
  | nil =>
      rw [complete, isParent]
      simp only [List.head?_nil, map_none, own, bind_some, isRoot, if_true]
  | cons parent rest =>
      -- The parent has a lower index already.
      have less := visiting.parent_lt
      have unchanged : state.lower parent.vertex (state.lowlink frame.vertex) = state := by
        have kept : min (state.lowlink parent.vertex) (state.lowlink frame.vertex) =
            state.lowlink parent.vertex := by
          have atMost := visiting.low_le parent.vertex less.1
          omega
        rw [Tarjan.lower, kept, Function.update_eq_self]
      rw [complete, isParent]
      simp only [List.head?_cons, map_some, unchanged]
      rw [own, bind_some, if_pos isRoot]

theorem Visiting.complete_parent (visiting : Visiting graph state (frame :: parent :: rest))
    (own : state.indices frame.vertex = some (state.indexOf frame.vertex))
    (noRoot : state.lowlink frame.vertex ≠ state.indexOf frame.vertex) :
    state.complete frame =
      some (state.lower parent.vertex (state.lowlink frame.vertex)) := by
  have different : frame.vertex ≠ parent.vertex := by
    intro equal
    have less := visiting.parent_lt.2
    rw [equal] at less
    exact lt_irrefl _ less
  have kept := lowlink_lower_of_ne state (state.lowlink frame.vertex) different
  have ownAlso : (state.lower parent.vertex (state.lowlink frame.vertex)).indices frame.vertex =
      some (state.indexOf frame.vertex) := own
  rw [complete, visiting.parents.1]
  simp only [List.head?_cons, map_some]
  have apart : (state.lower parent.vertex (state.lowlink frame.vertex)).lowlink frame.vertex ≠
      state.indexOf frame.vertex := fun equal => noRoot (kept.symm.trans equal)
  rw [ownAlso, bind_some]
  exact if_neg apart

/-- A turn keeps what holds, visits more and lowers the work. -/
theorem Visiting.step (isCsr : graph.IsCsr rows)
    (visiting : Visiting graph state (frame :: frames)) :
    ∃ after framesAfter, visitStep graph state frame frames = some (after, framesAfter) ∧
      Visiting graph after framesAfter ∧
      (∀ vertex, state.Visited vertex → after.Visited vertex) ∧
      work graph after framesAfter + 1 = work graph state (frame :: frames) := by
  have onStack : frame.vertex ∈ state.stack := visiting.segments.sublist.mem mem_cons_self
  have inside := (visiting.indexLt _ (visiting.visited _ onStack)).2
  rcases DfsFrame.remaining_cases isCsr inside with ⟨stop, isStop, position⟩
  rw [visitStep, isStop, bind_some]
  rcases position with ⟨atEnd, done⟩ | ⟨next, before, isEdge, isVertex, remaining⟩
  · rw [if_neg atEnd.not_gt]
    have own := indices_eq (visiting.visited _ onStack)
    have workEq : work graph state frames + 1 = work graph state (frame :: frames) := by
      rw [work, work, map_cons, sum_cons, done, length_nil]
      omega
    by_cases isRoot : state.lowlink frame.vertex = state.indexOf frame.vertex
    · rcases visiting.emit done isRoot with ⟨after, emitted, keeps, same⟩
      refine ⟨after, frames, ?_, keeps, fun vertex visited => ?_, ?_⟩
      · rw [visiting.complete_root own isRoot, emitted, map_some]
      · rwa [Visited, same]
      · rw [work_congr same, workEq]
    · rcases visiting.leave done isRoot with ⟨parent, rest, rfl, isParent, keeps⟩
      refine ⟨_, _, ?_, keeps, fun vertex visited => visited, ?_⟩
      · rw [visiting.complete_parent own isRoot, map_some]
      · exact (congrArg (· + 1) (work_congr rfl _)).trans workEq
  · rw [if_pos before, isEdge, bind_some]
    have advanced := visiting.advanced remaining
    have workEq : work graph state ({ frame with nextEdge := frame.nextEdge + 1 } :: frames) + 1 =
        work graph state (frame :: frames) := by
      rw [work, work, map_cons, map_cons, sum_cons, sum_cons, remaining,
        length_cons]
      omega
    cases isIndex : state.indices next with
    | none =>
        rcases isCsr.offsets_next isVertex with ⟨start, _, isStart, _, _, _⟩
        have fresh : ¬ state.Visited next := by
          rw [Visited, isIndex]
          exact Bool.false_ne_true
        have targets := DfsFrame.remaining_start isCsr isVertex isStart (some frame.vertex)
        simp only [isStart, map_some]
        refine ⟨_, _, rfl, visiting.discover advanced fresh isVertex rfl rfl targets,
          fun vertex visited => (visited_discover _ _ _).mpr (.inr visited), ?_⟩
        rw [← workEq, ← work_discover fresh isVertex, work, work, map_cons,
          sum_cons, targets]
        omega
    | some index =>
        have isNextIndex : state.indexOf next = index := by
          rw [indexOf, isIndex, getD_some]
        have known : state.Visited next := by
          rw [Visited, isIndex]
          rfl
        simp only
        by_cases nextOnStack : next ∈ state.stack
        · rw [if_pos ((visiting.onStack next).mpr nextOnStack)]
          have keeps := visiting.lower advanced rfl nextOnStack
          rw [isNextIndex] at keeps
          exact ⟨_, _, rfl, keeps, fun vertex visited => visited,
            (congrArg (· + 1) (work_congr rfl _)).trans workEq⟩
        · rw [if_neg (fun isOn => nextOnStack ((visiting.onStack next).mp isOn))]
          exact ⟨_, _, rfl, visiting.skip advanced known nextOnStack,
            fun vertex visited => visited, workEq⟩

theorem Visiting.visitLoop (isCsr : graph.IsCsr rows) (fuel : Nat)
    (visiting : Visiting graph state frames) (enough : work graph state frames ≤ fuel) :
    ∃ final, visitLoop graph fuel state frames = some final ∧ Visiting graph final [] ∧
      (∀ vertex, state.Visited vertex → final.Visited vertex) := by
  induction fuel generalizing state frames with
  | zero =>
      cases frames with
      | nil => exact ⟨state, by rw [Tarjan.visitLoop], visiting, fun _ visited => visited⟩
      | cons frame frames =>
          rw [work, map_cons, sum_cons] at enough
          omega
  | succ fuel induction =>
      cases frames with
      | nil => exact ⟨state, by rw [Tarjan.visitLoop], visiting, fun _ visited => visited⟩
      | cons frame frames =>
          rcases visiting.step isCsr with ⟨after, framesAfter, taken, keeps, grows, less⟩
          rcases induction keeps (by omega) with ⟨final, ran, finished, growsAlso⟩
          refine ⟨final, ?_, finished, fun vertex visited => growsAlso vertex (grows vertex visited)⟩
          rw [Tarjan.visitLoop, taken, bind_some]
          exact ran

theorem Visiting.visitIterative (isCsr : graph.IsCsr rows) {start : Nat}
    (visiting : Visiting graph state []) (fresh : ¬ state.Visited start)
    (inside : start < graph.addresses.length) (enough : work graph state [] ≤ fuel) :
    ∃ final, visitIterative graph fuel state start = some final ∧ Visiting graph final [] ∧
      (∀ vertex, state.Visited vertex → final.Visited vertex) ∧ final.Visited start := by
  rcases isCsr.offsets_next inside with ⟨offset, _, isOffset, _, _, _⟩
  have targets := DfsFrame.remaining_start isCsr inside isOffset none
  have begun : Visiting graph (state.discover start) [⟨start, offset, none⟩] :=
    visiting.discover (.nil graph start) fresh inside rfl rfl targets
  have sameWork : work graph (state.discover start) [⟨start, offset, none⟩] =
      work graph state [] := by
    rw [← work_discover fresh inside, work, work, map_cons, sum_cons, targets]
    omega
  rcases begun.visitLoop isCsr fuel (sameWork.trans_le enough) with ⟨final, ran, ended, grows⟩
  refine ⟨final, ?_, ended, fun vertex visited => grows vertex ?_, grows start ?_⟩
  · rw [Tarjan.visitIterative, isOffset, bind_some]
    exact ran
  · exact (visited_discover _ _ _).mpr (.inr visited)
  · exact (visited_discover _ _ _).mpr (.inl rfl)

theorem work_le (graph : AddressGraph) (state : Tarjan) :
    work graph state [] ≤
      ∑ vertex ∈ Finset.range graph.addresses.length, ((graph.targets vertex).length + 1) := by
  rw [work, map_nil, sum_nil, Nat.add_zero]
  apply Finset.sum_le_sum
  intro vertex _
  split
  · exact Nat.zero_le _
  · exact le_rfl

/-- Visiting some vertices one after the other. -/
theorem Visiting.foldlM (isCsr : graph.IsCsr rows)
    (enough : ∑ vertex ∈ Finset.range graph.addresses.length,
      ((graph.targets vertex).length + 1) ≤ fuel) (vertices : List Nat)
    (inside : ∀ vertex ∈ vertices, vertex < graph.addresses.length)
    (visiting : Visiting graph state []) :
    ∃ final, vertices.foldlM (fun (state : Tarjan) vertex =>
        if (state.indices vertex).isNone then Tarjan.visitIterative graph fuel state vertex
        else some state) state = some final ∧
      Visiting graph final [] ∧ (∀ vertex, state.Visited vertex → final.Visited vertex) ∧
      ∀ vertex ∈ vertices, final.Visited vertex := by
  induction vertices generalizing state with
  | nil => exact ⟨state, rfl, visiting, fun _ visited => visited, by simp⟩
  | cons vertex vertices induction =>
      have insideRest : ∀ other ∈ vertices, other < graph.addresses.length :=
        fun other member => inside other (mem_cons_of_mem _ member)
      rw [foldlM_cons]
      by_cases known : state.Visited vertex
      · rw [if_neg (by rw [isNone_iff_eq_none, indices_eq known]; exact some_ne_none _)]
        rcases induction insideRest visiting with ⟨final, ran, ended, grows, all⟩
        refine ⟨final, ran, ended, grows, fun other member => ?_⟩
        rcases mem_cons.mp member with rfl | later
        · exact grows other known
        · exact all other later
      · rw [if_pos (isNone_iff_eq_none.mpr (Option.not_isSome_iff_eq_none.mp known))]
        rcases visiting.visitIterative isCsr known (inside vertex mem_cons_self)
          ((work_le graph state).trans enough) with ⟨next, visited, keeps, growsFirst, own⟩
        rcases induction insideRest keeps with ⟨final, ran, ended, grows, all⟩
        refine ⟨final, ?_, ended, fun other known => grows other (growsFirst other known),
          fun other member => ?_⟩
        · rw [visited]
          exact ran
        · rcases mem_cons.mp member with rfl | later
          · exact grows other own
          · exact all other later

end Turns

end Tarjan

namespace AddressGraph

/-- The components are disjoint, they hold every vertex, and vertices are together exactly when
each reaches the other. -/
structure AreComponents (graph : AddressGraph) (components : List (List Nat)) : Prop where
  nodup : components.flatten.Nodup
  covers : ∀ vertex, vertex ∈ components.flatten ↔ vertex < graph.addresses.length
  isComponent : ∀ component ∈ components, IsComponent graph.Edge component

def turns (graph : AddressGraph) : Nat := graph.edges.length + graph.addresses.length

variable {rows : List (List Nat)} {graph : AddressGraph}

theorem IsCsr.sum_targets (isCsr : graph.IsCsr rows) :
    ∑ vertex ∈ Finset.range graph.addresses.length, ((graph.targets vertex).length + 1) =
      graph.turns := by
  have lengths : ∑ vertex ∈ Finset.range graph.addresses.length,
      (graph.targets vertex).length = graph.edges.length := by
    rw [isCsr.2.2.1, length_flatten, ← isCsr.1, ← Fin.sum_univ_eq_sum_range
      (fun vertex => (graph.targets vertex).length), ← sum_ofFn]
    congr 1
    apply ext_getElem
    · simp
    · intro index inside _
      rw [length_ofFn] at inside
      simp [isCsr.targets_eq inside]
  rw [Finset.sum_add_distrib, lengths, Finset.sum_const, Finset.card_range, smul_eq_mul, mul_one,
    turns]

/-- The search ends without a panic and finds the strong components. -/
theorem IsCsr.stronglyConnectedComponents (isCsr : graph.IsCsr rows) (enough : graph.turns ≤ fuel) :
    ∃ components, graph.stronglyConnectedComponents fuel = some components ∧
      graph.AreComponents components := by
  rcases (Tarjan.Visiting.new graph).foldlM isCsr (isCsr.sum_targets.trans_le enough)
    (List.range graph.addresses.length) (fun _ => mem_range.mp) with
    ⟨final, ran, ended, _, all⟩
  have noStack := ended.segments.stack_eq_nil
  refine ⟨final.components, by rw [AddressGraph.stronglyConnectedComponents, ran]; rfl,
    ended.nodup, fun vertex => ?_, fun component member => (ended.components component member).1⟩
  rw [ended.finished, noStack]
  constructor
  · exact fun finished => (ended.indexLt vertex finished.1).2
  · exact fun inside => ⟨all vertex (mem_range.mpr inside), not_mem_nil⟩

theorem build_edge_iff (pairs : List (Text × Text)) (vertex next : Nat) :
    (build pairs).Edge vertex next ↔
      ∃ pair ∈ pairs, (build pairs).addresses[vertex]? = some pair.1 ∧
        (build pairs).addresses[next]? = some pair.2 := by
  have nodup : (addressesOf pairs).Nodup := (addressesOf_sorted pairs).imp ne_of_lt
  have isIndex : ∀ {address index}, address ∈ addressesOf pairs →
      ((addressesOf pairs).idxOf address = index ↔
        (addressesOf pairs)[index]? = some address) := by
    intro address index member
    constructor
    · rintro rfl
      exact List.getElem?_idxOf member
    · intro isAddress
      rcases List.getElem?_eq_some_iff.mp isAddress with ⟨inside, rfl⟩
      exact nodup.idxOf_getElem index inside
  have edges : (build pairs).Edge vertex next ↔
      (vertex, next) ∈ edgePairs (addressesOf pairs) pairs := by
    by_cases inside : vertex < (rows pairs).length
    · rw [Edge, (build_isCsr pairs).targets_eq inside]
      simp [rows]
    · rw [Edge, (build_isCsr pairs).targets_eq_nil (Nat.le_of_not_lt inside)]
      constructor
      · exact fun member => absurd member not_mem_nil
      · intro member
        rcases (mem_edgePairs pairs).mp member with ⟨pair, isPair, isEdge⟩
        rw [Prod.mk.injEq] at isEdge
        have less := (idxOf_inside pairs isPair).1
        rw [isEdge.1] at less
        exact absurd (by simpa [rows] using less) inside
  rw [edges, mem_edgePairs]
  constructor
  · rintro ⟨pair, isPair, isEdge⟩
    rw [Prod.mk.injEq] at isEdge
    exact ⟨pair, isPair, (isIndex ((mem_addressesOf pairs).mpr ⟨pair, isPair, .inl rfl⟩)).mp isEdge.1,
      (isIndex ((mem_addressesOf pairs).mpr ⟨pair, isPair, .inr rfl⟩)).mp isEdge.2⟩
  · rintro ⟨pair, isPair, isFrom, isTo⟩
    refine ⟨pair, isPair, Prod.ext ?_ ?_⟩
    · exact (isIndex ((mem_addressesOf pairs).mpr ⟨pair, isPair, .inl rfl⟩)).mpr isFrom
    · exact (isIndex ((mem_addressesOf pairs).mpr ⟨pair, isPair, .inr rfl⟩)).mpr isTo

theorem build_targets_sorted (pairs : List (Text × Text)) (vertex : Nat) :
    ((build pairs).targets vertex).Pairwise (· < ·) := by
  by_cases inside : vertex < (rows pairs).length
  · rw [(build_isCsr pairs).targets_eq inside]
    simp only [rows, getElem_map, getElem_range, pairwise_map]
    apply ((edgePairs_sorted pairs (addressesOf pairs)).sublist filter_sublist).imp_of_mem
    intro left right isLeft isRight less
    rw [mem_filter, decide_eq_true_iff] at isLeft isRight
    rw [Prod.Lex.toLex_lt_toLex, isLeft.2, isRight.2] at less
    exact (less.resolve_left (lt_irrefl _)).2
  · rw [(build_isCsr pairs).targets_eq_nil (Nat.le_of_not_lt inside)]
    exact .nil

/-- The vertices of a built graph are the distinct addresses in order, its edges are the distinct
pairs, and the search ends without a panic with every vertex in exactly one component, two vertices
being together exactly when each reaches the other. -/
theorem build_stronglyConnectedComponents (pairs : List (Text × Text)) :
    (build pairs).addresses.Pairwise (· < ·) ∧
      (∀ address, address ∈ (build pairs).addresses ↔
        ∃ pair ∈ pairs, address = pair.1 ∨ address = pair.2) ∧
      (∃ rows, (build pairs).IsCsr rows) ∧
      (∀ vertex, ((build pairs).targets vertex).Pairwise (· < ·)) ∧
      (∀ vertex next, (build pairs).Edge vertex next ↔
        ∃ pair ∈ pairs, (build pairs).addresses[vertex]? = some pair.1 ∧
          (build pairs).addresses[next]? = some pair.2) ∧
      ∀ fuel, (build pairs).turns ≤ fuel →
        ∃ components, (build pairs).stronglyConnectedComponents fuel = some components ∧
          (build pairs).AreComponents components :=
  ⟨addressesOf_sorted pairs, fun _ => mem_addressesOf pairs, ⟨_, build_isCsr pairs⟩,
    build_targets_sorted pairs, build_edge_iff pairs,
    fun _ enough => (build_isCsr pairs).stronglyConnectedComponents enough⟩

end AddressGraph

end NftData.Analysis2
