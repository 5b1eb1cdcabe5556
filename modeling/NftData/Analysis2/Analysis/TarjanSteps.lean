import NftData.Analysis2.Analysis.TarjanSegments

namespace NftData.Analysis2

open Option
open List
open Relation (ReflTransGen)

/-! # Steps of the search

What holds in every turn of the search, for the vertices on the stack and for those that are in a
component. -/

def DfsFrame.remaining (graph : AddressGraph) (frame : DfsFrame) : List Nat :=
  match graph.offsets[frame.vertex + 1]? with
  | some stop => (graph.edges.take stop).drop frame.nextEdge
  | none => []

def Parents : List DfsFrame → Prop
  | [] => True
  | frame :: frames => frame.parent = frames.head?.map DfsFrame.vertex ∧ Parents frames

namespace Tarjan

def indexOf (state : Tarjan) (vertex : Nat) : Nat := (state.indices vertex).getD 0

def Visited (state : Tarjan) (vertex : Nat) : Prop := (state.indices vertex).isSome

variable {vertex : Nat} {state : Tarjan}

theorem indices_eq (visited : state.Visited vertex) :
    state.indices vertex = some (state.indexOf vertex) := by
  rcases isSome_iff_exists.mp visited with ⟨index, isIndex⟩
  rw [indexOf, isIndex, getD_some]

/-- The vertices of the stack belong to the frames, and the others that were visited are in the
components. -/
structure Visiting (graph : AddressGraph) (state : Tarjan) (frames : List DfsFrame) : Prop where
  segments : Segments graph.Edge state.lowlink (frames.map DfsFrame.vertex) state.stack
  parents : Parents frames
  remains : ∀ frame ∈ frames, ∀ next ∈ frame.remaining graph, graph.Edge frame.vertex next
  pending : ∀ vertex ∈ state.stack, ∀ next, graph.Edge vertex next →
    (∃ frame ∈ frames, frame.vertex = vertex ∧ next ∈ frame.remaining graph) ∨
      state.Visited next ∧ (next ∈ state.stack → state.lowlink vertex ≤ state.indexOf next)
  low_le : ∀ vertex ∈ state.stack, state.lowlink vertex ≤ state.indexOf vertex
  low_reached : ∀ vertex ∈ state.stack, ∃ other ∈ state.stack,
    state.indexOf other = state.lowlink vertex ∧ ReflTransGen graph.Edge vertex other
  descending : state.stack.Pairwise fun upper lower => state.indexOf lower < state.indexOf upper
  onStack : ∀ vertex, state.onStack vertex = true ↔ vertex ∈ state.stack
  visited : ∀ vertex ∈ state.stack, state.Visited vertex
  indexLt : ∀ vertex, state.Visited vertex →
    state.indexOf vertex < state.nextIndex ∧ vertex < graph.addresses.length
  finished : ∀ vertex, vertex ∈ state.components.flatten ↔
    state.Visited vertex ∧ vertex ∉ state.stack
  closed : Closed graph.Edge {vertex | vertex ∈ state.components.flatten}
  components : ∀ component ∈ state.components,
    IsComponent graph.Edge component ∧ component.Pairwise (· ≤ ·)
  nodup : state.components.flatten.Nodup

/-- The frames after the top frame has followed an edge, or before a visit starts. -/
structure Advanced (graph : AddressGraph) (next : Nat) (before after : List DfsFrame) :
    Prop where
  vertices : after.map DfsFrame.vertex = before.map DfsFrame.vertex
  parents : Parents before → Parents after
  remains : ∀ frame ∈ after, ∃ earlier ∈ before, earlier.vertex = frame.vertex ∧
    ∀ target ∈ frame.remaining graph, target ∈ earlier.remaining graph
  kept : ∀ frame ∈ before, ∀ target ∈ frame.remaining graph,
    (after.head?.map DfsFrame.vertex = some frame.vertex ∧ target = next) ∨
      ∃ later ∈ after, later.vertex = frame.vertex ∧ target ∈ later.remaining graph
  edge : ∀ frame ∈ after.head?, graph.Edge frame.vertex next

theorem Advanced.nil (graph : AddressGraph) (next : Nat) : Advanced graph next [] [] where
  vertices := rfl
  parents := id
  remains := fun _ member => absurd member not_mem_nil
  kept := fun _ member => absurd member not_mem_nil
  edge := fun _ member => absurd member (not_mem_none _)

theorem Visiting.nodup_stack {graph : AddressGraph} {frames : List DfsFrame}
    (visiting : Visiting graph state frames) : state.stack.Nodup :=
  visiting.descending.imp fun less equal => by
    subst equal
    exact lt_irrefl _ less

theorem Visiting.new (graph : AddressGraph) : Visiting graph new [] where
  segments := .nil
  parents := trivial
  remains := fun _ member => absurd member not_mem_nil
  pending := fun _ member => absurd member not_mem_nil
  low_le := fun _ member => absurd member not_mem_nil
  low_reached := fun _ member => absurd member not_mem_nil
  descending := .nil
  onStack := by simp [Tarjan.new]
  visited := fun _ member => absurd member not_mem_nil
  indexLt := fun _ visited => absurd visited Bool.false_ne_true
  finished := by simp [Tarjan.new, Visited]
  closed := fun _ member => absurd member not_mem_nil
  components := fun _ member => absurd member not_mem_nil
  nodup := .nil

section Steps

variable {graph : AddressGraph} {state : Tarjan} {frame : DfsFrame}
  {frames before after : List DfsFrame} {next : Nat}

/-! ## Following an edge -/

theorem Visiting.advance_remains (visiting : Visiting graph state before)
    (advanced : Advanced graph next before after) :
    ∀ frame ∈ after, ∀ target ∈ frame.remaining graph, graph.Edge frame.vertex target := by
  intro frame member target remains
  rcases advanced.remains frame member with ⟨earlier, isEarlier, same, subset⟩
  rw [← same]
  exact visiting.remains earlier isEarlier target (subset target remains)

@[simp] theorem indexOf_discover_self (state : Tarjan) (vertex : Nat) :
    (state.discover vertex).indexOf vertex = state.nextIndex := by
  simp [indexOf, discover]

variable {other : Nat}

theorem indexOf_discover_of_ne (state : Tarjan) (different : other ≠ vertex) :
    (state.discover vertex).indexOf other = state.indexOf other := by
  simp [indexOf, discover, different]

@[simp] theorem lowlink_discover_self (state : Tarjan) (vertex : Nat) :
    (state.discover vertex).lowlink vertex = state.nextIndex := Function.update_self ..

theorem lowlink_discover_of_ne (state : Tarjan) (different : other ≠ vertex) :
    (state.discover vertex).lowlink other = state.lowlink other :=
  Function.update_of_ne different ..

theorem visited_discover (state : Tarjan) (vertex other : Nat) :
    (state.discover vertex).Visited other ↔ other = vertex ∨ state.Visited other := by
  by_cases same : other = vertex
  · simp [Visited, discover, same]
  · simp [Visited, discover, same]

/-- A new vertex comes on top of the stack. -/
theorem Visiting.discover (visiting : Visiting graph state before)
    (advanced : Advanced graph next before after) (fresh : ¬ state.Visited next)
    (inside : next < graph.addresses.length) (isVertex : frame.vertex = next)
    (isParent : frame.parent = after.head?.map DfsFrame.vertex)
    (isTargets : frame.remaining graph = graph.targets next) :
    Visiting graph (state.discover next) (frame :: after) := by
  have freshStack : next ∉ state.stack := fun member => fresh (visiting.visited next member)
  have apart : ∀ vertex ∈ state.stack, vertex ≠ next :=
    fun vertex member => ne_of_mem_of_not_mem member freshStack
  refine
    { segments := ?_, parents := ?_, remains := ?_, pending := ?_, low_le := ?_,
      low_reached := ?_, descending := ?_, onStack := ?_, visited := ?_, indexLt := ?_,
      finished := ?_, closed := visiting.closed, components := visiting.components,
      nodup := visiting.nodup }
  · rw [map_cons, isVertex, advanced.vertices]
    apply visiting.segments.push freshStack
    intro parent isHead
    rw [← advanced.vertices, List.head?_map] at isHead
    rcases map_eq_some_iff.mp isHead with ⟨head, isFirst, rfl⟩
    exact advanced.edge head isFirst
  · exact ⟨isParent, advanced.parents visiting.parents⟩
  · intro other member target remains
    rcases mem_cons.mp member with rfl | isAfter
    · rw [isVertex]
      rwa [isTargets] at remains
    · exact visiting.advance_remains advanced other isAfter target remains
  · intro vertex member target edge
    rcases mem_cons.mp member with rfl | onStack
    · left
      exact ⟨frame, mem_cons_self, isVertex, isTargets ▸ edge⟩
    · have different := apart vertex onStack
      rcases visiting.pending vertex onStack target edge with ⟨earlier, isEarlier, same, remains⟩ | done
      · rcases advanced.kept earlier isEarlier target remains with ⟨_, rfl⟩ | ⟨later, isLater, kept⟩
        · right
          refine ⟨(visited_discover _ _ _).mpr (.inl rfl), fun _ => ?_⟩
          rw [indexOf_discover_self, lowlink_discover_of_ne _ different]
          exact (visiting.low_le vertex onStack).trans
            (visiting.indexLt vertex (visiting.visited vertex onStack)).1.le
        · left
          exact ⟨later, mem_cons_of_mem _ isLater, kept.1.trans same, kept.2⟩
      · right
        refine ⟨(visited_discover _ _ _).mpr (.inr done.1), fun isTarget => ?_⟩
        have known : target ≠ next := fun equal => fresh (equal ▸ done.1)
        rw [indexOf_discover_of_ne _ known, lowlink_discover_of_ne _ different]
        exact done.2 ((mem_cons.mp isTarget).resolve_left known)
  · intro vertex member
    rcases mem_cons.mp member with rfl | onStack
    · rw [indexOf_discover_self, lowlink_discover_self]
    · have different := apart vertex onStack
      rw [indexOf_discover_of_ne _ different, lowlink_discover_of_ne _ different]
      exact visiting.low_le vertex onStack
  · intro vertex member
    rcases mem_cons.mp member with rfl | onStack
    · refine ⟨vertex, mem_cons_self, ?_, .refl⟩
      rw [indexOf_discover_self, lowlink_discover_self]
    · rcases visiting.low_reached vertex onStack with ⟨other, isOther, isLow, reaches⟩
      refine ⟨other, mem_cons_of_mem _ isOther, ?_, reaches⟩
      rw [indexOf_discover_of_ne _ (apart other isOther), isLow,
        lowlink_discover_of_ne _ (apart vertex onStack)]
  · apply List.Pairwise.cons
    · intro other isOther
      have less := (visiting.indexLt other (visiting.visited other isOther)).1
      rw [indexOf_discover_self, indexOf_discover_of_ne _ (apart other isOther)]
      exact less
    · apply visiting.descending.imp_of_mem
      intro upper lower isUpper isLower less
      rw [indexOf_discover_of_ne _ (apart upper isUpper),
        indexOf_discover_of_ne _ (apart lower isLower)]
      exact less
  · intro vertex
    rw [Tarjan.discover, mem_cons]
    by_cases same : vertex = next
    · simp [same]
    · simp [same, visiting.onStack vertex]
  · intro vertex member
    exact (visited_discover _ _ _).mpr ((mem_cons.mp member).imp_right (visiting.visited vertex))
  · intro vertex visited
    rcases (visited_discover _ _ _).mp visited with rfl | earlier
    · rw [indexOf_discover_self]
      exact ⟨Nat.lt_succ_self _, inside⟩
    · have different : vertex ≠ next := fun equal => fresh (equal ▸ earlier)
      rw [indexOf_discover_of_ne _ different]
      exact ⟨(visiting.indexLt vertex earlier).1.trans (Nat.lt_succ_self _),
        (visiting.indexLt vertex earlier).2⟩
  · intro vertex
    rw [visited_discover, Tarjan.discover, mem_cons, visiting.finished vertex]
    by_cases same : vertex = next
    · simp [same, fresh]
    · simp [same]

/-- An edge that leads into a component changes nothing. -/
theorem Visiting.skip (visiting : Visiting graph state before)
    (advanced : Advanced graph next before after) (known : state.Visited next)
    (offStack : next ∉ state.stack) : Visiting graph state after := by
  refine
    { visiting with
      segments := ?_, parents := advanced.parents visiting.parents,
      remains := visiting.advance_remains advanced, pending := ?_ }
  · rw [advanced.vertices]
    exact visiting.segments
  · intro vertex member target edge
    rcases visiting.pending vertex member target edge with ⟨earlier, isEarlier, same, remains⟩ | done
    · rcases advanced.kept earlier isEarlier target remains with ⟨_, rfl⟩ | ⟨later, isLater, kept⟩
      · exact .inr ⟨known, fun onStack => absurd onStack offStack⟩
      · exact .inl ⟨later, isLater, kept.1.trans same, kept.2⟩
    · exact .inr done

theorem lowlink_lower_self (state : Tarjan) (vertex index : Nat) :
    (state.lower vertex index).lowlink vertex = min (state.lowlink vertex) index :=
  Function.update_self ..

theorem lowlink_lower_of_ne (state : Tarjan) (index : Nat) (different : other ≠ vertex) :
    (state.lower vertex index).lowlink other = state.lowlink other :=
  Function.update_of_ne different ..

theorem lowlink_lower_le (state : Tarjan) (vertex index other : Nat) :
    (state.lower vertex index).lowlink other ≤ state.lowlink other := by
  by_cases same : other = vertex
  · rw [same, lowlink_lower_self]
    exact min_le_left _ _
  · exact (lowlink_lower_of_ne state index same).le

/-- The lowlink stays the index of a vertex that is reached. -/
theorem Visiting.low_reached_lower {index : Nat} (visiting : Visiting graph state frames)
    (reached : ∃ other ∈ state.stack,
      state.indexOf other = index ∧ ReflTransGen graph.Edge vertex other) :
    ∀ member ∈ state.stack, ∃ other ∈ state.stack,
      state.indexOf other = (state.lower vertex index).lowlink member ∧
        ReflTransGen graph.Edge member other := by
  intro member isMember
  by_cases same : member = vertex
  · subst same
    rw [lowlink_lower_self]
    rcases le_total (state.lowlink member) index with kept | lowered
    · rw [min_eq_left kept]
      exact visiting.low_reached member isMember
    · rw [min_eq_right lowered]
      exact reached
  · rw [lowlink_lower_of_ne _ _ same]
    exact visiting.low_reached member isMember

/-- An edge to a vertex on the stack lowers the lowlink. -/
theorem Visiting.lower (visiting : Visiting graph state before)
    (advanced : Advanced graph next before after)
    (isTop : after.head?.map DfsFrame.vertex = some vertex) (onStack : next ∈ state.stack) :
    Visiting graph (state.lower vertex (state.indexOf next)) after := by
  rcases map_eq_some_iff.mp isTop with ⟨top, isHead, rfl⟩
  rcases List.head?_eq_some_iff.mp isHead with ⟨rest, isAfter⟩
  have edge := advanced.edge top isHead
  refine
    { visiting with
      segments := ?_, parents := advanced.parents visiting.parents,
      remains := visiting.advance_remains advanced, pending := ?_, low_le := ?_,
      low_reached := visiting.low_reached_lower ⟨next, onStack, rfl, .single edge⟩ }
  · have segments := visiting.segments
    rw [← advanced.vertices, isAfter, map_cons] at segments
    rw [isAfter, map_cons]
    exact segments.lower visiting.nodup_stack (min_le_left _ _)
  · intro member isMember target targetEdge
    rcases visiting.pending member isMember target targetEdge with
      ⟨earlier, isEarlier, same, remains⟩ | done
    · rcases advanced.kept earlier isEarlier target remains with
        ⟨atTop, rfl⟩ | ⟨later, isLater, kept⟩
      · have isVertex : top.vertex = member := by
          rw [isTop] at atTop
          exact (Option.some.inj atTop).trans same
        subst isVertex
        refine .inr ⟨visiting.visited target onStack, fun _ => ?_⟩
        rw [lowlink_lower_self]
        exact min_le_right _ _
      · exact .inl ⟨later, isLater, kept.1.trans same, kept.2⟩
    · exact .inr ⟨done.1, fun isTarget => (lowlink_lower_le ..).trans (done.2 isTarget)⟩
  · exact fun member isMember => (lowlink_lower_le ..).trans (visiting.low_le member isMember)

/-- When a frame is done, its vertex has no edge left. -/
theorem Visiting.pending_done (visiting : Visiting graph state (frame :: frames))
    (done : frame.remaining graph = []) :
    ∀ vertex ∈ state.stack, ∀ target, graph.Edge vertex target →
      (∃ frame ∈ frames, frame.vertex = vertex ∧ target ∈ frame.remaining graph) ∨
        state.Visited target ∧
          (target ∈ state.stack → state.lowlink vertex ≤ state.indexOf target) := by
  intro vertex member target edge
  rcases visiting.pending vertex member target edge with ⟨other, isOther, same, remains⟩ | known
  · rcases mem_cons.mp isOther with rfl | below
    · rw [done] at remains
      exact absurd remains not_mem_nil
    · exact .inl ⟨other, below, same, remains⟩
  · exact .inr known

/-- A vertex that is no root goes to its parent. -/
theorem Visiting.leave (visiting : Visiting graph state (frame :: frames))
    (done : frame.remaining graph = [])
    (noRoot : state.lowlink frame.vertex ≠ state.indexOf frame.vertex) :
    ∃ parent rest, frames = parent :: rest ∧ frame.parent = some parent.vertex ∧
      Visiting graph (state.lower parent.vertex (state.lowlink frame.vertex)) frames := by
  have isTop : frame.vertex ∈ state.stack :=
    visiting.segments.sublist.mem mem_cons_self
  have less := lt_of_le_of_ne (visiting.low_le _ isTop) noRoot
  rcases visiting.low_reached _ isTop with ⟨other, isOther, isLow, reaches⟩
  have leads : ∀ above below, state.stack = above ++ frame.vertex :: below →
      ∃ other ∈ below, ReflTransGen graph.Edge frame.vertex other := by
    intro above below isStack
    refine ⟨other, ?_, reaches⟩
    have descending := visiting.descending
    rw [isStack] at isOther descending
    rcases mem_append.mp isOther with isAbove | atLeast
    · have greater := (pairwise_append.mp descending).2.2 other isAbove frame.vertex
        mem_cons_self
      omega
    · rcases mem_cons.mp atLeast with rfl | below
      · omega
      · exact below
  cases frames with
  | nil =>
      rcases visiting.segments.split with ⟨above, below, isStack, _, _, _, rest⟩
      rcases leads above below isStack with ⟨_, isBelow, _⟩
      rw [rest.stack_eq_nil] at isBelow
      exact absurd isBelow not_mem_nil
  | cons parent rest =>
      rcases visiting.segments.split with ⟨_, _, _, edges, _, _, _⟩
      have edge : graph.Edge parent.vertex frame.vertex := edges parent.vertex rfl
      refine ⟨parent, rest, rfl, visiting.parents.1, ?_⟩
      refine
        { visiting with
          segments := visiting.segments.finish visiting.nodup_stack leads, parents := visiting.parents.2,
          remains := fun other member => visiting.remains other (mem_cons_of_mem _ member),
          pending := ?_, low_le := ?_,
          low_reached := visiting.low_reached_lower
            ⟨other, isOther, isLow, .head edge reaches⟩ }
      · intro member isMember target targetEdge
        rcases visiting.pending_done done member isMember target targetEdge with left | known
        · exact .inl left
        · exact .inr ⟨known.1, fun isTarget => (lowlink_lower_le ..).trans (known.2 isTarget)⟩
      · exact fun member isMember => (lowlink_lower_le ..).trans (visiting.low_le member isMember)

/-! ## Components -/

variable {above : List Nat}

theorem popComponent_append {root : Nat} (below : List Nat) (apart : root ∉ above) :
    popComponent root (above ++ root :: below) = some (above ++ [root], below) := by
  induction above with
  | nil => rw [nil_append, popComponent, if_pos rfl, nil_append]
  | cons member above induction =>
      rw [mem_cons, not_or] at apart
      rw [cons_append, popComponent, if_neg (Ne.symm apart.1), induction apart.2,
        map_some, cons_append]

theorem foldl_update_false (popped : List Nat) (onStack : Nat → Bool) (vertex : Nat) :
    popped.foldl (fun onStack member => Function.update onStack member false) onStack vertex =
      (onStack vertex && !decide (vertex ∈ popped)) := by
  induction popped generalizing onStack with
  | nil => simp
  | cons member popped induction =>
      rw [foldl_cons, induction]
      by_cases same : vertex = member
      · simp [same]
      · simp [same]

theorem Visiting.leads_root {below : List Nat} (visiting : Visiting graph state (frame :: frames))
    (done : frame.remaining graph = [])
    (isRoot : state.lowlink frame.vertex = state.indexOf frame.vertex)
    (isStack : state.stack = above ++ frame.vertex :: below)
    (low : ∀ other ∈ above, state.lowlink frame.vertex ≤ state.lowlink other)
    (rest : Segments graph.Edge state.lowlink (frames.map DfsFrame.vertex) below) :
    ∀ vertex ∈ above ++ [frame.vertex], ∀ next, graph.Edge vertex next →
      next ∈ above ++ [frame.vertex] ∨ next ∈ state.components.flatten := by
  have nodup := visiting.nodup_stack
  have descending := visiting.descending
  have wholeStack : state.stack = (above ++ [frame.vertex]) ++ below := by
    rw [isStack, List.append_assoc, singleton_append]
  rw [wholeStack] at nodup descending
  intro vertex member target edge
  have onStack : vertex ∈ state.stack := wholeStack ▸ mem_append_left _ member
  rcases visiting.pending_done done vertex onStack target edge with
    ⟨other, isOther, same, _⟩ | ⟨known, isLow⟩
  · have isBelow : vertex ∈ below :=
      rest.sublist.mem (mem_map.mpr ⟨other, isOther, same⟩)
    exact absurd isBelow (disjoint_of_nodup_append nodup member)
  · by_cases isTarget : target ∈ state.stack
    · left
      have atLeast : state.indexOf frame.vertex ≤ state.lowlink vertex := by
        rw [← isRoot]
        rcases mem_append.mp member with isAbove | atRoot
        · exact low vertex isAbove
        · rw [mem_singleton.mp atRoot]
      have reached := atLeast.trans (isLow isTarget)
      rw [wholeStack] at isTarget
      rcases mem_append.mp isTarget with inside | isBelow
      · exact inside
      · have less := (pairwise_append.mp descending).2.2 frame.vertex
          (mem_append_right _ (mem_singleton_self _)) target isBelow
        omega
    · exact .inr ((visiting.finished target).mpr ⟨known, isTarget⟩)

/-- The vertices above a root are its component. -/
theorem Visiting.emit (visiting : Visiting graph state (frame :: frames))
    (done : frame.remaining graph = [])
    (isRoot : state.lowlink frame.vertex = state.indexOf frame.vertex) :
    ∃ after, state.emit frame.vertex = some after ∧ Visiting graph after frames ∧
      after.indices = state.indices := by
  rcases visiting.segments.split with ⟨above, below, isStack, edges, connected, low, rest⟩
  have leads := visiting.leads_root done isRoot isStack low rest
  have nodup := visiting.nodup_stack
  have descending := visiting.descending
  have wholeStack : state.stack = (above ++ [frame.vertex]) ++ below := by
    rw [isStack, List.append_assoc, singleton_append]
  rw [wholeStack] at nodup descending
  have apart := disjoint_of_nodup_append nodup
  have popped : popComponent frame.vertex state.stack = some (above ++ [frame.vertex], below) := by
    rw [isStack]
    apply popComponent_append
    have separate := (nodup_append.mp (List.Nodup.of_append_left nodup)).2.2
    exact fun member => separate _ member _ (mem_singleton_self _) rfl
  have onStack : ∀ {vertex}, vertex ∈ below → vertex ∈ state.stack :=
    fun member => wholeStack ▸ mem_append_right _ member
  have isUpper : ∀ {vertex}, vertex ∈ above ++ [frame.vertex] → vertex ∈ state.stack :=
    fun member => wholeStack ▸ mem_append_left _ member
  have rootInside : frame.vertex ∈ above ++ [frame.vertex] :=
    mem_append_right _ (mem_singleton_self _)
  have together : ∀ vertex ∈ above ++ [frame.vertex],
      Connected graph.Edge frame.vertex vertex := by
    intro vertex member
    rcases mem_append.mp member with isAbove | atRoot
    · exact connected vertex isAbove
    · rw [mem_singleton.mp atRoot]
      exact .refl _
  generalize above ++ [frame.vertex] = members at *
  have stackMem : ∀ vertex, vertex ∈ state.stack ↔ vertex ∈ members ∨ vertex ∈ below :=
    fun vertex => by rw [wholeStack, mem_append]
  have sortedMem : ∀ vertex, vertex ∈ members.insertionSort (· ≤ ·) ↔ vertex ∈ members :=
    fun vertex => mem_insertionSort _
  have flattened : (state.components ++ [members.insertionSort (· ≤ ·)]).flatten =
      state.components.flatten ++ members.insertionSort (· ≤ ·) := by simp
  rw [Tarjan.emit, popped, map_some]
  refine ⟨_, rfl, ?_, rfl⟩
  refine
    { segments := rest, parents := visiting.parents.2,
      remains := fun other member => visiting.remains other (mem_cons_of_mem _ member),
      pending := ?_, low_le := fun vertex member => visiting.low_le vertex (onStack member),
      low_reached := ?_, descending := (pairwise_append.mp descending).2.1, onStack := ?_,
      visited := fun vertex member => visiting.visited vertex (onStack member),
      indexLt := visiting.indexLt, finished := ?_, closed := ?_, components := ?_, nodup := ?_ }
  · intro vertex member target edge
    rcases visiting.pending_done done vertex (onStack member) target edge with left | known
    · exact .inl left
    · exact .inr ⟨known.1, fun isTarget => known.2 (onStack isTarget)⟩
  · intro vertex member
    rcases visiting.low_reached vertex (onStack member) with ⟨other, isOther, isLow, reaches⟩
    refine ⟨other, ((stackMem other).mp isOther).resolve_left fun inside => ?_, isLow, reaches⟩
    have atMost := visiting.low_le vertex (onStack member)
    have less := (pairwise_append.mp descending).2.2 other inside vertex member
    omega
  · intro vertex
    simp only
    rw [foldl_update_false, Bool.and_eq_true, visiting.onStack, Bool.not_eq_true',
      decide_eq_false_iff_not, stackMem]
    constructor
    · rintro ⟨inside | isBelow, outside⟩
      · exact absurd inside outside
      · exact isBelow
    · exact fun isBelow => ⟨.inr isBelow, fun inside => apart inside isBelow⟩
  · intro vertex
    simp only
    rw [flattened, mem_append, visiting.finished, sortedMem, stackMem]
    constructor
    · rintro (⟨known, outside⟩ | inside)
      · exact ⟨known, fun isBelow => outside (.inr isBelow)⟩
      · exact ⟨visiting.visited vertex (isUpper inside), fun isBelow => apart inside isBelow⟩
    · rintro ⟨known, notBelow⟩
      by_cases inside : vertex ∈ members
      · exact .inr inside
      · exact .inl ⟨known, fun either => either.elim inside notBelow⟩
  · intro vertex member target edge
    simp only [Set.mem_ofPred_eq, flattened, mem_append, sortedMem] at member ⊢
    rcases member with isFinished | inside
    · exact .inl (visiting.closed vertex isFinished target edge)
    · exact (leads vertex inside target edge).symm
  · intro component member
    rcases mem_append.mp member with earlier | isNew
    · exact visiting.components component earlier
    · rw [mem_singleton.mp isNew]
      refine ⟨?_, pairwise_insertionSort _ _⟩
      apply isComponent_of_closed ((sortedMem frame.vertex).mpr rootInside)
      · exact fun vertex inside => together vertex ((sortedMem _).mp inside)
      · exact visiting.closed
      · intro vertex inside target edge
        rw [sortedMem]
        exact leads vertex ((sortedMem _).mp inside) target edge
      · intro vertex inside isFinished
        exact ((visiting.finished vertex).mp isFinished).2 (isUpper ((sortedMem _).mp inside))
  · simp only
    rw [flattened, nodup_append]
    refine ⟨visiting.nodup, (perm_insertionSort _ _).nodup_iff.mpr
      (List.Nodup.of_append_left nodup), ?_⟩
    rintro vertex isFinished _ inside rfl
    exact ((visiting.finished vertex).mp isFinished).2 (isUpper ((sortedMem _).mp inside))

end Steps

end Tarjan

end NftData.Analysis2
