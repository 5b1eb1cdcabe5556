import NftData.Foundation.LastByKey
import NftData.Foundation.StrongComponents
import NftData.Foundation.Text

namespace NftData.TopContracts

/-! # Wash trading

Sales among malicious addresses form a graph. Its strong components are found by two searches,
one along the edges and one against them. -/

open List
open Relation (ReflTransGen)

section Searches

variable {Node : Type*} [LinearOrder Node] (neighbors : Node → Finset Node)

def Edge (node other : Node) : Prop := other ∈ neighbors node

def reverse [Fintype Node] (node : Node) : Finset Node :=
  Finset.univ.filter fun other => node ∈ neighbors other

local instance transLE : IsTrans Node (· ≤ ·) := instIsTransLe

local instance antisymmLE : Std.Antisymm fun left right : Node => left ≤ right :=
  instAntisymmLe

/-- The neighbors that a visit pushes, the least one on top. -/
def pushed (visited : Finset Node) (node : Node) : List Node :=
  ((neighbors node).sort (· ≤ ·)).filter (· ∉ visited)

@[simp] theorem mem_pushed {visited : Finset Node} {node other : Node} :
    other ∈ pushed neighbors visited node ↔ Edge neighbors node other ∧ other ∉ visited := by
  simp [pushed, Edge]

theorem card_compl_insert_lt [Fintype Node] {visited : Finset Node} {node : Node} (fresh : node ∉ visited) :
    (insert node visited)ᶜ.card < visitedᶜ.card :=
  Finset.card_lt_card (Finset.compl_ssubset_compl.mpr (Finset.ssubset_insert fresh))

/-- The first search from a stack: the visited nodes and those that are finished, the last one
first. A node that was pushed twice is skipped the second time. -/
def finish [Fintype Node] (visited : Finset Node) (order : List Node) :
    List (Node × Bool) → Finset Node × List Node
  | [] => (visited, order)
  | (current, true) :: stack => finish visited (current :: order) stack
  | (current, false) :: stack =>
      if current ∈ visited then
        finish visited order stack
      else
        let visited := insert current visited
        finish visited order
          ((pushed neighbors visited current).map (·, false) ++ (current, true) :: stack)
termination_by stack => (visitedᶜ.card, stack.length)
decreasing_by
  · exact .right _ (Nat.lt_succ_self _)
  · exact .right _ (Nat.lt_succ_self _)
  · exact .left _ _ (card_compl_insert_lt ‹_›)

def searchFrom [Fintype Node] (state : Finset Node × List Node) (node : Node) : Finset Node × List Node :=
  if node ∈ state.1 then state else finish neighbors state.1 state.2 [(node, false)]

/-- The nodes in the order in which the first search finishes them, the last one first. -/
def finishOrder [Fintype Node] : List Node :=
  ((Finset.univ.sort (· ≤ ·)).foldl (searchFrom neighbors) (∅, [])).2

/-- The second search from a stack: the assigned nodes and the component. -/
def collect [Fintype Node] (assigned component : Finset Node) :
    List Node → Finset Node × Finset Node
  | [] => (assigned, component)
  | current :: stack =>
      if current ∈ assigned then
        collect assigned component stack
      else
        let assigned := insert current assigned
        collect assigned (insert current component)
          (pushed (reverse neighbors) assigned current ++ stack)
termination_by stack => (assignedᶜ.card, stack.length)
decreasing_by
  · exact .right _ (Nat.lt_succ_self _)
  · exact .left _ _ (card_compl_insert_lt ‹_›)

def assignComponents [Fintype Node] (assigned : Finset Node) : List Node → List (Finset Node)
  | [] => []
  | node :: order =>
      if node ∈ assigned then
        assignComponents assigned order
      else
        let (assigned, component) := collect neighbors assigned ∅ [node]
        component :: assignComponents assigned order

def stronglyConnectedComponents [Fintype Node] : List (Finset Node) :=
  assignComponents neighbors ∅ (finishOrder neighbors)

end Searches

/-! ## The finish order -/

variable {Node : Type*} {neighbors : Node → Finset Node} {order : List Node}
  {node other current root : Node}

/-- An edge that leaves the nodes finished so far comes from a node that is reached by its end. -/
def Leads (neighbors : Node → Finset Node) (order : List Node) : Prop :=
  ∀ before root after, order = before ++ root :: after → ∀ node ∈ root :: after, ∀ other,
    Edge neighbors node other → other ∉ root :: after → ReflTransGen (Edge neighbors) other root

section FinishOrder

variable {visited : Finset Node} {stack : List (Node × Bool)}

/-- Entries marked `true` are the nodes that are visited and not finished; each reaches what
stands above it. -/
structure Searching (neighbors : Node → Finset Node) (visited : Finset Node) (order : List Node)
    (stack : List (Node × Bool)) : Prop where
  leads : Leads neighbors order
  nodup : order.Nodup
  finished : ∀ node ∈ order, node ∈ visited
  marked : ∀ node, (node, true) ∈ stack ↔ node ∈ visited ∧ node ∉ order
  edges : ∀ node ∈ visited, ∀ other, Edge neighbors node other →
    other ∈ visited ∨ [(other, false), (node, true)] <+ stack
  chain : stack.Pairwise fun upper lower => lower.2 = true →
    ReflTransGen (Edge neighbors) lower.1 upper.1 ∧ upper ≠ lower

namespace Searching

theorem finishTop (searching : Searching neighbors visited order ((current, true) :: stack)) :
    Searching neighbors visited (current :: order) stack := by
  obtain ⟨leads, nodup, finished, marked, edges, chain⟩ := searching
  obtain ⟨top, chain⟩ := pairwise_cons.mp chain
  have notBelow : (current, true) ∉ stack := fun below => (top _ below rfl).2 rfl
  have isMarked := (marked current).mp mem_cons_self
  have edges : ∀ node ∈ visited, ∀ other, Edge neighbors node other →
      other ∈ visited ∨ [(other, false), (node, true)] <+ stack := by
    intro node seen other edge
    refine (edges node seen other edge).imp id fun above => ?_
    cases above with
    | cons _ above => exact above
  have markedBelow : ∀ node, (node, true) ∈ stack ↔ node ∈ visited ∧ node ∉ current :: order := by
    intro node
    have before := marked node
    grind
  refine ⟨?_, nodup_cons.mpr ⟨isMarked.2, nodup⟩, by grind, markedBelow, edges, chain⟩
  intro before root after split node inAfter other edge outside
  cases before with
  | nil =>
      obtain ⟨rfl, rfl⟩ := cons.inj split
      have seen : other ∈ visited := by
        refine (edges node (by grind) other edge).resolve_right fun above => ?_
        exact ((markedBelow node).mp (above.subset (by simp))).2 inAfter
      exact (top _ ((markedBelow other).mpr ⟨seen, outside⟩) rfl).1
  | cons head before =>
      exact leads before root after (cons.inj split).2 node inAfter other edge outside

/-- The entry of a visited node is taken off. -/
theorem drop (searching : Searching neighbors visited order ((current, false) :: stack))
    (seen : current ∈ visited) : Searching neighbors visited order stack := by
  refine { searching with marked := ?_, edges := ?_, chain := (pairwise_cons.mp searching.chain).2 }
  · exact fun node => by simpa using searching.marked node
  · intro node isSeen other edge
    rcases searching.edges node isSeen other edge with known | above
    · exact .inl known
    · cases above with
      | cons _ above => exact .inr above
      | cons_cons _ above => exact .inl seen

variable [LinearOrder Node]

/-- A new node is marked below the entries of its neighbors. -/
theorem push (searching : Searching neighbors visited order ((current, false) :: stack))
    (fresh : current ∉ visited) :
    Searching neighbors (insert current visited) order
      ((pushed neighbors (insert current visited) current).map (·, false) ++
        (current, true) :: stack) := by
  obtain ⟨leads, nodup, finished, marked, edges, chain⟩ := searching
  obtain ⟨top, chain⟩ := pairwise_cons.mp chain
  refine ⟨leads, nodup, fun node done => Finset.mem_insert_of_mem (finished node done), ?_, ?_, ?_⟩
  · intro node
    have before := marked node
    have unfinished : current ∉ order := fun done => fresh (finished current done)
    simp only [mem_append, mem_map, mem_cons, Prod.mk.injEq, Finset.mem_insert] at before ⊢
    grind
  · intro node seen other edge
    by_cases otherSeen : other ∈ insert current visited
    · exact .inl otherSeen
    · refine .inr ?_
      rcases Finset.mem_insert.mp seen with rfl | wasSeen
      · have isPushed := mem_map_of_mem (f := (·, false)) ((mem_pushed _).mpr ⟨edge, otherSeen⟩)
        exact (singleton_sublist.mpr isPushed).append (singleton_sublist.mpr mem_cons_self)
      · rcases edges node wasSeen other edge with known | above
        · exact absurd (Finset.mem_insert_of_mem known) otherSeen
        · cases above with
          | cons _ above => exact (above.cons _).trans (sublist_append_right _ _)
          | cons_cons _ above => exact absurd (Finset.mem_insert_self _ _) otherSeen
  · have below : ∀ entry ∈ stack, entry.2 = true →
        ReflTransGen (Edge neighbors) entry.1 current ∧ (current, true) ≠ entry := by
      intro entry member isMarked
      refine ⟨(top entry member isMarked).1, ?_⟩
      rintro rfl
      exact fresh ((marked current).mp (mem_cons_of_mem _ member)).1
    rw [pairwise_append]
    refine ⟨?_, pairwise_cons.mpr ⟨below, chain⟩, ?_⟩
    · apply pairwise_of_forall_mem_list
      grind
    · intro upper inMap lower member isMarked
      obtain ⟨node, isPushed, rfl⟩ := mem_map.mp inMap
      have edge := ((mem_pushed _).mp isPushed).1
      refine ⟨?_, by grind⟩
      rcases mem_cons.mp member with rfl | member
      · exact .single edge
      · exact (below lower member isMarked).1.tail edge

theorem start (searching : Searching neighbors visited order []) :
    Searching neighbors visited order [(current, false)] := by
  refine { searching with marked := ?_, edges := ?_, chain := pairwise_singleton _ _ }
  · simpa using searching.marked
  · intro node seen other edge
    exact .inl ((searching.edges node seen other edge).resolve_right (by simp))

variable [Fintype Node]

/-- The first search finishes what it has visited, which includes the nodes of its stack. -/
theorem run (searching : Searching neighbors visited order stack) :
    let (visited', order') := finish neighbors visited order stack
    Searching neighbors visited' order' [] ∧
      ∀ node, node ∈ visited ∨ (node, false) ∈ stack → node ∈ visited' := by
  fun_induction finish neighbors visited order stack with
  | case1 visited order => exact ⟨searching, by simp⟩
  | case2 visited order current stack induction =>
      obtain ⟨done, kept⟩ := induction searching.finishTop
      exact ⟨done, fun node before => kept node (by simpa using before)⟩
  | case3 visited order current stack seen induction =>
      obtain ⟨done, kept⟩ := induction (searching.drop seen)
      exact ⟨done, by grind⟩
  | case4 visited order current stack fresh inserted induction =>
      obtain ⟨done, kept⟩ := induction (searching.push fresh)
      exact ⟨done, by grind⟩

end Searching

theorem finishOrder_spec [LinearOrder Node] [Fintype Node] (neighbors : Node → Finset Node) :
    Leads neighbors (finishOrder neighbors) ∧ (finishOrder neighbors).Nodup ∧
      ∀ node, node ∈ finishOrder neighbors := by
  have run : ∀ nodes : List Node, let state := nodes.foldl (searchFrom neighbors) (∅, [])
      Searching neighbors state.1 state.2 [] ∧ ∀ node ∈ nodes, node ∈ state.1 := by
    intro nodes
    induction nodes using reverseRecOn with
    | nil => exact ⟨⟨by simp [Leads], by simp, by simp, by simp, by simp, .nil⟩, by simp⟩
    | append_singleton nodes node induction =>
        obtain ⟨searching, seen⟩ := induction
        rw [foldl_concat, searchFrom]
        split
        · next known => exact ⟨searching, by grind⟩
        · have started : Searching neighbors _ _ [(node, false)] := searching.start
          obtain ⟨done, kept⟩ := started.run
          exact ⟨done, by grind⟩
  obtain ⟨searching, seen⟩ := run (Finset.univ.sort (· ≤ ·))
  refine ⟨searching.leads, searching.nodup, fun node => ?_⟩
  by_contra unfinished
  simpa using (searching.marked node).mpr ⟨seen node (by simp), unfinished⟩

end FinishOrder

/-! ## The components -/

section Components

theorem exists_leaving {Edge : Node → Node → Prop} {members : Set Node}
    (reaches : ReflTransGen Edge node root) (inside : node ∈ members) (outside : root ∉ members) :
    ∃ last ∈ members, ∃ next ∉ members, Edge last next ∧ ReflTransGen Edge node next ∧
      ReflTransGen Edge next root := by
  induction reaches using ReflTransGen.head_induction_on with
  | refl => exact absurd inside outside
  | @head first next edge reaches induction =>
      by_cases stays : next ∈ members
      · obtain ⟨last, isLast, beyond, isBeyond, leaving, before, behind⟩ := induction stays
        exact ⟨last, isLast, beyond, isBeyond, leaving, before.head edge, behind⟩
      · exact ⟨first, inside, next, stays, edge, .single edge, reaches⟩

variable [LinearOrder Node] [Fintype Node]

theorem reaches_reverse :
    ReflTransGen (Edge (reverse neighbors)) node root ↔ ReflTransGen (Edge neighbors) root node := by
  have swapped : Edge (reverse neighbors) = Function.swap (Edge neighbors) := by
    funext first second
    simp [Edge, reverse, Function.swap]
  rw [swapped, Relation.reflTransGen_swap]

/-- The second search assigns what its stack reaches and the component keeps what is new. -/
theorem collect_spec {assigned : Finset Node} (component : Finset Node) (stack : List Node)
    (leads : ∀ node ∈ assigned, ∀ next, Edge (reverse neighbors) node next →
      next ∈ assigned ∨ next ∈ stack) :
    let (assigned', component') := collect neighbors assigned component stack
    Closed (Edge (reverse neighbors)) assigned' ∧
      (∀ node, node ∈ assigned ∨ node ∈ stack → node ∈ assigned') ∧
      (∀ node ∈ component, node ∈ component') ∧
      (∀ node ∈ assigned', node ∈ assigned ∨ node ∈ component') ∧
      ∀ node ∈ component', node ∈ component ∨
        node ∉ assigned ∧ ∃ top ∈ stack, ReflTransGen (Edge (reverse neighbors)) top node := by
  fun_induction collect neighbors assigned component stack with
  | case1 assigned component =>
      exact ⟨fun node member next edge => by simpa using leads node member next edge, by simp,
        by simp, by simp +contextual, by simp +contextual⟩
  | case2 assigned component current stack known induction =>
      obtain ⟨closed, reached, kept, added, found⟩ := induction (by grind)
      exact ⟨closed, by grind, kept, added, by grind⟩
  | case3 assigned component current stack fresh inserted induction =>
      obtain ⟨closed, reached, kept, added, found⟩ := induction (by grind [mem_pushed])
      refine ⟨closed, by grind, by grind, by grind, fun node member => ?_⟩
      rcases found node member with isCurrent | ⟨new, top, isTop, reaches⟩
      · refine (Finset.mem_insert.mp isCurrent).symm.imp id ?_
        rintro rfl
        exact ⟨fresh, node, mem_cons_self, .refl⟩
      · refine .inr ⟨fun seen => new (Finset.mem_insert_of_mem seen), ?_⟩
        rcases mem_append.mp isTop with isPushed | below
        · exact ⟨current, mem_cons_self, reaches.head ((mem_pushed _).mp isPushed).1⟩
        · exact ⟨top, mem_cons_of_mem _ below, reaches⟩

section Root

variable {assigned : Finset Node} {before after : List Node} (leads : Leads neighbors order)
  (nodup : order.Nodup) (covers : ∀ node, node ∈ order)
  (split : order = before ++ root :: after) (done : ∀ node ∈ before, node ∈ assigned)
  (closed : Closed (Edge (reverse neighbors)) assigned)

include leads nodup covers split done closed

/-- An unassigned node that reaches the one that finished last is reached by it. -/
theorem back (fresh : node ∉ assigned) (reaches : ReflTransGen (Edge neighbors) node root) :
    ReflTransGen (Edge neighbors) root node := by
  have known : ∀ node ∉ assigned, node ∈ root :: after := by
    intro node fresh
    have inOrder := covers node
    rw [split, mem_append] at inOrder
    exact inOrder.resolve_left fun early => fresh (done node early)
  rcases mem_cons.mp (known node fresh) with rfl | later
  · exact .refl
  · obtain ⟨between, rest, isAfter⟩ := append_of_mem later
    induction size : between.length using Nat.strong_induction_on generalizing
      between node rest with
    | _ count induction =>
        have outside : root ∉ node :: rest := by
          rw [split, isAfter] at nodup
          grind
        obtain ⟨last, isLast, next, isNext, edge, passes, onward⟩ :=
          exists_leaving reaches (show node ∈ {other | other ∈ node :: rest} by simp) outside
        have toNode := leads (before ++ root :: between) node rest (by simp [split, isAfter]) last
          isLast next edge isNext
        have nextFresh : next ∉ assigned := fun isAssigned =>
          fresh (closed.mem_of_reaches isAssigned (reaches_reverse.mpr passes))
        rcases mem_cons.mp (known next nextFresh) with rfl | position
        · exact toNode
        · have inBetween := (mem_append.mp (isAfter ▸ position)).resolve_right isNext
          obtain ⟨closer, further, rfl⟩ := append_of_mem inBetween
          have nearer : closer.length < count := by simp [← size]
          refine (induction closer.length nearer nextFresh onward position closer
            (further ++ node :: rest) ?_ rfl).trans toNode
          simpa using isAfter

/-- What is assigned from the node that finished last is its component. -/
theorem mem_collect (fresh : root ∉ assigned) :
    let (assigned', component) := collect neighbors assigned ∅ [root]
    Closed (Edge (reverse neighbors)) assigned' ∧
      (∀ node, node ∈ assigned' ↔ node ∈ assigned ∨ node ∈ component) ∧
      ∀ node, node ∈ component ↔ Connected (Edge neighbors) root node := by
  obtain ⟨closed', reached, -, added, found⟩ := collect_spec ∅ [root]
    fun node member next edge => .inl (closed node member next edge)
  have rootAssigned := reached root (.inr mem_cons_self)
  have members : ∀ node, node ∈ (collect neighbors assigned ∅ [root]).2 ↔
      Connected (Edge neighbors) root node := by
    intro node
    constructor
    · intro member
      obtain ⟨new, top, isTop, reaches⟩ := (found node member).resolve_left (Finset.notMem_empty _)
      rw [mem_singleton.mp isTop] at reaches
      have toRoot := reaches_reverse.mp reaches
      exact ⟨back leads nodup covers split done closed new toRoot, toRoot⟩
    · intro both
      have isAssigned := closed'.mem_of_reaches rootAssigned (reaches_reverse.mpr both.2)
      refine (added node isAssigned).resolve_left fun before => fresh ?_
      exact closed.mem_of_reaches before (reaches_reverse.mpr both.1)
  refine ⟨closed', fun node => ⟨added node, ?_⟩, members⟩
  rintro (before | member)
  · exact reached node (.inl before)
  · exact closed'.mem_of_reaches rootAssigned (reaches_reverse.mpr ((members node).mp member).2)

end Root

/-- Each node is in one component, with the nodes that it reaches and that reach it. -/
structure Exact (neighbors : Node → Finset Node) (components : List (Finset Node)) : Prop where
  apart : components.Pairwise fun first second => ∀ node ∈ first, node ∉ second
  covers : ∀ node, ∃ component ∈ components, node ∈ component
  together : ∀ component ∈ components, ∀ node ∈ component, ∀ other,
    other ∈ component ↔ Connected (Edge neighbors) node other

theorem assignComponents_spec (leads : Leads neighbors order) (nodup : order.Nodup)
    (covers : ∀ node, node ∈ order) (before : List Node) :
    ∀ (assigned : Finset Node) {remaining : List Node}, order = before ++ remaining →
      (∀ node ∈ before, node ∈ assigned) → Closed (Edge (reverse neighbors)) assigned →
      let components := assignComponents neighbors assigned remaining
      (components.Pairwise fun first second => ∀ node ∈ first, node ∉ second) ∧
        (∀ node ∈ remaining, node ∈ assigned ∨ ∃ component ∈ components, node ∈ component) ∧
        ∀ component ∈ components, ∃ root ∉ assigned,
          ∀ node, node ∈ component ↔ Connected (Edge neighbors) root node := by
  intro assigned remaining
  induction remaining generalizing before assigned with
  | nil => simp [assignComponents]
  | cons root after induction =>
      intro split done closed
      have split' : order = (before ++ [root]) ++ after := by simp [split]
      rw [assignComponents]
      split
      · next seen =>
          obtain ⟨apart, covered, exact⟩ := induction (before ++ [root]) _ split' (by grind) closed
          exact ⟨apart, by grind, exact⟩
      · next fresh =>
          obtain ⟨closed', assigned', members⟩ :=
            mem_collect leads nodup covers split done closed fresh
          have isRoot := (members root).mpr (.refl root)
          obtain ⟨apart, covered, exact⟩ := induction (before ++ [root]) _ split' (by grind) closed'
          refine ⟨pairwise_cons.mpr ⟨fun later isLater node first second => ?_, apart⟩, by grind, ?_⟩
          · obtain ⟨other, isFresh, members'⟩ := exact later isLater
            have both := ((members node).mp first).trans ((members' node).mp second).symm
            exact isFresh ((assigned' other).mpr (.inr ((members other).mpr both)))
          · exact forall_mem_cons.mpr ⟨⟨root, fresh, members⟩, fun later isLater => by grind⟩

theorem exact_stronglyConnectedComponents (neighbors : Node → Finset Node) :
    Exact neighbors (stronglyConnectedComponents neighbors) := by
  obtain ⟨leads, nodup, covers⟩ := finishOrder_spec neighbors
  obtain ⟨apart, covered, exact⟩ := assignComponents_spec leads nodup covers [] ∅ rfl (by simp)
    fun _ member => absurd member (by simp)
  refine ⟨apart, fun node => ?_, fun component isComponent node member other => ?_⟩
  · exact (covered node (covers node)).resolve_left (Finset.notMem_empty _)
  · obtain ⟨root, -, members⟩ := exact component isComponent
    have toNode := (members node).mp member
    exact (members other).trans ⟨toNode.symm.trans, toNode.trans⟩

end Components

/-! ## Cycles of sales -/

structure NftPropagationEdge where
  tokenId : Text
  fromAddress : Text
  toAddress : Text
  blockNumber : Int
  blockTime : Int
  channel : Text
  priceEth : Option ℚ
  priceUsd : Option ℚ
  tokenIds : List Text

structure CyclePattern where
  cycleId : Text
  participantNodeCount : Nat
  tokenGini : Option ℚ
  avgCycleBlocks : Option Int
  fakeVolumeEth : ℚ
  fakeVolumeUsd : ℚ
  participants : Finset Text
  tokenIds : Finset Text
  maxBlockTime : Int
  avgPriceEth : Option ℚ
  avgPriceUsd : Option ℚ

def normalizeChainIdentity (value : Text) : Text :=
  if value.trim.take 2 = ['0', 'x'] ∨ value.trim.take 2 = ['0', 'X'] then
    value.trim.toAsciiLowercase
  else value.trim

def zeroAddress : Text := ['0', 'x'] ++ replicate 40 '0'

def isParticipantAddress (address : Text) : Prop := address ≠ [] ∧ address ≠ zeroAddress

instance : DecidablePred isParticipantAddress :=
  fun _ => inferInstanceAs (Decidable (_ ∧ _))

namespace NftPropagationEdge

variable (edge : NftPropagationEdge)

def source : Text := normalizeChainIdentity edge.fromAddress

def target : Text := normalizeChainIdentity edge.toAddress

def edgeTokenIds : List Text :=
  if edge.tokenIds = [] then
    if edge.tokenId.trim = [] then [] else [edge.tokenId]
  else edge.tokenIds

def Inside (component : Finset Text) : Prop := edge.source ∈ component ∧ edge.target ∈ component

instance (component : Finset Text) : DecidablePred (Inside · component) :=
  fun _ => inferInstanceAs (Decidable (_ ∧ _))

end NftPropagationEdge

def averageOptional (values : List ℚ) : Option ℚ :=
  let values := values.filter (0 < ·)
  if values = [] then none else some (values.sum / values.length)

def gini (values : List ℚ) : Option ℚ :=
  let values := values.mergeSort
  if values = [] then none
  else if values.sum ≤ 0 then some 0
  else
    let weightedSum := (values.zipIdx.map fun entry => ((entry.2 : ℚ) + 1) * entry.1).sum
    some (2 * weightedSum / (values.length * values.sum) - (values.length + 1) / values.length)

/-- The row of a component, from the sales with both ends in it. -/
def cyclePattern (contractAddress : Text) (number : Nat) (component : Finset Text)
    (allEdges : List NftPropagationEdge) : CyclePattern :=
  let tokens := allEdges.flatMap (·.edgeTokenIds)
  let blockNumbers := (allEdges.map (·.blockNumber)).filter (0 < ·)
  { cycleId := contractAddress ++ ":wash:".toList ++ Text.ofNat number
    participantNodeCount := component.card
    tokenGini := gini ((tokens.toFinset.sort (· ≤ ·)).map fun token => (tokens.count token : ℚ))
    avgCycleBlocks := blockNumbers.min?.bind fun first =>
      blockNumbers.max?.map fun last => max (last - first) 0
    fakeVolumeEth := (allEdges.map fun edge => edge.priceEth.getD 0).sum
    fakeVolumeUsd := (allEdges.map fun edge => edge.priceUsd.getD 0).sum
    participants := component
    tokenIds := tokens.toFinset
    maxBlockTime := ((allEdges.map (·.blockTime)).filter (0 < ·)).max?.getD 0
    avgPriceEth := averageOptional (allEdges.filterMap (·.priceEth))
    avgPriceUsd := averageOptional (allEdges.filterMap (·.priceUsd)) }

section WashTrading

variable (contractAddress : Text) (edges : List NftPropagationEdge) (malicious : Finset Text)
  (minCycleSize : Nat)

/-- Sales between malicious participants. -/
def saleEdges : List NftPropagationEdge :=
  edges.filter fun edge => edge.channel = "sale".toList ∧
    (edge.source ∈ malicious ∧ edge.target ∈ malicious) ∧
    isParticipantAddress edge.source ∧ isParticipantAddress edge.target

variable (sales : List NftPropagationEdge)

def saleNodes : Finset Text := (sales.flatMap fun sale => [sale.source, sale.target]).toFinset

def saleNeighbors (node : saleNodes sales) : Finset (saleNodes sales) :=
  Finset.univ.filter fun other => ∃ sale ∈ sales, sale.source = node.1 ∧ sale.target = other.1

def washComponents : List (Finset Text) :=
  (stronglyConnectedComponents (saleNeighbors sales)).map (·.map (Function.Embedding.subtype _))

def componentByAddress (components : List (Finset Text)) (address : Text) : Option Nat :=
  (lastByKey (fun entry => some entry.1) (components.zipIdx.flatMap fun entry =>
    (entry.1.sort (· ≤ ·)).map (·, entry.2)) address).map Prod.snd

/-- `edges_by_component` has an entry for each component with an edge, in their order. -/
def detectWashTrading : List CyclePattern :=
  let sales := saleEdges edges malicious
  let components := washComponents sales
  let component := componentByAddress components
  components.zipIdx.foldl (fun cycles entry =>
    let allEdges := sales.filter fun edge =>
      component edge.source = some entry.2 ∧ component edge.target = some entry.2
    if allEdges = [] ∨ entry.1.card < max minCycleSize 2 then cycles
    else cycles ++ [cyclePattern contractAddress (cycles.length + 1) entry.1 allEdges]) []

variable {sales}

theorem apart_washComponents :
    (washComponents sales).Pairwise fun first second => ∀ address ∈ first, address ∉ second := by
  refine pairwise_map.mpr ((exact_stronglyConnectedComponents _).apart.imp ?_)
  intro first second apart address isFirst isSecond
  obtain ⟨node, member, rfl⟩ := Finset.mem_map.mp isFirst
  exact apart node member ((Finset.mem_map' _).mp isSecond)

theorem componentByAddress_eq {components : List (Finset Text)}
    (apart : components.Pairwise fun first second => ∀ address ∈ first, address ∉ second)
    {address : Text} {index : Nat} {component : Finset Text}
    (isAt : components[index]? = some component) :
    componentByAddress components address = some index ↔ address ∈ component := by
  have entries : ∀ entry, entry ∈ (components.zipIdx.flatMap fun entry =>
      (entry.1.sort (· ≤ ·)).map (·, entry.2)) ↔
        ∃ other, components[entry.2]? = some other ∧ entry.1 ∈ other := by
    rintro ⟨address, place⟩
    simp [mem_flatMap, mk_mem_zipIdx_iff_getElem?, and_comm]
  constructor
  · intro found
    obtain ⟨⟨other, place⟩, isLast, rfl⟩ := Option.map_eq_some_iff.mp found
    obtain ⟨_, isThere, member⟩ := (entries _).mp (mem_of_lastByKey isLast)
    cases key_of_lastByKey isLast
    cases isAt.symm.trans isThere
    exact member
  · intro member
    have isEntry := (entries (address, index)).mpr ⟨component, isAt, member⟩
    refine Option.map_eq_some_iff.mpr ⟨_, lastByKey_of_unique isEntry rfl ?_, rfl⟩
    rintro ⟨other, place⟩ isOther key
    cases key
    obtain ⟨found, isThere, isMember⟩ := (entries _).mp isOther
    obtain ⟨bound, rfl⟩ := List.getElem?_eq_some_iff.mp isAt
    obtain ⟨bound', rfl⟩ := List.getElem?_eq_some_iff.mp isThere
    rcases Nat.lt_trichotomy place index with before | rfl | behind
    · exact absurd member (pairwise_iff_getElem.mp apart _ _ _ _ before _ isMember)
    · rfl
    · exact absurd isMember (pairwise_iff_getElem.mp apart _ _ _ _ behind _ member)

theorem exists_inside {component : Finset Text} (isComponent : component ∈ washComponents sales)
    (large : 2 ≤ component.card) : ∃ sale ∈ sales, sale.Inside component := by
  obtain ⟨nodes, isExact, rfl⟩ := mem_map.mp isComponent
  rw [Finset.card_map] at large
  obtain ⟨first, isFirst, second, isSecond, different⟩ := Finset.one_lt_card.mp large
  have connected := (exact_stronglyConnectedComponents _).together nodes isExact first isFirst
  have both := (connected second).mp isSecond
  rcases both.1.cases_head with same | ⟨next, edge, onward⟩
  · exact absurd same different
  · have isNext := (connected next).mpr ⟨.single edge, onward.trans both.2⟩
    obtain ⟨sale, isSale, isSource, isTarget⟩ := (Finset.mem_filter.mp edge).2
    refine ⟨sale, isSale, ?_, ?_⟩
    · exact isSource ▸ Finset.mem_map_of_mem _ isFirst
    · exact isTarget ▸ Finset.mem_map_of_mem _ isNext

theorem foldl_numbered {α β : Type*} (keep : α → Prop) [DecidablePred keep] (row : Nat → α → β)
    (values : List α) :
    values.foldl (fun rows value => if keep value then rows ++ [row rows.length value] else rows) [] =
      (values.filter (keep ·)).zipIdx.map fun entry => row entry.2 entry.1 := by
  induction values using reverseRecOn with
  | nil => rfl
  | append_singleton values value induction =>
      by_cases kept : keep value <;> simp [induction, kept, zipIdx_append]

/-- Each large component has a row of the sales with both ends in it. -/
theorem detectWashTrading_eq : let sales := saleEdges edges malicious
    detectWashTrading contractAddress edges malicious minCycleSize =
      ((washComponents sales).filter (max minCycleSize 2 ≤ ·.card)).zipIdx.map fun row =>
        cyclePattern contractAddress (row.2 + 1) row.1 (sales.filter (·.Inside row.1)) := by
  intro sales
  rw [← foldl_numbered (max minCycleSize 2 ≤ ·.card) (fun number component =>
      cyclePattern contractAddress (number + 1) component (sales.filter (·.Inside component))),
    ← zipIdx_map_fst 0 (washComponents sales), foldl_map]
  refine foldl_ext _ _ _ ?_
  rintro cycles ⟨component, index⟩ member
  have isAt := mk_mem_zipIdx_iff_getElem?.mp member
  have inside : (sales.filter fun edge =>
      componentByAddress (washComponents sales) edge.source = some index ∧
        componentByAddress (washComponents sales) edge.target = some index) =
          sales.filter (·.Inside component) := by
    refine filter_congr fun edge _ => decide_eq_decide.mpr ?_
    exact and_congr (componentByAddress_eq apart_washComponents isAt)
      (componentByAddress_eq apart_washComponents isAt)
  simp only [sales] at inside ⊢
  rw [inside]
  by_cases large : max minCycleSize 2 ≤ component.card
  · obtain ⟨sale, isSale, isInside⟩ :=
      exists_inside (List.mem_of_getElem? isAt) (le_of_max_le_right large)
    have some : sales.filter (·.Inside component) ≠ [] :=
      ne_nil_of_mem (mem_filter.mpr ⟨isSale, decide_eq_true isInside⟩)
    rw [if_pos large, if_neg (not_or.mpr ⟨some, not_lt.mpr large⟩)]
  · rw [if_neg large, if_pos (.inr (not_le.mp large))]

end WashTrading

end NftData.TopContracts
