import Mathlib

namespace NftData

/-! # Strong components

Vertices of a directed graph belong together when each reaches the other. -/

section Components

variable {Vertex : Type*} (Edge : Vertex → Vertex → Prop)

def Connected (first second : Vertex) : Prop :=
  Relation.ReflTransGen Edge first second ∧ Relation.ReflTransGen Edge second first

/-- No edge leaves the set. -/
def Closed (members : Set Vertex) : Prop :=
  ∀ vertex ∈ members, ∀ next, Edge vertex next → next ∈ members

def IsComponent (members : List Vertex) : Prop :=
  members ≠ [] ∧ ∀ vertex ∈ members, ∀ other, other ∈ members ↔ Connected Edge vertex other

variable {Edge} {first second third : Vertex}

theorem Connected.refl (vertex : Vertex) : Connected Edge vertex vertex := ⟨.refl, .refl⟩

theorem Connected.symm (connected : Connected Edge first second) : Connected Edge second first :=
  ⟨connected.2, connected.1⟩

theorem Connected.trans (left : Connected Edge first second)
    (right : Connected Edge second third) : Connected Edge first third :=
  ⟨left.1.trans right.1, right.2.trans left.2⟩

theorem Closed.mem_of_reaches {members : Set Vertex} (closed : Closed Edge members)
    (inside : first ∈ members) (reaches : Relation.ReflTransGen Edge first second) :
    second ∈ members := by
  induction reaches with
  | refl => exact inside
  | tail _ edge induction => exact closed _ induction _ edge

/-- Connected vertices are a whole component when their edges lead to one another or into a closed
set that has none of them. -/
theorem isComponent_of_closed {members : List Vertex} {root : Vertex} {finished : Set Vertex}
    (rootInside : root ∈ members) (connected : ∀ vertex ∈ members, Connected Edge root vertex)
    (closed : Closed Edge finished)
    (leads : ∀ vertex ∈ members, ∀ next, Edge vertex next → next ∈ members ∨ next ∈ finished)
    (apart : ∀ vertex ∈ members, vertex ∉ finished) : IsComponent Edge members := by
  have together : Closed Edge {vertex | vertex ∈ members ∨ vertex ∈ finished} := by
    intro vertex inside next edge
    rcases inside with isMember | isFinished
    · exact leads vertex isMember next edge
    · exact .inr (closed vertex isFinished next edge)
  refine ⟨List.ne_nil_of_mem rootInside, fun vertex inside other => ?_⟩
  constructor
  · exact fun isMember => (connected vertex inside).symm.trans (connected other isMember)
  · intro both
    rcases together.mem_of_reaches (.inl inside) both.1 with isMember | isFinished
    · exact isMember
    · exact absurd (closed.mem_of_reaches isFinished both.2) (apart vertex inside)

end Components

end NftData
