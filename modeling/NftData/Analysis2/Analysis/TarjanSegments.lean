import NftData.Foundation.StrongComponents
import NftData.Analysis2.Analysis.AddressGraph

namespace NftData.Analysis2

open Function
open List
open Relation (ReflTransGen)

/-! # The stack of the search

The vertices of the frames are a path. On the stack, each of them has above it the vertices that
were found from it and are finished. -/

section Segments

variable (Edge : Nat → Nat → Prop) (lowlink : Nat → Nat)

/-- A path, with its top first, cuts the stack into segments. -/
inductive Segments : List Nat → List Nat → Prop
  | nil : Segments [] []
  | cons {vertex : Nat} {path above below : List Nat}
      (edge : ∀ parent ∈ path.head?, Edge parent vertex)
      (connected : ∀ other ∈ above, Connected Edge vertex other)
      (low : ∀ other ∈ above, lowlink vertex ≤ lowlink other)
      (rest : Segments path below) : Segments (vertex :: path) (above ++ vertex :: below)

variable {Edge lowlink} {vertex child parent : Nat} {path stack : List Nat}

namespace Segments

theorem sublist (segments : Segments Edge lowlink path stack) : path.Sublist stack := by
  induction segments with
  | nil => exact .slnil
  | cons edge connected low rest induction =>
      exact (induction.cons_cons _).trans (sublist_append_right _ _)

theorem stack_eq_nil (segments : Segments Edge lowlink [] stack) : stack = [] := by
  cases segments
  rfl

theorem split (segments : Segments Edge lowlink (vertex :: path) stack) :
    ∃ above below, stack = above ++ vertex :: below ∧ (∀ parent ∈ path.head?, Edge parent vertex) ∧
      (∀ other ∈ above, Connected Edge vertex other) ∧
      (∀ other ∈ above, lowlink vertex ≤ lowlink other) ∧ Segments Edge lowlink path below := by
  cases segments with
  | cons edge connected low rest => exact ⟨_, _, rfl, edge, connected, low, rest⟩

theorem reaches (segments : Segments Edge lowlink (vertex :: path) stack) :
    ∀ other ∈ stack, ReflTransGen Edge other vertex := by
  induction path generalizing vertex stack with
  | nil =>
      cases segments with
      | cons edge connected low rest =>
          rw [rest.stack_eq_nil]
          intro other member
          rcases mem_append.mp member with above | isVertex
          · exact (connected other above).2
          · rw [mem_singleton.mp isVertex]
  | cons parent path induction =>
      cases segments with
      | cons edge connected low rest =>
          intro other member
          rcases mem_append.mp member with above | atLeast
          · exact (connected other above).2
          · rcases mem_cons.mp atLeast with rfl | below
            · exact .refl
            · exact (induction rest other below).tail (edge parent rfl)

theorem congr {lowlinkAlso : Nat → Nat} (segments : Segments Edge lowlink path stack)
    (same : ∀ other ∈ stack, lowlinkAlso other = lowlink other) :
    Segments Edge lowlinkAlso path stack := by
  induction segments with
  | nil => exact .nil
  | @cons vertex path above below edge connected low rest induction =>
      refine .cons edge connected ?_ (induction fun other member =>
        same other (mem_append_right _ (mem_cons_of_mem _ member)))
      intro other member
      rw [same other (mem_append_left _ member),
        same vertex (mem_append_right _ mem_cons_self)]
      exact low other member

/-- The lowlink of the top of the path may become lower. -/
theorem lower (segments : Segments Edge lowlink (vertex :: path) stack) (nodup : stack.Nodup)
    {index : Nat} (atMost : index ≤ lowlink vertex) :
    Segments Edge (Function.update lowlink vertex index) (vertex :: path) stack := by
  cases segments with
  | @cons _ _ above below edge connected low rest =>
      rw [nodup_middle, nodup_cons] at nodup
      have apart : ∀ other ∈ above ++ below, other ≠ vertex :=
        fun other member equal => nodup.1 (equal ▸ member)
      refine .cons edge connected ?_ (rest.congr fun other member =>
        update_of_ne (apart other (mem_append_right _ member)) _ _)
      intro other member
      rw [update_self,
        update_of_ne (apart other (mem_append_left _ member))]
      exact atMost.trans (low other member)

theorem push (segments : Segments Edge lowlink path stack) {next index : Nat}
    (fresh : next ∉ stack) (edge : ∀ parent ∈ path.head?, Edge parent next) :
    Segments Edge (Function.update lowlink next index) (next :: path) (next :: stack) := by
  have kept := @congr _ _ _ _ (Function.update lowlink next index) segments
    (fun other member => update_of_ne (ne_of_mem_of_not_mem member fresh) _ _)
  exact @cons _ _ next path [] stack edge (fun _ member => absurd member not_mem_nil)
    (fun _ member => absurd member not_mem_nil) kept

theorem finish (segments : Segments Edge lowlink (child :: parent :: path) stack)
    (nodup : stack.Nodup)
    (leads : ∀ above below, stack = above ++ child :: below →
      ∃ other ∈ below, ReflTransGen Edge child other) :
    Segments Edge (Function.update lowlink parent (min (lowlink parent) (lowlink child)))
      (parent :: path) stack := by
  cases segments with
  | @cons _ _ above below edge connected low rest =>
      rcases leads above below rfl with ⟨other, isBelow, reaches⟩
      have toParent : ReflTransGen Edge child parent :=
        reaches.trans (rest.reaches other isBelow)
      have childConnected : Connected Edge parent child :=
        ⟨.single (edge parent rfl), toParent⟩
      have lowered := rest.lower (List.Nodup.of_append_right nodup).tail
        (min_le_left (lowlink parent) (lowlink child))
      cases lowered with
      | @cons _ _ aboveParent belowParent parentEdge parentConnected parentLow parentRest =>
          have stackEq : above ++ child :: (aboveParent ++ parent :: belowParent) =
              (above ++ child :: aboveParent) ++ parent :: belowParent := by
            rw [List.append_assoc, cons_append]
          rw [stackEq] at nodup ⊢
          rw [nodup_middle, nodup_cons] at nodup
          have apart : ∀ member ∈ above ++ child :: aboveParent, member ≠ parent :=
            fun member inside equal => nodup.1 (mem_append_left _ (equal ▸ inside))
          refine .cons parentEdge ?_ ?_ parentRest
          · intro member inside
            rcases mem_append.mp inside with isAbove | atChild
            · exact childConnected.trans (connected member isAbove)
            · rcases mem_cons.mp atChild with rfl | inParent
              · exact childConnected
              · exact parentConnected member inParent
          · intro member inside
            rcases mem_append.mp inside with isAbove | atChild
            · rw [update_self, update_of_ne (apart member inside)]
              exact (min_le_right _ _).trans (low member isAbove)
            · rcases mem_cons.mp atChild with rfl | inParent
              · rw [update_self, update_of_ne (apart member inside)]
                exact min_le_right _ _
              · exact parentLow member inParent

end Segments

end Segments

end NftData.Analysis2
