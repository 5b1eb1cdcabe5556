import NftData.Foundation.KeyedFold

namespace NftData

/-! # When keyed values combine

Where combining two values gives their least upper bound, a whole list of entries combines
exactly when the values of every key have an upper bound. -/

open List

/-- Combining two values gives their least upper bound in an order, and fails only when they
have no upper bound. -/
structure Joins {Value : Type*} (combine : Value → Value → Option Value)
    (Below : Value → Value → Prop) : Prop where
  refl : ∀ value, Below value value
  trans : ∀ {first second third}, Below first second → Below second third →
    Below first third
  left : ∀ {first second combined}, combine first second = some combined →
    Below first combined
  right : ∀ {first second combined}, combine first second = some combined →
    Below second combined
  bounded : ∀ {first second bound}, Below first bound → Below second bound →
    ∃ combined, combine first second = some combined ∧ Below combined bound

section Absorb

variable {Key Value : Type*} [DecidableEq Key] {combine : Value → Value → Option Value}
  {Below : Value → Value → Prop}

section

variable (joins : Joins combine Below)
include joins

variable {bound : Key → Value} {entry : Key × Value}

theorem absorb_bounded (entryBelow : Below entry.2 (bound entry.1)) (entries : List (Key × Value))
    (below : ∀ other ∈ entries, Below other.2 (bound other.1)) :
    ∃ absorbed, absorb combine entries entry = some absorbed ∧
      ∀ other ∈ absorbed, Below other.2 (bound other.1) := by
  induction entries with
  | nil =>
      refine ⟨[entry], rfl, ?_⟩
      intro other member
      rw [mem_singleton.mp member]
      exact entryBelow
  | cons head rest induction =>
      rcases head with ⟨key, value⟩
      have headBelow := below _ mem_cons_self
      have restBelow := fun other member => below other (mem_cons_of_mem _ member)
      rw [absorb]
      split
      · next same =>
          rcases joins.bounded headBelow (same ▸ entryBelow) with
            ⟨combined, combines, combinedBelow⟩
          refine ⟨(key, combined) :: rest, by rw [combines]; rfl, ?_⟩
          intro other member
          rcases mem_cons.mp member with equal | inRest
          · rw [equal]
            exact combinedBelow
          · exact restBelow other inRest
      · rcases induction restBelow with ⟨absorbed, ok, absorbedBelow⟩
        refine ⟨(key, value) :: absorbed, by rw [ok]; rfl, ?_⟩
        intro other member
        rcases mem_cons.mp member with equal | inRest
        · rw [equal]
          exact headBelow
        · exact absorbedBelow other inRest

theorem absorbAll_bounded (incoming : List (Key × Value)) (incomingBelow : ∀ other ∈ incoming,
      Below other.2 (bound other.1)) :
    ∀ {entries : List (Key × Value)}, (∀ other ∈ entries, Below other.2 (bound other.1)) →
      ∃ absorbed, absorbAll combine entries incoming = some absorbed := by
  induction incoming with
  | nil => exact fun _ => ⟨_, rfl⟩
  | cons head tail induction =>
      intro entries below
      rcases absorb_bounded joins (incomingBelow head mem_cons_self) entries below with
        ⟨middle, ok, middleBelow⟩
      rw [absorbAll_cons, ok]
      exact induction (fun other member => incomingBelow other (mem_cons_of_mem _ member))
        middleBelow

/-- Every entry ends up below the entry of its key. -/
theorem absorb_above :
    ∀ {entries absorbed : List (Key × Value)},
      absorb combine entries entry = some absorbed →
      ∀ other ∈ entry :: entries, ∃ above ∈ absorbed,
        above.1 = other.1 ∧ Below other.2 above.2 := by
  intro entries
  induction entries with
  | nil =>
      intro absorbed ok other member
      cases ok
      exact ⟨other, member, rfl, joins.refl _⟩
  | cons head rest induction =>
      rcases head with ⟨key, value⟩
      intro absorbed ok
      rw [absorb] at ok
      split at ok
      · next same =>
          rcases Option.map_eq_some_iff.mp ok with ⟨combined, combines, equal⟩
          subst equal
          intro other member
          rcases mem_cons.mp member with isEntry | inEntries
          · rw [isEntry]
            exact ⟨_, mem_cons_self, same, joins.right combines⟩
          · rcases mem_cons.mp inEntries with isHead | inRest
            · rw [isHead]
              exact ⟨_, mem_cons_self, rfl, joins.left combines⟩
            · exact ⟨other, mem_cons_of_mem _ inRest, rfl, joins.refl _⟩
      · rcases Option.map_eq_some_iff.mp ok with ⟨restAbsorbed, restOk, equal⟩
        subst equal
        have above := induction restOk
        intro other member
        have inTail : other ∈ entry :: rest → ∃ above ∈ (key, value) :: restAbsorbed,
            above.1 = other.1 ∧ Below other.2 above.2 := by
          intro inside
          rcases above other inside with ⟨found, inAbsorbed, both⟩
          exact ⟨found, mem_cons_of_mem _ inAbsorbed, both⟩
        rcases mem_cons.mp member with isEntry | inEntries
        · exact inTail (isEntry ▸ mem_cons_self)
        · rcases mem_cons.mp inEntries with isHead | inRest
          · rw [isHead]
            exact ⟨_, mem_cons_self, rfl, joins.refl _⟩
          · exact inTail (mem_cons_of_mem _ inRest)

theorem absorbAll_above (incoming : List (Key × Value)) :
    ∀ {entries absorbed : List (Key × Value)},
      absorbAll combine entries incoming = some absorbed →
      ∀ other ∈ entries ++ incoming, ∃ above ∈ absorbed,
        above.1 = other.1 ∧ Below other.2 above.2 := by
  induction incoming with
  | nil =>
      intro entries absorbed ok other member
      cases ok
      rw [append_nil] at member
      exact ⟨other, member, rfl, joins.refl _⟩
  | cons head tail induction =>
      intro entries absorbed ok other member
      rw [absorbAll_cons] at ok
      rcases Option.bind_eq_some_iff.mp ok with ⟨middle, middleOk, rest⟩
      have later := induction rest
      have first : other ∈ head :: entries ∨ other ∈ tail := by
        simp only [mem_append, mem_cons] at member ⊢
        tauto
      rcases first with before | inTail
      · rcases absorb_above joins middleOk other before with
          ⟨between, inMiddle, sameKey, below⟩
        rcases later between (mem_append_left _ inMiddle) with
          ⟨above, inAbsorbed, aboveKey, aboveBelow⟩
        exact ⟨above, inAbsorbed, aboveKey.trans sameKey, joins.trans below aboveBelow⟩
      · exact later other (mem_append_right _ inTail)

/-- Combined entries of one key have an upper bound. -/
theorem compatible_of_absorbAll {incoming absorbed : List (Key × Value)}
    (ok : absorbAll combine [] incoming = some absorbed) {first second : Key × Value}
    (firstMember : first ∈ incoming) (secondMember : second ∈ incoming)
    (sameKey : first.1 = second.1) :
    ∃ bound, Below first.2 bound ∧ Below second.2 bound := by
  have nodup : (absorbed.map Prod.fst).Nodup := by
    rw [keys_absorbAll ok]
    exact nodup_pushKeys _ nodup_nil
  rcases absorbAll_above joins incoming ok first firstMember with
    ⟨left, leftMember, leftKey, leftBelow⟩
  rcases absorbAll_above joins incoming ok second secondMember with
    ⟨right, rightMember, rightKey, rightBelow⟩
  have same : left = right := inj_on_of_nodup_map nodup leftMember rightMember
    (leftKey.trans (sameKey.trans rightKey.symm))
  exact ⟨left.2, leftBelow, same ▸ rightBelow⟩

end

end Absorb

theorem pushKeys_filter {Key : Type*} [DecidableEq Key] (keep : Key → Bool)
    (incoming keys : List Key) :
    (pushKeys keys incoming).filter keep =
      pushKeys (keys.filter keep) (incoming.filter keep) := by
  induction incoming generalizing keys with
  | nil => rfl
  | cons head tail induction =>
      have step : (pushKey keys head).filter keep =
          if keep head then pushKey (keys.filter keep) head else keys.filter keep := by
        unfold pushKey
        cases kept : keep head with
        | true =>
            have same : head ∈ keys.filter keep ↔ head ∈ keys := by
              simp [mem_filter, kept]
            simp only [same, if_true]
            split
            · rfl
            · rw [filter_append, filter_singleton, kept]
              rfl
        | false =>
            split
            · rfl
            · rw [filter_append, filter_singleton, kept]
              simp
      change (pushKeys (pushKey keys head) tail).filter keep = _
      rw [induction, step, filter_cons]
      cases keep head <;> rfl

end NftData
