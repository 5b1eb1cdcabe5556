import NftData.Analysis2.Entity.Types
import NftData.Foundation.Json

namespace NftData.Analysis2

/-! # Evidence types

The quality states of what providers report. -/

inductive EvidenceStatus where
  | notRequested
  | complete
  | empty
  | truncated
  | failed
  deriving DecidableEq, Repr

structure EvidenceQuality where
  transfers : EvidenceStatus
  sales : EvidenceStatus
  holders : EvidenceStatus
  prices : EvidenceStatus
  assets : EvidenceStatus
  histories : EvidenceStatus
  gas : EvidenceStatus
  valueFlows : EvidenceStatus
  excludedNonNft : Bool
  identityExclusionReason : Option Text
  failures : List Text
  truncationReasons : List Text
  deriving DecidableEq, Repr

namespace EvidenceStatus

/-- `status_from_count`. -/
def fromCount (count : Nat) (truncated : Bool) : EvidenceStatus :=
  if truncated then .truncated else if count = 0 then .empty else .complete

theorem fromCount_ne_failed (count : Nat) (truncated : Bool) :
    fromCount count truncated ≠ .failed := by
  unfold fromCount
  split
  · exact fun equal => by cases equal
  · split <;> exact fun equal => by cases equal

theorem fromCount_eq_truncated {count : Nat} {truncated : Bool} :
    fromCount count truncated = .truncated ↔ truncated = true := by
  cases truncated <;> simp [fromCount]
  split <;> simp

end EvidenceStatus

abbrev Reply := Except Analysis2Error Json

def Succeeds (wellFormed : Json → Prop) (reply : Reply) : Prop :=
  ∃ payload, reply = .ok payload ∧ wellFormed payload

def pageIdentity (rows : List Json) : Text :=
  [Char.ofNat 0].intercalate (rows.filterMap fun row => (row.get? "id").bind Json.asStr?)

/-- Addresses of Solana are case-sensitive, hexadecimal ones are not. -/
def normalizeChainAddress (chain address : Text) : Text :=
  if chain.trim.equalsIgnoringAsciiCase "solana".toList then
    address.trim
  else
    address.trim.toAsciiLowercase

structure EvidenceObservation where
  source : Text
  requestKey : Text
  status : EvidenceStatus
  deriving DecidableEq, Repr

structure FetchOutcome (Value : Type) where
  value : Value
  status : EvidenceStatus
  observation : EvidenceObservation
  failure : Option Text
  truncated : Bool

namespace FetchOutcome

variable {Value : Type}

/-- `T::default()` is the inhabitant of the type. -/
def skipped [Inhabited Value] (requestKey : Text) : FetchOutcome Value where
  value := default
  status := .notRequested
  observation := ⟨"none".toList, requestKey, .notRequested⟩
  failure := none
  truncated := false

def failed [Inhabited Value] (source requestKey detail : Text) : FetchOutcome Value where
  value := default
  status := .failed
  observation := ⟨source, requestKey, .failed⟩
  failure := some (requestKey ++ ": ".toList ++ detail)
  truncated := false

def ok (value : Value) (count : Nat) (truncated : Bool) (source requestKey : Text) :
    FetchOutcome Value where
  value := value
  status := .fromCount count truncated
  observation := ⟨source, requestKey, .fromCount count truncated⟩
  failure := none
  truncated := truncated

end FetchOutcome

end NftData.Analysis2
