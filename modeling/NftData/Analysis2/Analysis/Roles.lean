import NftData.Analysis2.Enrich.Evidence
import NftData.Foundation.KeyedMap

namespace NftData.Analysis2

/-! # Roles of addresses

The roles that attribution gives to normalized addresses, as the analyses of a candidate read
them. -/

inductive AddressRole where
  | suspectedOperator
  | likelyVictim
  deriving DecidableEq, Repr

abbrev RoleMap := KeyedMap Text AddressRole

namespace RoleMap

def withRole (role : AddressRole) (roles : RoleMap) : List Text :=
  keysWhere (fun known => decide (known = role)) roles

def operators (roles : RoleMap) : List Text := roles.withRole .suspectedOperator

def victims (roles : RoleMap) : List Text := roles.withRole .likelyVictim

end RoleMap

def normalizedIn (evidence : CandidateEvidence) (address : Text) : Text :=
  normalizeChainAddress evidence.chain address

/-- A balance that is not known counts as held. -/
def HolderRecord.isCurrent (holder : HolderRecord) : Bool :=
  match holder.balance with
  | none => true
  | some balance => decide (0 < balance)

end NftData.Analysis2
