import NftData.Analysis2.Enrich.Types
import NftData.Foundation.Guarded
import NftData.Foundation.LastByKey
import NftData.Foundation.Substrings

namespace NftData.Analysis2

/-! # Controllers of contracts

The controllers of a contract are looked up alone, or together with those of a chunk of
contracts. -/

open List
open Text (trim utf8Length)

structure EvmControllerEvidence where
  addresses : List Text
  deployedBlock : Option Nat
  deriving DecidableEq

/-- Why a lookup answers nothing: it panics, or the replies to a chunk cannot be used. -/
inductive ControllerStop where
  | panicked
  | unusable

def stripHexPrefix : Text → Option Text
  | '0' :: 'x' :: rest => some rest
  | '0' :: 'X' :: rest => some rest
  | _ => none

def isAsciiHexDigit (character : Char) : Bool :=
  character.isDigit || ('a' ≤ character && character ≤ 'f') ||
    ('A' ≤ character && character ≤ 'F')

def normalizeEvmAddress (value : Text) : Option Text := do
  let hex ← stripHexPrefix value
  if utf8Length hex ≠ 40 ∨ ¬ hex.all isAsciiHexDigit ∨ hex.all (· == '0') then
    none
  else
    some ("0x".toList ++ hex.toAsciiLowercase)

def abiAddress (value : Option Text) : Except ControllerStop (Option Text) :=
  match value.bind fun raw => stripHexPrefix raw.trim with
  | none => .ok none
  | some hex =>
      if utf8Length hex < 40 then
        .ok none
      else
        match hex.splitAtByte (utf8Length hex - 40) with
        | none => .error .panicked
        | some (_, address) =>
            if address.all (· == '0') ∨ ¬ address.all isAsciiHexDigit then
              .ok none
            else
              .ok (some ("0x".toList ++ address.toAsciiLowercase))

def pushEvmAddress (values : List Text) (value : Option Text) : List Text :=
  match (value.map trim).filter fun text => !text.isEmpty with
  | none => values
  | some text =>
      match normalizeEvmAddress text with
      | none => values
      | some address => values ++ [address]

/-- `sort` and `dedup`. -/
def sortedAddresses (values : List Text) : List Text :=
  values.dedup.insertionSort (· ≤ ·)

def digitValue (radix : Nat) (character : Char) : Option Nat :=
  let value :=
    if character.isDigit then
      some (character.toNat - '0'.toNat)
    else if 'a' ≤ character ∧ character ≤ 'f' then
      some (character.toNat - 'a'.toNat + 10)
    else if 'A' ≤ character ∧ character ≤ 'F' then
      some (character.toNat - 'A'.toNat + 10)
    else
      none
  value.filter fun digit => decide (digit < radix)

/-- `u64::from_str_radix`, which reads a plus sign as well. -/
def parseU64 (radix : Nat) (text : Text) : Option Nat :=
  let digits := if text.head? = some '+' then text.tail else text
  if digits.isEmpty then
    none
  else do
    let values ← digits.mapM (digitValue radix)
    let number := values.foldl (fun number digit => number * radix + digit) 0
    if number < 2 ^ 64 then some number else none

def parseBlockNumber (value : Json) : Option Nat :=
  match value.asU64? with
  | some number => some number
  | none => do
      let text ← value.asStr?
      match stripHexPrefix text.trim with
      | some hex => parseU64 16 hex
      | none => parseU64 10 text.trim

example : parseBlockNumber (.string " 0x1F".toList) = some 31 := by decide

def controllerFields : List String :=
  ["contractDeployer", "ownerAddress", "owner", "adminAddress", "proxyAdminAddress"]

def deployerFields : List String :=
  ["contractDeployer", "deployerAddress", "deployer", "creatorAddress"]

section

-- How a lookup reads a field of the metadata.
variable (field : String → Option Json)

def metadataControllers : List Text :=
  controllerFields.foldl
    (fun values name => pushEvmAddress values ((field name).bind Json.asStr?)) []

def metadataDeployer : Option Text :=
  deployerFields.findSome? fun name =>
    ((field name).bind Json.asStr?).bind normalizeEvmAddress

def metadataBlock : Option Nat := (field "deployedBlockNumber").bind parseBlockNumber

end

def metadataOf (payload : Json) : Json := (payload.get? "contractMetadata").getD payload

def singleField (payload : Json) (name : String) : Option Json :=
  ((metadataOf payload).get? name).or (payload.get? name)

/-- A lookup of a chunk does not. -/
def chunkField (payload : Json) (name : String) : Option Json := (metadataOf payload).get? name

def rowName (row : Json) : Option Text := (row.get? "id").bind Json.asStr?

def rowResult (row : Json) : Option Text := (row.get? "result").bind Json.asStr?

def ownerProbe : Text := "owner".toList

def ownerFallbackProbe : Text := "owner-fallback".toList

def adminProbe : Text := "admin".toList

def storageProbe : Text := "eip1967-admin".toList

def probeNames : List Text := [ownerProbe, ownerFallbackProbe, adminProbe, storageProbe]

structure OnchainFound where
  owner : Option Text
  ownerFallback : Option Text
  controllers : List Text

namespace OnchainFound

def push (found : OnchainFound) (name address : Text) : OnchainFound :=
  if name = ownerProbe then
    { found with owner := some address }
  else if name = ownerFallbackProbe then
    { found with ownerFallback := some address }
  else
    { found with controllers := found.controllers ++ [address] }

def add (found : OnchainFound) (answer : Text × Option Text) :
    Except ControllerStop OnchainFound :=
  match abiAddress answer.2 with
  | .error stop => .error stop
  | .ok none => .ok found
  | .ok (some address) => .ok (found.push answer.1 address)

def addresses (found : OnchainFound) : List Text :=
  found.controllers ++ (found.owner.or found.ownerFallback).toList

end OnchainFound

def collectProbes (answers : List (Text × Option Text)) : Except ControllerStop OnchainFound :=
  answers.foldlM OnchainFound.add ⟨none, none, []⟩

/-- Nothing when the reply is unusable: it is no array, or it omits the storage result. -/
def onchainControllers (reply : Reply) : Except ControllerStop (Option (List Text)) :=
  match reply with
  | .ok (.array rows) =>
      if rows.any fun row => rowName row == some storageProbe && (rowResult row).isSome then do
        let found ← collectProbes (rows.map fun row => ((rowName row).getD [], rowResult row))
        .ok (some (sortedAddresses found.addresses))
      else
        .ok none
  | _ => .ok none

/-- What the metadata reply says: a document, or nothing when it failed. -/
def singleMetadata (reply : Reply) : Option Json :=
  match reply with
  | .ok payload => if (payload.get? "error").isSome then none else some payload
  | .error _ => none

def fieldOf (read : Json → String → Option Json) (metadata : Option Json) (name : String) :
    Option Json := metadata.bind fun payload => read payload name

def contractControllers : Text := "contract_controllers".toList

def alchemy : Text := "alchemy".toList

instance : Inhabited EvmControllerEvidence := ⟨⟨[], none⟩⟩

def fetchEvmControllers (apiKey network : Option Text) (chain : Text)
    (metadataReply rpcReply : Reply) :
    Except ControllerStop (FetchOutcome EvmControllerEvidence) :=
  match apiKey, network with
  | none, _ => .ok (.skipped contractControllers)
  | some _, none =>
      .ok (.failed alchemy contractControllers
        ("unsupported alchemy network for ".toList ++ chain))
  | some _, some _ => do
      let metadata := singleMetadata metadataReply
      let field := fieldOf singleField metadata
      let onchain ← onchainControllers rpcReply
      let supplementalFailed := metadata.isNone || onchain.isNone
      let pushed := (onchain.getD []).foldl
        (fun values address => pushEvmAddress values (some address)) (metadataControllers field)
      let addresses := sortedAddresses (pushEvmAddress pushed (metadataDeployer field))
      let outcome := FetchOutcome.ok ⟨addresses, metadataBlock field⟩ addresses.length
        supplementalFailed alchemy contractControllers
      .ok (if supplementalFailed && decide (0 < addresses.length) then
        { outcome with
          status := .truncated
          observation := { outcome.observation with status := .truncated } }
      else
        outcome)

def rowAddress (row : Json) : Option Text :=
  ((((metadataOf row).get? "address").or (row.get? "address")).bind Json.asStr?).bind
    normalizeEvmAddress

def probeId (index : Nat) (name : Text) : Text := Text.ofNat index ++ ":".toList ++ name

def chunkOutcome (metadata : Option Json) (answer : Text → Option Text) :
    Except ControllerStop (FetchOutcome EvmControllerEvidence) := do
  let field := fieldOf chunkField metadata
  let supplementalFailed := metadata.isNone || (answer storageProbe).isNone
  let found ← collectProbes (probeNames.map fun name => (name, answer name))
  let addresses := sortedAddresses
    (metadataControllers field ++ found.addresses ++ (metadataDeployer field).toList)
  .ok (.ok ⟨addresses, metadataBlock field⟩ addresses.length supplementalFailed alchemy
    contractControllers)

def fetchControllerChunk (network : Option Text) (rows : List (Nat × Text))
    (metadataReply rpcReply : Reply) :
    Except ControllerStop (List (Nat × FetchOutcome EvmControllerEvidence)) :=
  match network, metadataReply, rpcReply with
  | some _, .ok (.array metadataRows), .ok (.array rpcRows) =>
      rows.zipIdx.mapM fun row =>
        match normalizeEvmAddress row.1.2 with
        | none => .error .unusable
        | some normalized => do
            let outcome ← chunkOutcome (lastByKey rowAddress metadataRows normalized) fun name =>
              (lastByKey rowName rpcRows (probeId row.2 name)).bind rowResult
            .ok (row.1.1, outcome)
  | _, _, _ => .error .unusable

def outcomeOf (outcomes : List (Nat × FetchOutcome EvmControllerEvidence)) (id : Nat) :
    Option (FetchOutcome EvmControllerEvidence) :=
  (lastByKey (fun entry => some entry.1) outcomes id).map Prod.snd

/-- Forty digits, not all of them zero and none in upper case, behind the prefix. -/
def IsEvmAddress (address : Text) : Prop :=
  ∃ hex : Text, address = "0x".toList ++ hex ∧ utf8Length hex = 40 ∧
    hex.all isAsciiHexDigit = true ∧ hex.all (· == '0') = false ∧ hex.toAsciiLowercase = hex

theorem toLower_hexDigit {digit : Char} (isDigit : isAsciiHexDigit digit = true) :
    isAsciiHexDigit digit.toLower = true ∧ (digit.toLower == '0') = (digit == '0') ∧
      Text.isWhiteSpace digit = false := by
  have bounds : (48 ≤ digit.toNat ∧ digit.toNat ≤ 57 ∨ 97 ≤ digit.toNat ∧ digit.toNat ≤ 102) ∨
      65 ≤ digit.toNat ∧ digit.toNat ≤ 70 := by
    simpa [isAsciiHexDigit, Char.isDigit, Char.le_def, UInt32.le_iff_toNat_le] using isDigit
  have same : digit = Char.ofNat digit.toNat := (Char.ofNat_toNat digit).symm
  generalize digit.toNat = code at bounds same
  subst same
  rcases bounds with (⟨above, below⟩ | ⟨above, below⟩) | ⟨above, below⟩ <;>
    interval_cases code <;> decide

theorem isEvmAddress_lowercase {hex : Text} (length : utf8Length hex = 40)
    (digits : hex.all isAsciiHexDigit = true) (nonzero : hex.all (· == '0') = false) :
    IsEvmAddress ("0x".toList ++ hex.toAsciiLowercase) := by
  have each := all_eq_true.mp digits
  refine ⟨hex.toAsciiLowercase, rfl, by rw [Text.utf8Length_toAsciiLowercase, length], ?_, ?_, ?_⟩
  · rw [Text.toAsciiLowercase, all_map]
    exact all_eq_true.mpr fun digit member => (toLower_hexDigit (each digit member)).1
  · rcases all_eq_false.mp nonzero with ⟨digit, member, different⟩
    refine all_eq_false.mpr ⟨digit.toLower, mem_map_of_mem member, ?_⟩
    rwa [(toLower_hexDigit (each digit member)).2.1]
  · exact Text.toAsciiLowercase_idem hex

variable {address : Text}

theorem isEvmAddress_of_normalize {value : Text}
    (normalized : normalizeEvmAddress value = some address) : IsEvmAddress address := by
  rcases Option.bind_eq_some_iff.mp normalized with ⟨hex, -, rest⟩
  split at rest
  · cases rest
  · next valid =>
      cases rest
      push Not at valid
      exact isEvmAddress_lowercase valid.1 valid.2.1 (Bool.eq_false_iff.mpr valid.2.2)

theorem isEvmAddress_of_abi {value : Option Text} (read : abiAddress value = .ok (some address)) :
    IsEvmAddress address := by
  unfold abiAddress at read
  split at read
  · cases read
  · next hex _ =>
      split at read
      · cases read
      · next long =>
          split at read
          · cases read
          · next start cut isCut =>
              split at read
              · cases read
              · next valid =>
                  cases read
                  push Not at valid
                  rcases Text.splitAtByte_eq_some.mp isCut with ⟨whole, length⟩
                  have total : utf8Length start + utf8Length cut =
                      utf8Length hex := by rw [← whole, Text.utf8Length_append]
                  exact isEvmAddress_lowercase (by omega) valid.2
                    (Bool.eq_false_iff.mpr valid.1)

theorem pushEvmAddress_of_isEvmAddress (values : List Text) (valid : IsEvmAddress address) :
    pushEvmAddress values (some address) = values ++ [address] := by
  rcases valid with ⟨hex, rfl, length, digits, nonzero, lower⟩
  have trimmed : trim ("0x".toList ++ hex) = "0x".toList ++ hex := by
    refine Text.trim_eq_self fun character member => ?_
    rcases mem_append.mp member with inPrefix | inHex
    · have isPrefix : character = '0' ∨ character = 'x' := by simpa using inPrefix
      rcases isPrefix with rfl | rfl <;> decide
    · exact (toLower_hexDigit (all_eq_true.mp digits character inHex)).2.2
  have normalized : normalizeEvmAddress ("0x".toList ++ hex) = some ("0x".toList ++ hex) := by
    have stripped : stripHexPrefix ("0x".toList ++ hex) = some hex := rfl
    have valid : ¬ (utf8Length hex ≠ 40 ∨ ¬ hex.all isAsciiHexDigit = true ∨
        hex.all (· == '0') = true) := by
      rw [length, digits, nonzero]
      decide
    rw [normalizeEvmAddress, stripped, Option.bind_eq_bind, Option.bind_some, if_neg valid, lower]
  have nonempty : (!("0x".toList ++ hex).isEmpty) = true := rfl
  rw [pushEvmAddress, Option.map_some, trimmed, Option.filter_some, if_pos nonempty]
  simp only [normalized]

theorem foldl_pushEvmAddress {addresses : List Text}
    (valid : ∀ address ∈ addresses, IsEvmAddress address) (values : List Text) :
    addresses.foldl (fun values address => pushEvmAddress values (some address)) values =
      values ++ addresses := by
  induction addresses generalizing values with
  | nil => simp
  | cons address addresses induction =>
      rw [foldl_cons, pushEvmAddress_of_isEvmAddress values (valid address (by simp)),
        induction fun other member => valid other (mem_cons_of_mem _ member),
        List.append_assoc, singleton_append]

theorem pushEvmAddress_deployer (values : List Text) (field : String → Option Json) :
    pushEvmAddress values (metadataDeployer field) =
      values ++ (metadataDeployer field).toList := by
  cases found : metadataDeployer field with
  | none => simp [pushEvmAddress]
  | some address =>
      rcases List.exists_of_findSome?_eq_some found with ⟨name, -, read⟩
      rcases Option.bind_eq_some_iff.mp read with ⟨text, -, normalized⟩
      exact pushEvmAddress_of_isEvmAddress values (isEvmAddress_of_normalize normalized)

variable {values : List Text}

theorem mem_sortedAddresses :
    address ∈ sortedAddresses values ↔ address ∈ values := by
  rw [sortedAddresses, mem_insertionSort, mem_dedup]

variable {others : List Text}

theorem sortedAddresses_eq_iff :
    sortedAddresses values = sortedAddresses others ↔
      ∀ address, address ∈ values ↔ address ∈ others := by
  constructor
  · intro same address
    rw [← mem_sortedAddresses, same, mem_sortedAddresses]
  · intro same
    have perm : values.dedup.Perm others.dedup :=
      (perm_ext_iff_of_nodup (nodup_dedup _) (nodup_dedup _)).mpr fun address => by
        rw [mem_dedup, mem_dedup, same]
    exact List.Perm.eq_of_pairwise (fun _ _ _ _ first second => le_antisymm first second)
      (pairwise_insertionSort _ _) (pairwise_insertionSort _ _)
      ((perm_insertionSort _ _).trans (perm.trans (perm_insertionSort _ _).symm))

/-! ## What the probes say -/

/-- A name's last address among the answers, when one of them has an address. -/
def HoldsLast (answers : List (Text × Option Text)) (name : Text) : Option Text → Prop
  | some address => ∃ answer ∈ answers, answer.1 = name ∧ abiAddress answer.2 = .ok (some address)
  | none => ∀ answer ∈ answers, answer.1 = name → abiAddress answer.2 = .ok none

structure CollectedFrom (answers : List (Text × Option Text)) (found : OnchainFound) : Prop where
  read : ∀ answer ∈ answers, ∃ address, abiAddress answer.2 = .ok address
  owner : HoldsLast answers ownerProbe found.owner
  ownerFallback : HoldsLast answers ownerFallbackProbe found.ownerFallback
  controllers : ∀ address, address ∈ found.controllers ↔
    ∃ answer ∈ answers, answer.1 ≠ ownerProbe ∧ answer.1 ≠ ownerFallbackProbe ∧
      abiAddress answer.2 = .ok (some address)

variable {found : OnchainFound} {slot : Option Text}

section

variable {answers : List (Text × Option Text)} {answer : Text × Option Text} {name : Text}

theorem HoldsLast.snoc (holds : HoldsLast answers name slot)
    (other : answer.1 = name → abiAddress answer.2 = .ok none) :
    HoldsLast (answers ++ [answer]) name slot := by
  cases slot with
  | some address =>
      rcases holds with ⟨earlier, member, isName⟩
      exact ⟨earlier, mem_append_left _ member, isName⟩
  | none =>
      intro earlier member isName
      rcases mem_append.mp member with before | last
      · exact holds earlier before isName
      · rcases mem_singleton.mp last with rfl
        exact other isName

theorem collectedFrom_snoc {next : OnchainFound} (collected : CollectedFrom answers found)
    (added : found.add answer = .ok next) : CollectedFrom (answers ++ [answer]) next := by
  have reads : ∀ address, abiAddress answer.2 = .ok address →
      ∀ earlier ∈ answers ++ [answer], ∃ address, abiAddress earlier.2 = .ok address := by
    intro address isRead earlier member
    rcases mem_append.mp member with before | last
    · exact collected.read earlier before
    · exact ⟨address, mem_singleton.mp last ▸ isRead⟩
  unfold OnchainFound.add at added
  split at added
  · cases added
  · next isRead =>
      cases added
      refine ⟨reads _ isRead, collected.owner.snoc fun _ => isRead,
        collected.ownerFallback.snoc fun _ => isRead, fun address => ?_⟩
      rw [collected.controllers]
      simp [isRead, or_and_right, exists_or]
  · next address isRead =>
      cases added
      unfold OnchainFound.push
      have here : answer ∈ answers ++ [answer] := by simp
      split
      · next isOwner =>
          refine ⟨reads _ isRead, ⟨answer, here, isOwner, isRead⟩,
            collected.ownerFallback.snoc fun isFallback => ?_, fun other => ?_⟩
          · exact absurd (isOwner.symm.trans isFallback) (by decide)
          · rw [collected.controllers]
            simp [isOwner, or_and_right, exists_or]
      · next notOwner =>
          split
          · next isFallback =>
              refine ⟨reads _ isRead, collected.owner.snoc fun isOwner => absurd isOwner notOwner,
                ⟨answer, here, isFallback, isRead⟩, fun other => ?_⟩
              rw [collected.controllers]
              simp [isFallback, or_and_right, exists_or]
          · next notFallback =>
              refine ⟨reads _ isRead, collected.owner.snoc fun isOwner => absurd isOwner notOwner,
                collected.ownerFallback.snoc fun isFallback => absurd isFallback notFallback,
                fun other => ?_⟩
              simp only [mem_append, collected.controllers, mem_singleton,
                or_and_right, exists_or, exists_eq_left, notOwner, notFallback, isRead, ne_eq,
                not_false_eq_true, true_and, Except.ok.injEq, Option.some.injEq]
              rw [@eq_comm _ other]

theorem collectProbes_concat :
    collectProbes (answers ++ [answer]) = collectProbes answers >>= fun found => found.add answer := by
  rw [collectProbes, foldlM_append]
  simp [collectProbes]

theorem collectedFrom_collectProbes (collected : collectProbes answers = .ok found) :
    CollectedFrom answers found := by
  induction answers using List.reverseRecOn generalizing found with
  | nil =>
      cases collected
      exact ⟨by simp, by simp [HoldsLast], by simp [HoldsLast], by simp⟩
  | append_singleton answers answer induction =>
      rw [collectProbes_concat] at collected
      cases before : collectProbes answers with
      | error stop =>
          rw [before] at collected
          cases collected
      | ok earlier =>
          rw [before] at collected
          exact collectedFrom_snoc (induction before) collected

theorem collectProbes_succeeds
    (reads : ∀ answer ∈ answers, ∃ address, abiAddress answer.2 = .ok address) :
    ∃ found, collectProbes answers = .ok found := by
  induction answers using List.reverseRecOn with
  | nil => exact ⟨_, rfl⟩
  | append_singleton answers answer induction =>
      rcases induction fun other member => reads other (mem_append_left _ member) with
        ⟨earlier, before⟩
      rcases reads answer (by simp) with ⟨address, isRead⟩
      rw [collectProbes_concat, before]
      change ∃ found, earlier.add answer = .ok found
      cases address <;> simp [OnchainFound.add, isRead]

end

/-- A probe other than those for the owner has the address, or the owner is the address, or
the fallback owner is and there is no owner. -/
def ProbeAddress (probe : Text → Option Text) (address : Text) : Prop :=
  (∃ name ∈ [adminProbe, storageProbe], abiAddress (probe name) = .ok (some address)) ∨
    abiAddress (probe ownerProbe) = .ok (some address) ∨
    abiAddress (probe ownerProbe) = .ok none ∧
      abiAddress (probe ownerFallbackProbe) = .ok (some address)

/-- The answers are those of the probes, in any order and however often. -/
structure AnswersProbes (probe : Text → Option Text) (answers : List (Text × Option Text)) :
    Prop where
  known : ∀ answer ∈ answers, answer.1 ∈ probeNames ∧ answer.2 = probe answer.1
  covers : ∀ name ∈ probeNames, (probe name).isSome → ∃ answer ∈ answers, answer.1 = name

namespace AnswersProbes

variable {probe : Text → Option Text} {answers : List (Text × Option Text)}

theorem abiAddress_eq (answered : AnswersProbes probe answers) {name : Text}
    (isName : name ∈ probeNames) (holds : HoldsLast answers name slot) :
    abiAddress (probe name) = .ok slot := by
  cases slot with
  | some address =>
      rcases holds with ⟨answer, member, rfl, isRead⟩
      rw [← (answered.known answer member).2, isRead]
  | none =>
      cases isProbe : probe name with
      | none => rfl
      | some text =>
          rcases answered.covers name isName (by rw [isProbe]; rfl) with ⟨answer, member, rfl⟩
          rw [← isProbe, ← (answered.known answer member).2]
          exact holds answer member rfl

theorem mem_addresses (answered : AnswersProbes probe answers)
    (collected : collectProbes answers = .ok found) :
    address ∈ found.addresses ↔ ProbeAddress probe address := by
  have from_answers := collectedFrom_collectProbes collected
  have owner := answered.abiAddress_eq (by simp [probeNames]) from_answers.owner
  have fallback := answered.abiAddress_eq (by simp [probeNames]) from_answers.ownerFallback
  have controllers : address ∈ found.controllers ↔
      ∃ name ∈ [adminProbe, storageProbe], abiAddress (probe name) = .ok (some address) := by
    rw [from_answers.controllers]
    constructor
    · rintro ⟨answer, member, notOwner, notFallback, isRead⟩
      rcases answered.known answer member with ⟨isName, isAnswer⟩
      refine ⟨answer.1, ?_, isAnswer ▸ isRead⟩
      simpa [probeNames, notOwner, notFallback] using isName
    · rintro ⟨name, isOther, isRead⟩
      have isName : name ∈ probeNames := by
        simp only [mem_cons, not_mem_nil, or_false] at isOther
        simp [probeNames, isOther]
      have answers_probe : (probe name).isSome := by
        cases isProbe : probe name with
        | none =>
            rw [isProbe] at isRead
            cases isRead
        | some text => rfl
      rcases answered.covers name isName answers_probe with ⟨answer, member, rfl⟩
      refine ⟨answer, member, ?_, ?_, (answered.known answer member).2 ▸ isRead⟩
      · rintro isOwner
        rw [isOwner] at isOther
        exact absurd isOther (by decide)
      · rintro isFallback
        rw [isFallback] at isOther
        exact absurd isOther (by decide)
  rw [OnchainFound.addresses, mem_append, controllers, ProbeAddress, owner, fallback]
  cases found.owner <;> simp [eq_comm]

end AnswersProbes

/-- What a provider knows: the metadata of a contract, and the string that a probe of it
answers. -/
structure ContractProvider where
  metadata : Text → Option Json
  probe : Text → Text → Option Text

/-- The replies to the lookup of one contract. The metadata request fails when there is none. -/
structure AnswersSingle (provider : ContractProvider) (contract : Text)
    (metadataReply rpcReply : Reply) : Prop where
  metadata : singleMetadata metadataReply = provider.metadata contract
  rpc : ∃ rows, rpcReply = .ok (.array rows) ∧
    (∀ row ∈ rows, ∃ name ∈ probeNames, rowName row = some name ∧
      rowResult row = provider.probe contract name) ∧
    ∀ name ∈ probeNames, (provider.probe contract name).isSome →
      ∃ row ∈ rows, rowName row = some name

/-- The replies to a chunk, with their rows in any order. The rows that are filed under a
contract of the chunk are its own. -/
structure AnswersChunk (provider : ContractProvider) (rows : List (Nat × Text))
    (metadataReply rpcReply : Reply) : Prop where
  metadata : ∃ replies, metadataReply = .ok (.array replies) ∧
    ∀ row ∈ rows, ∀ address, normalizeEvmAddress row.2 = some address →
      (∀ reply ∈ replies, rowAddress reply = some address →
        provider.metadata row.2 = some reply) ∧
      ∀ payload, provider.metadata row.2 = some payload →
        payload ∈ replies ∧ rowAddress payload = some address
  rpc : ∃ replies, rpcReply = .ok (.array replies) ∧
    ∀ row index, rows[index]? = some row → ∀ name ∈ probeNames,
      (∀ reply ∈ replies, rowName reply = some (probeId index name) →
        rowResult reply = provider.probe row.2 name) ∧
      ((provider.probe row.2 name).isSome →
        ∃ reply ∈ replies, rowName reply = some (probeId index name))

def MetadataAddress (read : Json → String → Option Json) (metadata : Option Json)
    (address : Text) : Prop :=
  address ∈ metadataControllers (fieldOf read metadata) ∨
    metadataDeployer (fieldOf read metadata) = some address

/-- The condition on a contract. The outer object, which only the lookup of one contract falls
back to, leaves the block and the known addresses as they are. Without a storage result, which
makes that lookup drop all probes, the probes know no address that the metadata does not name. -/
structure SameControllers (provider : ContractProvider) (contract : Text) : Prop where
  block : metadataBlock (fieldOf singleField (provider.metadata contract)) =
    metadataBlock (fieldOf chunkField (provider.metadata contract))
  outer : ∀ address, MetadataAddress singleField (provider.metadata contract) address →
    MetadataAddress chunkField (provider.metadata contract) address ∨
      ProbeAddress (provider.probe contract) address
  inner : ∀ address, MetadataAddress chunkField (provider.metadata contract) address →
    MetadataAddress singleField (provider.metadata contract) address ∨
      (provider.probe contract storageProbe).isSome ∧
        ProbeAddress (provider.probe contract) address
  probes : (provider.probe contract storageProbe).isSome ∨
    ∀ address, ProbeAddress (provider.probe contract) address →
      MetadataAddress singleField (provider.metadata contract) address

/-! ## Both lookups of a contract -/

def controllerOutcome (values : List Text) (block : Option Nat) (failed : Bool) :
    FetchOutcome EvmControllerEvidence :=
  .ok ⟨sortedAddresses values, block⟩ (sortedAddresses values).length failed alchemy
    contractControllers

theorem controllerOutcome_inj {block otherBlock : Option Nat} {failed : Bool} :
    controllerOutcome values block failed =
        controllerOutcome others otherBlock failed ↔
      (∀ address, address ∈ values ↔ address ∈ others) ∧ block = otherBlock := by
  rw [← sortedAddresses_eq_iff]
  constructor
  · intro same
    have value := congrArg FetchOutcome.value same
    exact ⟨congrArg EvmControllerEvidence.addresses value,
      congrArg EvmControllerEvidence.deployedBlock value⟩
  · rintro ⟨sameValues, sameBlock⟩
    rw [controllerOutcome, sameValues, sameBlock, controllerOutcome]

theorem controllerOutcome_truncated (values : List Text) (block : Option Nat) (failed : Bool) :
    (if failed && decide (0 < (sortedAddresses values).length) then
      { controllerOutcome values block failed with
        status := .truncated
        observation :=
          { (controllerOutcome values block failed).observation with status := .truncated } }
    else
      controllerOutcome values block failed) = controllerOutcome values block failed := by
  cases failed with
  | false => rfl
  | true =>
      split
      · rfl
      · rfl

section

variable {provider : ContractProvider} {contract : Text} {metadataReply rpcReply : Reply}

theorem answersProbes_names (probe : Text → Option Text) :
    AnswersProbes probe (probeNames.map fun name => (name, probe name)) where
  known answer member := by
    rcases mem_map.mp member with ⟨name, isName, rfl⟩
    exact ⟨isName, rfl⟩
  covers name isName _ := ⟨_, mem_map_of_mem isName, rfl⟩

variable {outcome : FetchOutcome EvmControllerEvidence} {metadata : Option Json}

theorem chunkOutcome_ok {probe : Text → Option Text}
    (looked : chunkOutcome metadata probe = .ok outcome) :
    ∃ found, collectProbes (probeNames.map fun name => (name, probe name)) = .ok found ∧
      outcome = controllerOutcome
        (metadataControllers (fieldOf chunkField metadata) ++ found.addresses ++
          (metadataDeployer (fieldOf chunkField metadata)).toList)
        (metadataBlock (fieldOf chunkField metadata))
        (metadata.isNone || (probe storageProbe).isNone) := by
  rcases bind_eq_ok looked with ⟨found, collected, rest⟩
  cases rest
  exact ⟨found, collected, rfl⟩

/-- The probes of a lookup that the chunk's probes did not stop. -/
theorem onchainControllers_eq (single : AnswersSingle provider contract metadataReply rpcReply)
    (reads : ∀ name ∈ probeNames, ∃ address,
      abiAddress (provider.probe contract name) = .ok address) :
    ∃ onchain, onchainControllers rpcReply = .ok onchain ∧
      onchain.isNone = (provider.probe contract storageProbe).isNone ∧
      (∀ address ∈ onchain.getD [], IsEvmAddress address) ∧
      ∀ address, address ∈ onchain.getD [] ↔
        (provider.probe contract storageProbe).isSome ∧
          ProbeAddress (provider.probe contract) address := by
  rcases single.rpc with ⟨rows, rfl, known, covers⟩
  have answered : AnswersProbes (provider.probe contract)
      (rows.map fun row => ((rowName row).getD [], rowResult row)) := by
    constructor
    · intro answer member
      rcases mem_map.mp member with ⟨row, inside, rfl⟩
      rcases known row inside with ⟨name, isName, named, result⟩
      rw [named, result]
      exact ⟨isName, rfl⟩
    · intro name isName answers
      rcases covers name isName answers with ⟨row, inside, named⟩
      exact ⟨_, mem_map_of_mem inside, by rw [named]; rfl⟩
  have complete : (rows.any fun row => rowName row == some storageProbe &&
      (rowResult row).isSome) = (provider.probe contract storageProbe).isSome := by
    rw [Bool.eq_iff_iff, any_eq_true]
    constructor
    · rintro ⟨row, inside, isStorage⟩
      rcases known row inside with ⟨name, -, named, result⟩
      simp only [named, result, Bool.and_eq_true, beq_iff_eq, Option.some.injEq] at isStorage
      exact isStorage.1 ▸ isStorage.2
    · intro answers
      rcases covers storageProbe (by simp [probeNames]) answers with ⟨row, inside, named⟩
      rcases known row inside with ⟨name, -, isName, result⟩
      have isStorage : name = storageProbe := Option.some.inj (isName.symm.trans named)
      refine ⟨row, inside, ?_⟩
      rw [named, result, isStorage, answers]
      simp
  unfold onchainControllers
  simp only [complete]
  cases answers : (provider.probe contract storageProbe).isSome with
  | false =>
      refine ⟨none, rfl, ?_, by simp, by simp⟩
      exact (Option.isNone_iff_eq_none.mpr (Option.isSome_eq_false_iff.mp answers |>
        Option.isNone_iff_eq_none.mp)).symm
  | true =>
      rcases @collectProbes_succeeds (rows.map fun row =>
          ((rowName row).getD [], rowResult row)) (by
        intro answer member
        rcases answered.known answer member with ⟨isName, isAnswer⟩
        exact isAnswer ▸ reads answer.1 isName) with ⟨found, collected⟩
      refine ⟨some (sortedAddresses found.addresses), ?_, ?_, ?_, ?_⟩
      · simp only [if_true, collected, ok_bind]
      · exact (Option.isNone_eq_false_iff.mpr answers).symm
      · intro address member
        rw [Option.getD_some, mem_sortedAddresses, answered.mem_addresses collected] at member
        rcases member with ⟨name, -, isRead⟩ | isRead | ⟨-, isRead⟩ <;>
          exact isEvmAddress_of_abi isRead
      · intro address
        rw [Option.getD_some, mem_sortedAddresses, answered.mem_addresses collected]
        simp

/-- The lookup of one contract agrees with what a chunk says exactly under the condition. -/
theorem fetchEvmControllers_eq_iff (single : AnswersSingle provider contract metadataReply rpcReply)
    (looked : chunkOutcome (provider.metadata contract) (provider.probe contract) = .ok outcome)
    (apiKey network chain : Text) :
    ∃ alone, fetchEvmControllers (some apiKey) (some network) chain metadataReply rpcReply =
        .ok alone ∧ (outcome = alone ↔ SameControllers provider contract) := by
  rcases chunkOutcome_ok looked with ⟨found, collected, rfl⟩
  have probes : ∀ address, address ∈ found.addresses ↔ _ := fun _ =>
    (answersProbes_names (provider.probe contract)).mem_addresses collected
  rcases onchainControllers_eq single (fun name isName =>
      (collectedFrom_collectProbes collected).read _ (mem_map_of_mem isName)) with
    ⟨onchain, isOnchain, complete, valid, mem_onchain⟩
  refine ⟨controllerOutcome
    (metadataControllers (fieldOf singleField (provider.metadata contract)) ++ onchain.getD [] ++
      (metadataDeployer (fieldOf singleField (provider.metadata contract))).toList)
    (metadataBlock (fieldOf singleField (provider.metadata contract)))
    ((provider.metadata contract).isNone || (provider.probe contract storageProbe).isNone),
    ?_, ?_⟩
  · rw [fetchEvmControllers]
    simp only [isOnchain, ok_bind, single.metadata, foldl_pushEvmAddress valid,
      pushEvmAddress_deployer, complete]
    exact congrArg Except.ok (controllerOutcome_truncated _ _ _)
  · rw [controllerOutcome_inj]
    simp only [mem_append, Option.mem_toList, probes, mem_onchain]
    constructor
    · rintro ⟨same, block⟩
      refine ⟨block.symm, fun address named => ?_, fun address named => ?_, ?_⟩
      · rcases (same address).mpr (named.imp .inl id) with (inChunk | probed) | isDeployer
        · exact .inl (.inl inChunk)
        · exact .inr probed
        · exact .inl (.inr isDeployer)
      · rcases (same address).mp (named.imp .inl id) with (inSingle | probed) | isDeployer
        · exact .inl (.inl inSingle)
        · exact .inr probed
        · exact .inl (.inr isDeployer)
      · by_cases answers : (provider.probe contract storageProbe).isSome
        · exact .inl answers
        · refine .inr fun address probed => ?_
          rcases (same address).mp (.inl (.inr probed)) with (inSingle | ⟨also, -⟩) | isDeployer
          · exact .inl inSingle
          · exact absurd also answers
          · exact .inr isDeployer
    · intro holds
      refine ⟨fun address => ⟨?_, ?_⟩, holds.block.symm⟩
      · have of_metadata : MetadataAddress chunkField (provider.metadata contract) address →
            (address ∈ metadataControllers (fieldOf singleField (provider.metadata contract)) ∨
              (provider.probe contract storageProbe).isSome ∧
                ProbeAddress (provider.probe contract) address) ∨
              metadataDeployer (fieldOf singleField (provider.metadata contract)) =
                some address := by
          intro named
          rcases holds.inner address named with (inSingle | isDeployer) | probed
          · exact .inl (.inl inSingle)
          · exact .inr isDeployer
          · exact .inl (.inr probed)
        rintro ((inChunk | probed) | isDeployer)
        · exact of_metadata (.inl inChunk)
        · rcases holds.probes with answers | named
          · exact .inl (.inr ⟨answers, probed⟩)
          · exact (named address probed).imp .inl id
        · exact of_metadata (.inr isDeployer)
      · have of_metadata : MetadataAddress singleField (provider.metadata contract) address →
            (address ∈ metadataControllers (fieldOf chunkField (provider.metadata contract)) ∨
              ProbeAddress (provider.probe contract) address) ∨
              metadataDeployer (fieldOf chunkField (provider.metadata contract)) =
                some address := by
          intro named
          rcases holds.outer address named with (inChunk | isDeployer) | probed
          · exact .inl (.inl inChunk)
          · exact .inr isDeployer
          · exact .inl (.inr probed)
        rintro ((inSingle | ⟨-, probed⟩) | isDeployer)
        · exact of_metadata (.inl inSingle)
        · exact .inl (.inr probed)
        · exact of_metadata (.inr isDeployer)

theorem chunkOutcome_congr {answer other : Text → Option Text}
    (same : ∀ name ∈ probeNames, answer name = other name) :
    chunkOutcome metadata answer = chunkOutcome metadata other := by
  have answers : probeNames.map (fun name => (name, answer name)) =
      probeNames.map fun name => (name, other name) :=
    map_congr_left fun name isName => by rw [same name isName]
  rw [chunkOutcome, answers, same storageProbe (by simp [probeNames]), chunkOutcome]

variable {rows : List (Nat × Text)} {row : Nat × Text}

theorem lookups_of_answersChunk {metadataRows rpcRows : List Json}
    (answers : AnswersChunk provider rows (.ok (.array metadataRows)) (.ok (.array rpcRows)))
    {index : Nat} (found : rows[index]? = some row) {normalized : Text}
    (isAddress : normalizeEvmAddress row.2 = some normalized) :
    lastByKey rowAddress metadataRows normalized = provider.metadata row.2 ∧
      ∀ name ∈ probeNames, (lastByKey rowName rpcRows (probeId index name)).bind rowResult =
        provider.probe row.2 name := by
  constructor
  · rcases answers.metadata with ⟨_, isReply, each⟩
    cases isReply
    rcases each row (mem_of_getElem? found) normalized isAddress with ⟨own, present⟩
    cases isFiled : lastByKey rowAddress metadataRows normalized with
    | some reply => exact (own reply (mem_of_lastByKey isFiled) (key_of_lastByKey isFiled)).symm
    | none =>
        cases isKnown : provider.metadata row.2 with
        | none => rfl
        | some payload =>
            rcases present payload isKnown with ⟨member, isOwn⟩
            exact absurd isOwn (lastByKey_eq_none_iff.mp isFiled payload member)
  · intro name isName
    rcases answers.rpc with ⟨_, isReply, each⟩
    cases isReply
    rcases each row index found name isName with ⟨own, present⟩
    cases isFiled : lastByKey rowName rpcRows (probeId index name) with
    | some reply => exact own reply (mem_of_lastByKey isFiled) (key_of_lastByKey isFiled)
    | none =>
        cases isKnown : provider.probe row.2 name with
        | none => rfl
        | some text =>
            rcases present (by rw [isKnown]; rfl) with ⟨reply, member, isOwn⟩
            exact absurd isOwn (lastByKey_eq_none_iff.mp isFiled reply member)

theorem outcomeOf_fetchControllerChunk {network : Text} (distinct : (rows.map Prod.fst).Nodup)
    (answers : AnswersChunk provider rows metadataReply rpcReply)
    {outcomes : List (Nat × FetchOutcome EvmControllerEvidence)}
    (returned : fetchControllerChunk (some network) rows metadataReply rpcReply = .ok outcomes)
    (member : row ∈ rows) :
    ∃ outcome, outcomeOf outcomes row.1 = some outcome ∧
      chunkOutcome (provider.metadata row.2) (provider.probe row.2) = .ok outcome := by
  rcases answers.metadata with ⟨metadataRows, rfl, -⟩
  rcases answers.rpc with ⟨rpcRows, rfl, -⟩
  have results := forall₂_of_mapM returned
  have keys : outcomes.map Prod.fst = rows.map Prod.fst := by
    have same : List.Forall₂ (fun (row : (Nat × Text) × Nat) result => result.1 = row.1.1)
        rows.zipIdx outcomes := by
      refine results.imp fun row result ok => ?_
      split at ok
      · cases ok
      · rcases bind_eq_ok ok with ⟨outcome, -, isResult⟩
        cases isResult
        rfl
    have mapped : rows.zipIdx.map (fun row => row.1.1) = outcomes.map Prod.fst := by
      clear results returned
      generalize rows.zipIdx = indexed at same
      induction same with
      | nil => rfl
      | cons isKey _ induction => rw [map_cons, map_cons, isKey, induction]
    rw [← mapped]
    conv_rhs => rw [← zipIdx_map_fst 0 rows, map_map]
    rfl
  rcases List.getElem?_of_mem member with ⟨index, found⟩
  have indexed : (row, index) ∈ rows.zipIdx := List.mem_zipIdx_iff_getElem?.mpr found
  rcases exists_of_mem_forall₂ results.flip indexed with ⟨result, inside, looked⟩
  split at looked
  · cases looked
  · next normalized isAddress =>
      rcases bind_eq_ok looked with ⟨outcome, isOutcome, isResult⟩
      cases isResult
      have lookups := lookups_of_answersChunk answers found isAddress
      rw [lookups.1, chunkOutcome_congr lookups.2] at isOutcome
      have only : lastByKey (fun entry : Nat × FetchOutcome EvmControllerEvidence => some entry.1)
          outcomes row.1 = some (row.1, outcome) :=
        lastByKey_of_unique inside rfl fun other otherInside sameKey =>
          inj_on_of_nodup_map (keys ▸ distinct) otherInside inside (Option.some.inj sameKey)
      exact ⟨outcome, by rw [outcomeOf, only, Option.map_some], isOutcome⟩

/-- A chunk has an outcome for each of its contracts that the rest of the chunk does not change.
It is the outcome of looking the contract up alone exactly under the condition. -/
theorem fetchControllerChunk_single (provider : ContractProvider) :
    ∃ together : Text → Option (FetchOutcome EvmControllerEvidence),
      ∀ network rows metadataReply rpcReply outcomes, (rows.map Prod.fst).Nodup →
        AnswersChunk provider rows metadataReply rpcReply →
        fetchControllerChunk (some network) rows metadataReply rpcReply = .ok outcomes →
        ∀ row ∈ rows, ∃ outcome, outcomeOf outcomes row.1 = some outcome ∧
          together row.2 = some outcome ∧
          ∀ apiKey chain singleMetadata singleRpc,
            AnswersSingle provider row.2 singleMetadata singleRpc →
            ∃ alone, fetchEvmControllers (some apiKey) (some network) chain singleMetadata
                singleRpc = .ok alone ∧
              (outcome = alone ↔ SameControllers provider row.2) := by
  refine ⟨fun contract =>
    (chunkOutcome (provider.metadata contract) (provider.probe contract)).toOption, ?_⟩
  intro network rows metadataReply rpcReply outcomes distinct answers returned row member
  rcases outcomeOf_fetchControllerChunk distinct answers returned member with
    ⟨outcome, isOutcome, looked⟩
  refine ⟨outcome, isOutcome, by simp only [looked, Except.toOption], ?_⟩
  intro apiKey chain singleMetadata singleRpc single
  exact fetchEvmControllers_eq_iff single looked apiKey network chain

end

def firstContract : Text := "0x".toList ++ List.replicate 40 '1'

def secondContract : Text := "0x".toList ++ List.replicate 40 '2'

/-- Both contracts have an owner. The storage of the first does not answer. -/
def partialProvider : ContractProvider where
  metadata contract := some (.object [("address", .string contract)])
  probe contract name :=
    if contract = firstContract ∧ name = storageProbe then none
    else if name = ownerProbe then some ("0x".toList ++ List.replicate 40 'a')
    else some "0x".toList

def answerRows (contract : Text) (idOf : Text → Text) : List Json :=
  probeNames.filterMap fun name => (partialProvider.probe contract name).map fun text =>
    .object [("id", .string (idOf name)), ("result", .string text)]

def aloneRpc (contract : Text) : Reply := .ok (.array (answerRows contract id))

def aloneMetadata (contract : Text) : Reply := .ok (.object [("address", .string contract)])

def chunkRpc : Reply :=
  .ok (.array (answerRows firstContract (probeId 0) ++ answerRows secondContract (probeId 1)))

def chunkMetadata : Reply :=
  .ok (.array [.object [("address", .string secondContract)],
    .object [("address", .string firstContract)]])

def twoContracts : List (Nat × Text) := [(1, firstContract), (2, secondContract)]

theorem partialProvider_chunk : AnswersChunk partialProvider twoContracts chunkMetadata chunkRpc where
  metadata := by
    refine ⟨_, rfl, fun row member address isAddress => ⟨fun reply inside isOwn => ?_, ?_⟩⟩
    · rcases mem_pair.mp member with rfl | rfl <;>
        rcases mem_pair.mp inside with rfl | rfl <;>
        first
          | rfl
          | exact absurd (isOwn.trans isAddress.symm) (by decide +kernel)
    · rintro payload ⟨⟩
      rcases mem_pair.mp member with rfl | rfl
      · exact ⟨by simp, (by decide +kernel : _ = normalizeEvmAddress firstContract).trans isAddress⟩
      · exact ⟨by simp, (by decide +kernel : _ = normalizeEvmAddress secondContract).trans isAddress⟩
  rpc := by
    refine ⟨_, rfl, fun row index found => ?_⟩
    match index with
    | 0 => cases found; decide +kernel
    | 1 => cases found; decide +kernel
    | index + 2 => cases found

theorem partialProvider_single (contract : Text)
    (isOne : contract = firstContract ∨ contract = secondContract) :
    AnswersSingle partialProvider contract (aloneMetadata contract) (aloneRpc contract) where
  metadata := rfl
  rpc := by
    refine ⟨_, rfl, ?_⟩
    rcases isOne with rfl | rfl <;> decide +kernel

/-- Without the storage result the chunk keeps the owner, which the lookup alone drops. -/
theorem fetchControllerChunk_keepsOwner :
    AnswersChunk partialProvider twoContracts chunkMetadata chunkRpc ∧
      AnswersSingle partialProvider firstContract (aloneMetadata firstContract)
        (aloneRpc firstContract) ∧
      (∃ outcomes, fetchControllerChunk (some []) twoContracts chunkMetadata chunkRpc =
          .ok outcomes ∧
        (outcomeOf outcomes 1).map (fun outcome => outcome.value.addresses) =
          some ["0x".toList ++ List.replicate 40 'a']) ∧
      ∃ alone, fetchEvmControllers (some []) (some []) [] (aloneMetadata firstContract)
          (aloneRpc firstContract) = .ok alone ∧ alone.value.addresses = [] :=
  ⟨partialProvider_chunk, partialProvider_single firstContract (.inl rfl),
    ⟨_, rfl, by decide +kernel⟩, _, rfl, by decide +kernel⟩

theorem fetchControllerChunk_single_second : ∃ outcomes outcome alone,
    fetchControllerChunk (some []) twoContracts chunkMetadata chunkRpc = .ok outcomes ∧
      outcomeOf outcomes 2 = some outcome ∧
      fetchEvmControllers (some []) (some []) [] (aloneMetadata secondContract)
        (aloneRpc secondContract) = .ok alone ∧
      (outcome = alone ↔ SameControllers partialProvider secondContract) := by
  rcases fetchControllerChunk_single partialProvider with ⟨together, holds⟩
  rcases holds [] twoContracts chunkMetadata chunkRpc _ (by decide) partialProvider_chunk rfl
    (2, secondContract) (by simp [twoContracts]) with ⟨outcome, isOutcome, -, single⟩
  rcases single [] [] _ _ (partialProvider_single secondContract (.inr rfl)) with
    ⟨alone, isAlone, same⟩
  exact ⟨_, outcome, alone, rfl, isOutcome, isAlone, same⟩

end NftData.Analysis2
