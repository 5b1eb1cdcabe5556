import NftData.Dedup.Uri.TokenWorker

namespace NftData.Dedup

/-! # Contributions of token URI groups

A worker only ever adds to its state. What a group adds does not depend on the state, so
groups may be given to workers in any division. -/

open List
open LocalUriAccumulator (add_eq_merge collect_append merge_assoc)

/-- What a group adds to a worker. -/
@[ext] structure TokenContributions where
  uri : List (ScopeKey × ScopeAggregate)
  intra : List Nat
  crossSummary : List Nat
  matrix : List (Nat × Nat)

namespace TokenContributions

def none : TokenContributions := ⟨[], [], [], []⟩

def append (first second : TokenContributions) : TokenContributions where
  uri := first.uri ++ second.uri
  intra := first.intra ++ second.intra
  crossSummary := first.crossSummary ++ second.crossSummary
  matrix := first.matrix ++ second.matrix

def gather (parts : List TokenContributions) : TokenContributions where
  uri := parts.flatMap uri
  intra := parts.flatMap intra
  crossSummary := parts.flatMap crossSummary
  matrix := parts.flatMap matrix

end TokenContributions

namespace MatrixWorkerHits

def extend : MatrixWorkerHits → List (Nat × Nat) → MatrixWorkerHits
  | .compact entries, more => .compact (entries ++ more)
  | .wide entries, more => .wide (entries ++ more)

def isCompact : MatrixWorkerHits → Bool
  | .compact _ => true
  | .wide _ => false

@[simp] theorem isCompact_extend (hits : MatrixWorkerHits) (more : List (Nat × Nat)) :
    (hits.extend more).isCompact = hits.isCompact := by
  cases hits <;> rfl

end MatrixWorkerHits

/-- The contribution of a posting to a scope of the token dimension. -/
def tokenScope (posting : UriPosting) (kind : ScopeKind) (secondaryChain : Option Nat) :
    ScopeKey × ScopeAggregate :=
  LocalUriAccumulator.contribution posting posting.nftIds.length .tokenUri kind secondaryChain

namespace TokenContributions

def ofIntra (posting : UriPosting) : TokenContributions :=
  ⟨[tokenScope posting .intraChain .none], posting.nftIds, [], []⟩

def ofCrossSummary (posting : UriPosting) : TokenContributions :=
  ⟨[tokenScope posting .crossChainSummary .none], [], posting.nftIds, []⟩

def peers (posting : UriPosting) (chains : List Nat) : List Nat :=
  chains.filter fun chain => chain ≠ posting.chainId

variable {posting : UriPosting} {head : Nat}

theorem peers_cons_of_ne (other : head ≠ posting.chainId) (tail : List Nat) :
    peers posting (head :: tail) = head :: peers posting tail :=
  filter_cons_of_pos (by simpa using other)

theorem peers_cons_self (own : head = posting.chainId) (tail : List Nat) :
    peers posting (head :: tail) = peers posting tail :=
  filter_cons_of_neg (by simpa using own)

def ofMatrix (compact : Bool) (posting : UriPosting) (chains : List Nat) :
    TokenContributions where
  uri := (peers posting chains).map fun chain => tokenScope posting .chainMatrix (some chain)
  intra := []
  crossSummary := []
  matrix :=
    if compact then
      posting.nftIds.map fun nftId =>
        (nftId, chains.foldl
          (fun mask chain => if chain = posting.chainId then mask else mask ||| 1 <<< chain) 0)
    else
      (peers posting chains).flatMap fun chain => posting.nftIds.map fun nftId => (nftId, chain)

def onlyIf (condition : Prop) [Decidable condition] (added : TokenContributions) :
    TokenContributions :=
  if condition then added else none

/-- What a group adds to a worker with masks. -/
def ofGroupCompact (members : List UriPosting) : TokenContributions :=
  let chains := setBits (members.foldl (fun mask posting => mask ||| 1 <<< posting.chainId) 0)
  gather (members.map fun posting =>
    append
      (onlyIf (2 ≤ members.countP fun other => other.chainId = posting.chainId)
        (ofIntra posting))
      (onlyIf (2 ≤ chains.length)
        (append (ofCrossSummary posting) (ofMatrix true posting chains))))

/-- What a group adds to a worker with pairs. -/
def ofGroupWide (iteration : IterationOrder) (members : List UriPosting) :
    TokenContributions :=
  let byChain := postingsByChain iteration members
  let chains := byChain.map Prod.fst
  gather (byChain.map fun entry =>
    append
      (append (onlyIf (2 ≤ entry.2.length) (gather (entry.2.map ofIntra)))
        (onlyIf (2 ≤ chains.length) (gather (entry.2.map ofCrossSummary))))
      (onlyIf (2 ≤ chains.length)
        (gather (entry.2.map fun posting => ofMatrix false posting chains))))

def ofGroup (compact : Bool) (iteration : IterationOrder) (members : List UriPosting) :
    TokenContributions :=
  onlyIf (2 ≤ members.length)
    (if compact then ofGroupCompact members else ofGroupWide iteration members)

end TokenContributions

namespace TokenWorker

def apply (worker : TokenWorker) (added : TokenContributions) : TokenWorker where
  uri := worker.uri.merge (.collect added.uri)
  intra := worker.intra ++ added.intra
  crossSummary := worker.crossSummary ++ added.crossSummary
  matrix := worker.matrix.extend added.matrix

@[simp] theorem isCompact_apply (worker : TokenWorker) (added : TokenContributions) :
    (worker.apply added).matrix.isCompact = worker.matrix.isCompact :=
  MatrixWorkerHits.isCompact_extend ..

theorem apply_none (worker : TokenWorker) : worker.apply .none = worker := by
  rcases worker with ⟨uri, intra, crossSummary, matrix⟩
  cases matrix <;> simp [apply, TokenContributions.none, MatrixWorkerHits.extend,
    LocalUriAccumulator.collect]

theorem apply_apply (worker : TokenWorker) (first second : TokenContributions) :
    (worker.apply first).apply second = worker.apply (first.append second) := by
  rcases worker with ⟨uri, intra, crossSummary, matrix⟩
  cases matrix <;> simp [apply, TokenContributions.append, MatrixWorkerHits.extend,
    collect_append, merge_assoc]

variable {worker : TokenWorker} {compact : Bool}

theorem foldl_apply {α : Type} {step : TokenWorker → α → TokenWorker}
    {added : α → TokenContributions} (adds : ∀ worker value, worker.matrix.isCompact = compact →
      step worker value = worker.apply (added value)) (width : worker.matrix.isCompact = compact)
    (values : List α) :
    values.foldl step worker = worker.apply (.gather (values.map added)) := by
  induction values generalizing worker with
  | nil => exact (apply_none worker).symm
  | cons head tail induction =>
      rw [foldl_cons, adds worker head width,
        induction ((isCompact_apply ..).trans width), apply_apply]
      rfl

/-- Merging a worker is adding what it has added. -/
theorem merge_apply {chainCount : Nat}
    (width : worker.matrix.isCompact = decide (chainCount ≤ compactChains))
    (added : TokenContributions) :
    worker.merge ((new chainCount).apply added) = worker.apply added := by
  rcases worker with ⟨uri, intra, crossSummary, matrix⟩
  by_cases few : chainCount ≤ compactChains
  · cases matrix with
    | compact entries =>
        simp [merge, apply, new, few, MatrixWorkerHits.extend]
    | wide entries => simp [MatrixWorkerHits.isCompact, few] at width
  · cases matrix with
    | compact entries => simp [MatrixWorkerHits.isCompact, few] at width
    | wide entries =>
        simp [merge, apply, new, few, MatrixWorkerHits.extend]

/-! ## What each operation adds -/

theorem addIntra_eq (worker : TokenWorker) (posting : UriPosting) :
    worker.addIntra posting = worker.apply (.ofIntra posting) := by
  rcases worker with ⟨uri, intra, crossSummary, matrix⟩
  cases matrix <;> simp [addIntra, apply, TokenContributions.ofIntra, tokenScope,
    add_eq_merge, MatrixWorkerHits.extend]

theorem addCrossSummary_eq (worker : TokenWorker) (posting : UriPosting) :
    worker.addCrossSummary posting = worker.apply (.ofCrossSummary posting) := by
  rcases worker with ⟨uri, intra, crossSummary, matrix⟩
  cases matrix <;> simp [addCrossSummary, apply, TokenContributions.ofCrossSummary, tokenScope,
    add_eq_merge, MatrixWorkerHits.extend]

theorem matrix_uri_eq (uri : LocalUriAccumulator) (posting : UriPosting) (chains : List Nat) :
    chains.foldl
        (fun uri secondary =>
          if secondary ≠ posting.chainId then
            uri.add posting posting.nftIds.length .tokenUri .chainMatrix (some secondary)
          else uri)
        uri =
      uri.merge (.collect ((TokenContributions.peers posting chains).map fun chain =>
        tokenScope posting .chainMatrix (some chain))) := by
  induction chains generalizing uri with
  | nil => rfl
  | cons head tail induction =>
      rw [foldl_cons, induction]
      by_cases own : head = posting.chainId
      · rw [if_neg (not_not_intro own), TokenContributions.peers_cons_self own]
      · rw [if_pos own, TokenContributions.peers_cons_of_ne own, map_cons,
          add_eq_merge, merge_assoc,
          ← collect_append]
        rfl

theorem matrix_wide_eq (entries : List (Nat × Nat)) (posting : UriPosting)
    (chains : List Nat) :
    chains.foldl
        (fun entries secondary =>
          if secondary ≠ posting.chainId then
            entries ++ posting.nftIds.map fun nftId => (nftId, secondary)
          else entries)
        entries =
      entries ++ (TokenContributions.peers posting chains).flatMap fun chain =>
        posting.nftIds.map fun nftId => (nftId, chain) := by
  induction chains generalizing entries with
  | nil => simp [TokenContributions.peers]
  | cons head tail induction =>
      rw [foldl_cons, induction]
      by_cases own : head = posting.chainId
      · rw [if_neg (not_not_intro own), TokenContributions.peers_cons_self own]
      · rw [if_pos own, TokenContributions.peers_cons_of_ne own, flatMap_cons,
          List.append_assoc]

theorem addMatrix_eq (width : worker.matrix.isCompact = compact) (posting : UriPosting)
    (chains : List Nat) :
    worker.addMatrix posting chains = worker.apply (.ofMatrix compact posting chains) := by
  rcases worker with ⟨uri, intra, crossSummary, matrix⟩
  subst width
  cases matrix with
  | compact entries =>
      simp only [addMatrix, matrix_uri_eq, apply, TokenContributions.ofMatrix,
        MatrixWorkerHits.extend, MatrixWorkerHits.isCompact, if_true, append_nil]
  | wide entries =>
      simp only [addMatrix, matrix_uri_eq, matrix_wide_eq, apply, TokenContributions.ofMatrix,
        MatrixWorkerHits.extend, MatrixWorkerHits.isCompact, Bool.false_eq_true, if_false,
        append_nil]

theorem apply_onlyIf (worker : TokenWorker) (condition : Prop) [Decidable condition]
    (added : TokenContributions) :
    worker.apply (.onlyIf condition added) =
      if condition then worker.apply added else worker := by
  rw [TokenContributions.onlyIf]
  split
  · rfl
  · exact apply_none worker

theorem accumulateTokenScopeHitsCompact_eq (width : worker.matrix.isCompact = true)
    (members : List UriPosting) :
    accumulateTokenScopeHitsCompact members worker =
      worker.apply (.ofGroupCompact members) := by
  apply foldl_apply _ width
  intro worker posting width
  rw [← apply_apply, apply_onlyIf, apply_onlyIf, addIntra_eq]
  have stillCompact : (if 2 ≤ members.countP fun other => other.chainId = posting.chainId then
      worker.apply (.ofIntra posting) else worker).matrix.isCompact = true := by
    split
    · exact (isCompact_apply ..).trans width
    · exact width
  rw [← apply_apply, ← addCrossSummary_eq, ← addMatrix_eq]
  rw [addCrossSummary_eq, isCompact_apply, stillCompact]

theorem accumulateTokenScopeHitsWide_eq (width : worker.matrix.isCompact = false)
    (iteration : IterationOrder) (members : List UriPosting) :
    accumulateTokenScopeHitsWide iteration members worker =
      worker.apply (.ofGroupWide iteration members) := by
  apply foldl_apply _ width
  intro worker entry width
  have intra : ∀ {worker : TokenWorker}, worker.matrix.isCompact = false →
      entry.2.foldl .addIntra worker = worker.apply (.gather (entry.2.map .ofIntra)) :=
    fun isWide => foldl_apply (fun worker posting _ => addIntra_eq worker posting) isWide _
  have cross : ∀ {worker : TokenWorker}, worker.matrix.isCompact = false →
      entry.2.foldl .addCrossSummary worker =
        worker.apply (.gather (entry.2.map .ofCrossSummary)) :=
    fun isWide =>
      foldl_apply (fun worker posting _ => addCrossSummary_eq worker posting) isWide _
  have matrix : ∀ {worker : TokenWorker} (chains : List Nat),
      worker.matrix.isCompact = false →
      entry.2.foldl (fun worker posting => worker.addMatrix posting chains) worker =
        worker.apply (.gather (entry.2.map fun posting => .ofMatrix false posting chains)) :=
    fun chains isWide =>
      foldl_apply (fun worker posting isWide => addMatrix_eq isWide posting chains) isWide _
  simp only [← apply_apply, apply_onlyIf]
  rw [intra width]
  have stillWide : (if 2 ≤ entry.2.length then
      worker.apply (.gather (entry.2.map .ofIntra)) else worker).matrix.isCompact = false := by
    split
    · exact (isCompact_apply ..).trans width
    · exact width
  by_cases several : 2 ≤ ((postingsByChain iteration members).map Prod.fst).length
  · rw [if_pos several, if_pos several, if_pos several, if_pos several, cross stillWide,
      matrix _ ((isCompact_apply ..).trans stillWide)]
  · rw [if_neg several, if_neg several, if_neg several, if_neg several]

theorem accumulateTokenScopeHits_eq (width : worker.matrix.isCompact = compact)
    (iteration : IterationOrder) (members : List UriPosting) :
    accumulateTokenScopeHits iteration members worker =
      worker.apply (.ofGroup compact iteration members) := by
  rw [accumulateTokenScopeHits, TokenContributions.ofGroup, apply_onlyIf]
  by_cases few : members.length < 2
  · rw [if_pos few, if_neg (Nat.not_le.mpr few)]
  · rw [if_neg few, if_pos (Nat.not_lt.mp few)]
    cases isMatrix : worker.matrix with
    | compact entries =>
        rw [isMatrix] at width
        subst width
        exact accumulateTokenScopeHitsCompact_eq (by rw [isMatrix]; rfl) members
    | wide entries =>
        rw [isMatrix] at width
        subst width
        exact accumulateTokenScopeHitsWide_eq (by rw [isMatrix]; rfl) iteration members

end TokenWorker

end NftData.Dedup
