import NftData.Analysis2.Reporting.EvidenceCache

namespace NftData.Analysis2

open Function
open List
open LineFile EvidenceCacheSink

/-! # Histories of the evidence cache

Runs of a sink on one path, which may be cut off while they write and are followed by others.
What is durable at a time is a map of its own: the last bundle of each key that was completely
written to a line or to the snapshot. -/

section

variable {Events Provenance : Type}

abbrev Durable (Events : Type) := EvidenceKey → Option (EvidenceBundle Events)

def Durable.record (durable : Durable Events) (bundles : List (EvidenceBundle Events)) :
    Durable Events :=
  bundles.foldl (fun durable bundle => Function.update durable bundle.key (some bundle)) durable

def Durable.none : Durable Events := fun _ => Option.none

inductive EvidenceCacheOp (Events Provenance : Type) where
  | create (params : EvidenceCacheParams Provenance) (batchSize : Nat)
  | push (bundle : EvidenceBundle Events)
  | noteCached (bundle : EvidenceBundle Events)
  | flush
  | finish
  /-- The process dies in a flush, perhaps that of a last push, after some bytes. -/
  | interrupted (pushed : Option (EvidenceBundle Events)) (bytes : Nat)

structure EvidenceWorld (Events Provenance : Type) where
  disk : EvidenceCacheDisk Events Provenance
  sink : Option (EvidenceCacheSink Events Provenance)

namespace EvidenceCacheSink

/-- The bundles of a sink when its interrupted flush begins. -/
def buffered (sink : EvidenceCacheSink Events Provenance) :
    Option (EvidenceBundle Events) → EvidenceCacheSink Events Provenance
  | none => sink
  | some bundle => sink.buffer bundle

def flushedBy (sink : EvidenceCacheSink Events Provenance) :
    EvidenceCacheOp Events Provenance → List (EvidenceBundle Events)
  | .create _ _ => []
  | .push bundle =>
      if sink.batchSize ≤ (sink.buffer bundle).pending.length then
        (sink.buffer bundle).pending
      else
        []
  | .noteCached _ => []
  | .flush => sink.pending
  | .finish => sink.pending
  | .interrupted pushed _ => (sink.buffered pushed).pending

end EvidenceCacheSink

section Steps

variable (format : BundleFormat Events) (paths : EvidenceCachePaths)

/-- Only `create` needs no sink. It drops one that is still there. -/
def EvidenceWorld.step (world : EvidenceWorld Events Provenance) :
    EvidenceCacheOp Events Provenance → Option (EvidenceWorld Events Provenance)
  | .create params batchSize =>
      let created := EvidenceCacheSink.create format paths world.disk params batchSize
      some ⟨created.1, some created.2⟩
  | .push bundle => world.sink.map fun sink =>
      ⟨(sink.push format world.disk bundle).1, some (sink.push format world.disk bundle).2⟩
  | .noteCached bundle => world.sink.map fun sink =>
      ⟨world.disk, some (sink.noteCached bundle)⟩
  | .flush => world.sink.map fun sink =>
      ⟨(sink.flush format world.disk).1, some (sink.flush format world.disk).2⟩
  | .finish => world.sink.map fun sink => ⟨(sink.finish format world.disk).1, none⟩
  | .interrupted pushed bytes => world.sink.map fun sink =>
      ⟨(sink.buffered pushed).interruptedFlush format world.disk bytes, none⟩

def Durable.after (durable : Durable Events) (sink : EvidenceCacheSink Events Provenance) :
    EvidenceCacheOp Events Provenance → Durable Events
  | .interrupted pushed bytes =>
      durable.record (written format.encode (sink.buffered pushed).pending bytes)
  | .finish => (durable.record sink.pending).record sink.all.sortedBundles
  | op => durable.record (sink.flushedBy op)

def Durable.next (durable : Durable Events) (world : EvidenceWorld Events Provenance)
    (op : EvidenceCacheOp Events Provenance) : Durable Events :=
  match world.sink with
  | some sink => durable.after format sink op
  | Option.none => durable

end Steps

/-! ## Indexes -/

variable {bundle : EvidenceBundle Events} {all : EvidenceIndex Events}

namespace EvidenceIndex

def shown (all : EvidenceIndex Events) : Durable Events := fun key => all.lookup key

def Keyed (all : EvidenceIndex Events) : Prop :=
  ∀ key bundle, all.lookup key = some bundle → bundle.key = key

theorem shown_empty : shown (∅ : EvidenceIndex Events) = Durable.none := by
  funext key
  exact AList.lookup_empty key

theorem shown_add (all : EvidenceIndex Events) (bundle : EvidenceBundle Events) :
    (all.add bundle).shown = Function.update all.shown bundle.key (some bundle) := by
  funext key
  by_cases same : key = bundle.key
  · rw [same, update_self]
    exact AList.lookup_insert all
  · rw [update_of_ne same]
    exact AList.lookup_insert_ne same

theorem shown_addAll (all : EvidenceIndex Events) (bundles : List (EvidenceBundle Events)) :
    (all.addAll bundles).shown = all.shown.record bundles := by
  induction bundles generalizing all with
  | nil => rfl
  | cons bundle bundles induction => exact (induction _).trans (by rw [shown_add]; rfl)

theorem Keyed.empty : Keyed (∅ : EvidenceIndex Events) := by
  intro key bundle found
  rw [AList.lookup_empty] at found
  cases found

theorem Keyed.add (keyed : all.Keyed) (bundle : EvidenceBundle Events) :
    (all.add bundle).Keyed := by
  intro key found isFound
  have shows : (all.add bundle).shown key = some found := isFound
  rw [shown_add] at shows
  by_cases same : key = bundle.key
  · rw [same, update_self] at shows
    rw [← Option.some.inj shows, same]
  · rw [update_of_ne same] at shows
    exact keyed key found shows

theorem Keyed.addAll (keyed : all.Keyed) (bundles : List (EvidenceBundle Events)) :
    (all.addAll bundles).Keyed := by
  induction bundles generalizing all with
  | nil => exact keyed
  | cons bundle bundles induction => exact induction (keyed.add bundle)

theorem Keyed.mem_sortedBundles (keyed : all.Keyed) :
    bundle ∈ all.sortedBundles ↔ all.lookup bundle.key = some bundle := by
  rw [sortedBundles, mem_mergeSort, mem_map]
  constructor
  · intro found
    rcases found with ⟨⟨key, _⟩, member, rfl⟩
    have isFound := AList.mem_lookup_iff.mpr member
    have same := keyed key _ isFound
    rw [same]
    exact isFound
  · intro isFound
    exact ⟨⟨bundle.key, bundle⟩, AList.mem_lookup_iff.mp isFound, rfl⟩

end EvidenceIndex

namespace Durable

theorem record_append (durable : Durable Events) (first second : List (EvidenceBundle Events)) :
    durable.record (first ++ second) = (durable.record first).record second :=
  List.foldl_append

variable {bundles : List (EvidenceBundle Events)}

section

variable (durable : Durable Events) {key : EvidenceKey}

theorem record_of_forall_ne (other : ∀ bundle ∈ bundles, bundle.key ≠ key) :
    durable.record bundles key = durable key := by
  induction bundles generalizing durable with
  | nil => rfl
  | cons bundle bundles induction =>
      have rest := induction (Function.update durable bundle.key (some bundle))
        (fun later member => other later (mem_cons_of_mem _ member))
      exact rest.trans (update_of_ne (other bundle mem_cons_self).symm _ _)

theorem record_of_unique (member : bundle ∈ bundles)
    (unique : ∀ other ∈ bundles, other.key = bundle.key → other = bundle) :
    durable.record bundles bundle.key = some bundle := by
  induction bundles generalizing durable with
  | nil => exact absurd member not_mem_nil
  | cons head bundles induction =>
      by_cases later : bundle ∈ bundles
      · exact induction _ later fun other inside =>
          unique other (mem_cons_of_mem _ inside)
      · have same : bundle = head := (mem_cons.mp member).resolve_right later
        subst same
        have others : ∀ other ∈ bundles, other.key ≠ bundle.key := fun other inside equal =>
          later (unique other (mem_cons_of_mem _ inside) equal ▸ inside)
        exact (record_of_forall_ne _ others).trans (update_self _ _ _)

theorem record_sortedBundles (keyed : all.Keyed) (key : EvidenceKey) :
    durable.record all.sortedBundles key = (all.shown key).or (durable key) := by
  cases found : all.shown key with
  | none =>
      apply record_of_forall_ne
      intro bundle member same
      have isFound := keyed.mem_sortedBundles.mp member
      rw [same] at isFound
      exact absurd (found.symm.trans isFound) (fun impossible => by cases impossible)
  | some bundle =>
      have same := keyed key bundle found
      subst same
      apply record_of_unique _ (keyed.mem_sortedBundles.mpr found)
      intro other member equal
      have isFound := keyed.mem_sortedBundles.mp member
      rw [equal] at isFound
      exact Option.some.inj (isFound.symm.trans found)

theorem record_eq_none :
    durable.record bundles key = Option.none ↔
      durable key = Option.none ∧ ∀ bundle ∈ bundles, bundle.key ≠ key := by
  induction bundles generalizing durable with
  | nil => exact ⟨fun none_ => ⟨none_, by simp⟩, fun none_ => none_.1⟩
  | cons bundle bundles induction =>
      apply (induction (Function.update durable bundle.key (some bundle))).trans
      rw [forall_mem_cons]
      by_cases same : key = bundle.key
      · simp [same]
      · simp [update_of_ne same, Ne.symm same]

end

end Durable

/-- The encoding of bundles round-trips on a line of its own, and a torn line is not read. -/
structure BundleFormat.Lawful (format : BundleFormat Events) : Prop where
  oneLine : OneLine lineBreak format.encode
  reads : ∀ bundle, ∃ text, format.decodeText (format.encode bundle) = .ok text ∧
    text.trim ≠ [] ∧ format.parse text.trim = .ok bundle
  torn : ∀ bundle bytes, TornRow format.encode bundle bytes → ∀ text,
    format.decodeText bytes = .ok text →
      text.trim ≠ [] ∧ ∃ detail, format.parse text.trim = .error detail

variable {format : BundleFormat Events} (paths : EvidenceCachePaths)

theorem loadEvidenceLines_rows (lawful : format.Lawful) (lineNo : Nat)
    (all : EvidenceIndex Events) (rows : List (EvidenceBundle Events))
    (rest : List (List UInt8)) :
    loadEvidenceLines format paths lineNo all (rows.map format.encode ++ rest) =
      loadEvidenceLines format paths (lineNo + rows.length) (all.addAll rows) rest := by
  induction rows generalizing lineNo all with
  | nil => rfl
  | cons row rows induction =>
      rcases lawful.reads row with ⟨text, decoded, nonempty, parsed⟩
      rw [map_cons, cons_append, loadEvidenceLines]
      simp only [decoded, parsed]
      rw [if_neg (by rwa [List.isEmpty_iff]), induction, length_cons,
        Nat.add_right_comm, Nat.add_assoc]
      rfl

variable {bytes : List UInt8}

theorem loadEvidenceLines_torn (lawful : format.Lawful) (torn : TornRow format.encode bundle bytes)
    (lineNo : Nat) (all : EvidenceIndex Events) (rest : List (List UInt8)) :
    ∃ error, loadEvidenceLines format paths lineNo all (bytes :: rest) = .error error := by
  rw [loadEvidenceLines]
  cases decoded : format.decodeText bytes with
  | error detail => exact ⟨_, rfl⟩
  | ok text =>
      rcases lawful.torn bundle bytes torn text decoded with ⟨nonempty, detail, refused⟩
      simp only [refused]
      rw [if_neg (by rwa [List.isEmpty_iff])]
      exact ⟨_, rfl⟩

theorem lines_of_tornRow (lawful : format.Lawful) (torn : TornRow format.encode bundle bytes) :
    lines lineBreak bytes = [bytes] :=
  lines_of_unbroken lineBreak torn.nonempty fun broken =>
    lawful.oneLine.unbroken bundle (torn.isPrefix.subset broken)

/-- A cache that the current version reads, with the given bounds. -/
structure Reusable (bounds : List Nat) (version : Nat)
    (params : EvidenceCacheParams Provenance) : Prop where
  version : checkEvidenceCacheVersion version = .ok ()
  bounds : params.bounds = bounds

theorem reusable_current (params : EvidenceCacheParams Provenance) :
    Reusable params.bounds evidenceCacheVersion params :=
  ⟨rfl, rfl⟩

section Disks

variable (format) (bounds : List Nat) (disk : EvidenceCacheDisk Events Provenance)
  (durable : Durable Events)

def HasMeta : Prop :=
  ∃ metaFile, disk.metaFile = some metaFile ∧
    Reusable bounds metaFile.version metaFile.params

/-- The lines show what is durable. A missing file shows nothing. -/
structure LinesShow : Prop where
  hasMeta : HasMeta bounds disk
  rows : ∃ rows, Shows lineBreak format.encode (disk.jsonl.getD []) rows ∧
    Durable.none.record rows = durable

def SnapshotShows : Prop :=
  (disk.snapshot = none ∧ durable = Durable.none) ∨
  ∃ file, disk.snapshot = some file ∧ Reusable bounds file.version file.params ∧
    Durable.none.record file.bundles = durable

/-- A torn line while nothing is durable. -/
structure OnlyTorn : Prop where
  hasMeta : HasMeta bounds disk
  torn : ∃ bundle bytes, disk.jsonl = some bytes ∧ TornRow format.encode bundle bytes
  nothing : durable = Durable.none

def SnapshotCovered : Prop :=
  ∀ file, disk.snapshot = some file → Reusable bounds file.version file.params ∧
    ∀ key, durable key = none → Durable.none.record file.bundles key = none

end Disks

variable {disk : EvidenceCacheDisk Events Provenance} {bounds : List Nat}

theorem SnapshotCovered.shows (covered : SnapshotCovered bounds disk Durable.none) :
    SnapshotShows bounds disk Durable.none := by
  cases snapshot : disk.snapshot with
  | none => exact .inl ⟨snapshot, rfl⟩
  | some file =>
      refine .inr ⟨file, snapshot, (covered file snapshot).1, ?_⟩
      funext key
      exact (covered file snapshot).2 key rfl

theorem SnapshotCovered.mono {first second : Durable Events}
    (covered : SnapshotCovered bounds disk first)
    (grows : ∀ key, second key = none → first key = none) :
    SnapshotCovered bounds disk second := fun file found =>
  ⟨(covered file found).1, fun key none_ => (covered file found).2 key (grows key none_)⟩

variable {durable : Durable Events}

theorem LinesShow.loads (lawful : format.Lawful) (shows : LinesShow format bounds disk durable)
    (present : disk.jsonl ≠ none) :
    ∃ file, loadEvidenceCacheResumable format paths disk = .ok file ∧
      file.params.bounds = bounds ∧ Durable.none.record file.bundles = durable := by
  rcases shows.hasMeta with ⟨metaFile, found, reusable⟩
  rcases shows.rows with ⟨rows, shown, rfl⟩
  rcases Option.ne_none_iff_exists'.mp present with ⟨content, isContent⟩
  rw [isContent, Option.getD_some] at shown
  have read := loadEvidenceLines_rows paths lawful 0 ∅ rows []
  rw [append_nil, ← lines_of_shows lawful.oneLine shown] at read
  have keyed := EvidenceIndex.Keyed.empty.addAll rows
  have loaded := EvidenceIndex.shown_addAll ∅ rows
  rw [EvidenceIndex.shown_empty] at loaded
  refine ⟨⟨metaFile.version, metaFile.params, (EvidenceIndex.addAll ∅ rows).sortedBundles⟩,
    ?_, reusable.bounds, ?_⟩
  · rw [loadEvidenceCacheResumable, found, isContent]
    simp only [reusable.version, read]
    rfl
  · funext key
    rw [Durable.record_sortedBundles _ keyed, loaded]
    exact Option.or_none

theorem SnapshotShows.loads (shows : SnapshotShows bounds disk durable)
    (missing : disk.jsonl = none) (present : disk.snapshot ≠ none) :
    ∃ file, loadEvidenceCacheResumable format paths disk = .ok file ∧
      file.params.bounds = bounds ∧ Durable.none.record file.bundles = durable := by
  rcases shows with ⟨absent, -⟩ | ⟨file, found, reusable, shown⟩
  · exact absurd absent present
  · refine ⟨file, ?_, reusable.bounds, shown⟩
    have loads : loadEvidenceCache file = .ok file := by
      rw [loadEvidenceCache, reusable.version]
      rfl
    rw [loadEvidenceCacheResumable, missing]
    cases disk.metaFile <;> simp only [found, loads]

end

end NftData.Analysis2
