import NftData.Analysis2.Reporting.EvidenceHistory

namespace NftData.Analysis2

open List
open EvidenceCacheSink (appendBytes interruptedFlush)
open EvidenceIndex (addAll shown_add shown_empty)
open LineFile EvidenceCacheSink

/-! # Evidence that survives interruptions

What each operation keeps of the durable bundles, and what therefore holds in every run. -/

section

variable {Events Provenance : Type} {format : BundleFormat Events}
  (paths : EvidenceCachePaths)

/-! ## What a sink does -/

def Readable (format : BundleFormat Events) (bounds : List Nat)
    (disk : EvidenceCacheDisk Events Provenance) (durable : Durable Events) : Prop :=
  LinesShow format bounds disk durable ∨
  (disk.jsonl = none ∧ SnapshotShows bounds disk durable) ∨ OnlyTorn format bounds disk durable

structure SinkHolds (bounds : List Nat) (sink : EvidenceCacheSink Events Provenance)
    (durable : Durable Events) : Prop where
  bounds : sink.params.bounds = bounds
  keyed : sink.all.Keyed
  pending : ∀ bundle ∈ sink.pending, sink.all.shown bundle.key ≠ none
  covers : ∀ key, sink.all.shown key = none → durable key = none

variable {rows : List (EvidenceBundle Events)}

theorem Durable.rows_eq_nil (nothing : Durable.none.record rows = Durable.none) : rows = [] := by
  cases rows with
  | nil => rfl
  | cons row rows =>
      have missing := (Durable.record_eq_none Durable.none).mp (congrFun nothing row.key)
      exact absurd rfl (missing.2 row mem_cons_self)

variable {disk : EvidenceCacheDisk Events Provenance} {bounds : List Nat}

theorem LinesShow.nothing_of_missing (lawful : format.Lawful) {durable : Durable Events}
    (shows : LinesShow format bounds disk durable) (missing : disk.jsonl = none) :
    durable = Durable.none := by
  rcases shows.rows with ⟨rows, shown, recorded⟩
  rw [missing, Option.getD_none] at shown
  rw [← recorded, shown.rows_eq_nil lawful.oneLine]
  rfl

theorem LinesShow.content_of_nothing (shows : LinesShow format bounds disk Durable.none) :
    disk.jsonl.getD [] = [] := by
  rcases shows.rows with ⟨rows, shown, recorded⟩
  rw [Durable.rows_eq_nil recorded] at shown
  exact shown.nil_of_none

variable {bundle : EvidenceBundle Events} {bytes : List UInt8}

section Create

variable {bounds : List Nat} {disk : EvidenceCacheDisk Events Provenance} {durable : Durable Events}
  {params : EvidenceCacheParams Provenance} {file : EvidenceCacheFile Events Provenance}

section

variable (present : disk.snapshot.isSome ∨ (disk.metaFile.isSome ∧ disk.jsonl.isSome))
include present

theorem resume_of_loads (loads : loadEvidenceCacheResumable format paths disk = .ok file)
    (same : file.params.bounds = params.bounds) :
    resume format paths disk params = (disk, addAll ∅ file.bundles) := by
  rw [resume, if_pos present, loads]
  dsimp only
  rw [validateEvidenceCache, if_neg (not_not.mpr same)]

theorem resume_of_error {error : Analysis2Error}
    (fails : loadEvidenceCacheResumable format paths disk = .error error) :
    resume format paths disk params = ({ disk with jsonl := none }, ∅) := by
  rw [resume, if_pos present, fails]

end

/-- A torn line makes the lines before it unreadable. -/
theorem load_of_torn (lawful : format.Lawful) (hasMeta : HasMeta bounds disk)
    (torn : TornRow format.encode bundle bytes)
    (content : disk.jsonl = some (appended lineBreak format.encode rows ++ bytes)) :
    ∃ error, loadEvidenceCacheResumable format paths disk = .error error := by
  rcases hasMeta with ⟨metaFile, found, reusable⟩
  rcases loadEvidenceLines_torn paths lawful torn (0 + rows.length)
    (addAll ∅ rows) [] with ⟨error, fails⟩
  rw [← loadEvidenceLines_rows paths lawful] at fails
  refine ⟨error, ?_⟩
  rw [loadEvidenceCacheResumable, found, content]
  simp only [reusable.version, lines_appended lawful.oneLine, lines_of_tornRow lawful torn,
    fails]
  rfl

/-- The next sink removes them all. -/
theorem resume_of_torn (lawful : format.Lawful) (hasMeta : HasMeta bounds disk)
    (torn : TornRow format.encode bundle bytes)
    (content : disk.jsonl = some (appended lineBreak format.encode rows ++ bytes)) :
    resume format paths disk params = ({ disk with jsonl := none }, ∅) := by
  rcases load_of_torn paths lawful hasMeta torn content with ⟨error, fails⟩
  have present : disk.metaFile.isSome ∧ disk.jsonl.isSome := by
    rcases hasMeta with ⟨metaFile, found, -⟩
    exact ⟨Option.isSome_of_eq_some found, Option.isSome_of_eq_some content⟩
  exact resume_of_error paths (.inr present) fails

/-- What `resume` leaves: an index of what is durable, over lines that show it, if any. -/
structure Resumed (format : BundleFormat Events) (before : EvidenceCacheDisk Events Provenance)
    (durable : Durable Events)
    (resumed : EvidenceCacheDisk Events Provenance × EvidenceIndex Events) : Prop where
  shown : resumed.2.shown = durable
  keyed : resumed.2.Keyed
  snapshot : resumed.1.snapshot = before.snapshot
  lines : resumed.1.jsonl ≠ none → ∃ rows,
    Shows lineBreak format.encode (resumed.1.jsonl.getD []) rows ∧
      Durable.none.record rows = durable

theorem Resumed.of_loads
    (present : disk.snapshot.isSome ∨ (disk.metaFile.isSome ∧ disk.jsonl.isSome))
    (loads : loadEvidenceCacheResumable format paths disk = .ok file)
    (same : file.params.bounds = params.bounds) (shown : Durable.none.record file.bundles = durable)
    (lines : disk.jsonl ≠ none → ∃ rows,
      Shows lineBreak format.encode (disk.jsonl.getD []) rows ∧
        Durable.none.record rows = durable) :
    Resumed format disk durable (resume format paths disk params) := by
  rw [resume_of_loads paths present loads same]
  refine ⟨?_, EvidenceIndex.Keyed.empty.addAll _, rfl, lines⟩
  rw [EvidenceIndex.shown_addAll, shown_empty, shown]

theorem resumed_of_snapshotShows (shows : SnapshotShows bounds disk durable)
    (missing : disk.jsonl = none) (same : params.bounds = bounds) :
    Resumed format disk durable (resume format paths disk params) := by
  by_cases present : disk.snapshot = none
  · have nothing : durable = Durable.none := by
      rcases shows with ⟨-, nothing⟩ | ⟨file, found, -⟩
      · exact nothing
      · rw [present] at found
        cases found
    have skipped : resume format paths disk params = (disk, ∅) := by
      rw [resume, if_neg]
      rw [present, missing]
      simp
    rw [skipped, nothing]
    exact ⟨shown_empty, EvidenceIndex.Keyed.empty, rfl,
      fun lines => absurd missing lines⟩
  · rcases shows.loads paths missing present with ⟨file, loads, fileBounds, shown⟩
    exact Resumed.of_loads paths (.inl (Option.isSome_iff_ne_none.mpr present)) loads
      (fileBounds.trans same.symm) shown (fun lines => absurd missing lines)

theorem resumed_of_readable (lawful : format.Lawful)
    (covered : SnapshotCovered bounds disk durable)
    (readable : Readable format bounds disk durable) (same : params.bounds = bounds) :
    Resumed format disk durable (resume format paths disk params) := by
  rcases readable with shows | ⟨missing, shows⟩ | torn
  · by_cases missing : disk.jsonl = none
    · have nothing := shows.nothing_of_missing lawful missing
      subst nothing
      exact resumed_of_snapshotShows paths covered.shows missing same
    · rcases shows.loads paths lawful missing with ⟨file, loads, fileBounds, shown⟩
      have present : disk.metaFile.isSome ∧ disk.jsonl.isSome := by
        rcases shows.hasMeta with ⟨metaFile, found, -⟩
        exact ⟨Option.isSome_of_eq_some found, Option.isSome_iff_ne_none.mpr missing⟩
      exact Resumed.of_loads paths (.inr present) loads (fileBounds.trans same.symm) shown
        (fun _ => shows.rows)
  · exact resumed_of_snapshotShows paths shows missing same
  · rcases torn.torn with ⟨bundle, bytes, isContent, tornRow⟩
    have content : disk.jsonl = some (appended lineBreak format.encode [] ++ bytes) := isContent
    rw [resume_of_torn paths lawful torn.hasMeta tornRow content, torn.nothing]
    exact ⟨shown_empty, EvidenceIndex.Keyed.empty, rfl,
      fun lines => absurd rfl lines⟩

/-- A new sink indexes what is durable, over lines that show it. -/
theorem create_shows (lawful : format.Lawful) (covered : SnapshotCovered bounds disk durable)
    (readable : Readable format bounds disk durable) (same : params.bounds = bounds)
    (batchSize : Nat) :
    let created := EvidenceCacheSink.create format paths disk params batchSize
    LinesShow format bounds created.1 durable ∧ created.1.snapshot = disk.snapshot ∧
      created.2.all.shown = durable ∧ SinkHolds bounds created.2 durable := by
  have resumed := resumed_of_readable paths lawful covered readable same
  refine ⟨⟨⟨_, rfl, rfl, same⟩, ?_⟩, resumed.snapshot, resumed.shown, same, resumed.keyed,
    by simp [EvidenceCacheSink.create], ?_⟩
  · simp only [EvidenceCacheSink.create]
    split
    · refine ⟨_, .inl Option.getD_some, ?_⟩
      funext key
      rw [Durable.record_sortedBundles _ resumed.keyed, resumed.shown]
      exact Option.or_none
    · next kept =>
        by_cases missing : (resume format paths disk params).1.jsonl = none
        · rw [missing] at kept ⊢
          have noEntries : (resume format paths disk params).2.entries = [] := by
            simpa using kept
          refine ⟨[], .inl rfl, ?_⟩
          rw [← resumed.shown]
          funext key
          rw [EvidenceIndex.shown, AList.lookup, noEntries]
          rfl
        · exact resumed.lines missing
  · intro key none_
    rw [← resumed.shown]
    exact none_

end Create

section Writes

variable {bounds : List Nat} {disk : EvidenceCacheDisk Events Provenance}
  {sink : EvidenceCacheSink Events Provenance} {durable : Durable Events}

theorem mem_replacePending {other : EvidenceBundle Events} {pending : List (EvidenceBundle Events)}
    (member : other ∈ replacePending bundle pending) :
    other = bundle ∨ other ∈ pending := by
  induction pending with
  | nil => exact .inl (mem_singleton.mp member)
  | cons head pending induction =>
      rw [replacePending] at member
      split at member
      · rcases mem_cons.mp member with equal | later
        · exact .inl equal
        · exact .inr (mem_cons_of_mem _ later)
      · rcases mem_cons.mp member with equal | later
        · exact .inr (equal ▸ mem_cons_self)
        · exact (induction later).imp_right (mem_cons_of_mem _)

theorem EvidenceIndex.shown_add_ne_none {all : EvidenceIndex Events} {key : EvidenceKey}
    (bundle : EvidenceBundle Events) (found : all.shown key ≠ none) :
    (all.add bundle).shown key ≠ none := by
  rw [shown_add]
  by_cases same : key = bundle.key
  · rw [same, Function.update_self]
    exact Option.some_ne_none bundle
  · rwa [Function.update_of_ne same]

section

variable (holds : SinkHolds bounds sink durable)
include holds

theorem SinkHolds.noteCached
    (bundle : EvidenceBundle Events) : SinkHolds bounds (sink.noteCached bundle) durable where
  bounds := holds.bounds
  keyed := holds.keyed.add _
  pending := fun other member =>
    EvidenceIndex.shown_add_ne_none _ (holds.pending other member)
  covers := fun key none_ => holds.covers key (by
    by_contra found
    exact EvidenceIndex.shown_add_ne_none bundle.portable found none_)

theorem SinkHolds.buffer
    (bundle : EvidenceBundle Events) : SinkHolds bounds (sink.buffer bundle) durable where
  bounds := holds.bounds
  keyed := holds.keyed.add _
  pending := by
    intro other member
    rcases mem_replacePending member with equal | old
    · have found : (sink.all.add bundle.portable).shown bundle.portable.key ≠ none := by
        rw [shown_add, Function.update_self]
        exact Option.some_ne_none _
      exact equal ▸ found
    · exact EvidenceIndex.shown_add_ne_none _ (holds.pending other old)
  covers := (holds.noteCached bundle).covers

theorem SinkHolds.record (inside : ∀ row ∈ rows, row ∈ sink.pending) :
    ∀ key, sink.all.shown key = none → durable.record rows key = none := by
  intro key none_
  apply (Durable.record_eq_none durable).mpr
  refine ⟨holds.covers key none_, fun row member same => ?_⟩
  exact holds.pending row (inside row member) (same ▸ none_)

end

section

variable (lawful : format.Lawful)
include lawful

theorem LinesShow.appendBytes (shows : LinesShow format bounds disk durable)
    (lineStart : bytes ≠ [] → AtLineStart lineBreak (disk.jsonl.getD []))
    (moreShows : Shows lineBreak format.encode bytes rows) :
    LinesShow format bounds (appendBytes disk bytes)
      (durable.record rows) := by
  rcases shows.rows with ⟨old, shown, recorded⟩
  refine ⟨shows.hasMeta, old ++ rows, ?_, ?_⟩
  · by_cases none_ : bytes = []
    · subst none_
      rw [moreShows.rows_eq_nil lawful.oneLine, append_nil, appendBytes,
        Option.getD_some, append_nil]
      exact shown
    · exact shown.append lawful.oneLine (lineStart none_) moreShows
  · rw [Durable.record_append, recorded]

theorem flush_shows (shows : LinesShow format bounds disk durable)
    (holds : SinkHolds bounds sink durable)
    (lineStart : sink.pending ≠ [] → AtLineStart lineBreak (disk.jsonl.getD [])) :
    let flushed := sink.flush format disk
    LinesShow format bounds flushed.1 (durable.record sink.pending) ∧
      flushed.1.snapshot = disk.snapshot ∧ flushed.2.all = sink.all ∧
      SinkHolds bounds flushed.2 (durable.record sink.pending) := by
  have covers := holds.record fun row member => member
  rw [EvidenceCacheSink.flush]
  split
  · next none_ =>
      rw [none_]
      exact ⟨shows, rfl, rfl, holds⟩
  · next some_ =>
      refine ⟨shows.appendBytes lawful (fun _ => lineStart some_) (.inl rfl), rfl, rfl,
        holds.bounds, holds.keyed, ?_, covers⟩
      exact fun bundle member => absurd member not_mem_nil

theorem interruptedFlush_readable (shows : LinesShow format bounds disk durable) {bytes : Nat}
    (lineStart : sink.pending ≠ [] → bytes ≠ 0 → AtLineStart lineBreak (disk.jsonl.getD []))
    (whole : Torn format.encode sink.pending bytes →
      durable.record (written format.encode sink.pending bytes) = Durable.none) :
    Readable format bounds (sink.interruptedFlush format disk bytes)
      (durable.record (written format.encode sink.pending bytes)) := by
  rw [interruptedFlush]
  split
  · next none_ =>
      rw [none_]
      exact .inl shows
  · next some_ =>
      by_cases torn : Torn format.encode sink.pending bytes
      · have nothing := whole torn
        have nothingBefore : durable = Durable.none := by
          funext key
          exact ((Durable.record_eq_none durable).mp (congrFun nothing key)).1
        have noRows : written format.encode sink.pending bytes = [] := by
          rw [nothingBefore] at nothing
          exact Durable.rows_eq_nil nothing
        rcases exists_tornRow lawful.oneLine sink.pending bytes torn with
          ⟨bundle, text, tornRow, taken⟩
        rw [nothing]
        refine .inr (.inr ⟨shows.hasMeta, ⟨bundle, text, ?_, tornRow⟩, rfl⟩)
        rw [nothingBefore] at shows
        rw [appendBytes, shows.content_of_nothing, taken, noRows]
        rfl
      · refine .inl (shows.appendBytes lawful ?_
          (shows_take_appended lawful.oneLine sink.pending bytes torn))
        intro nonempty
        apply lineStart some_
        intro zero
        rw [zero, take_zero] at nonempty
        exact nonempty rfl

theorem finish_shows (shows : LinesShow format bounds disk durable)
    (holds : SinkHolds bounds sink durable)
    (lineStart : sink.pending ≠ [] → AtLineStart lineBreak (disk.jsonl.getD [])) :
    let finished := sink.finish format disk
    (durable.record sink.pending).record sink.all.sortedBundles = sink.all.shown ∧
      LinesShow format bounds finished.1 sink.all.shown ∧
      finished.1.snapshot = some finished.2 ∧
      Reusable bounds finished.2.version finished.2.params ∧
      Durable.none.record finished.2.bundles = sink.all.shown := by
  have flushed := flush_shows lawful shows holds lineStart
  have covers := holds.record fun row member => member
  have recorded : Durable.none.record sink.all.sortedBundles = sink.all.shown := by
    funext key
    rw [Durable.record_sortedBundles _ holds.keyed]
    exact Option.or_none
  have bundles : (sink.finish format disk).2.bundles = sink.all.sortedBundles := by
    rw [EvidenceCacheSink.finish, flushed.2.2.1]
  refine ⟨?_, ⟨flushed.1.hasMeta, ?_⟩, rfl, ⟨rfl, flushed.2.2.2.bounds⟩,
    bundles ▸ recorded⟩
  · funext key
    rw [Durable.record_sortedBundles _ holds.keyed]
    cases found : sink.all.shown key with
    | none => exact covers key found
    | some bundle => rfl
  · exact ⟨_, .inl rfl, bundles ▸ recorded⟩

end

end Writes

/-! ## Runs -/

section Runs

variable (format) (bounds : List Nat)

def EvidenceCacheOp.WithBounds : EvidenceCacheOp Events Provenance → Prop
  | .create params _ => params.bounds = bounds
  | _ => True

/-- The histories of one path whose steps are allowed. They start without lines, perhaps
from a snapshot. -/
inductive EvidenceRun
    (allowed : EvidenceWorld Events Provenance → Durable Events →
      EvidenceCacheOp Events Provenance → Prop) :
    EvidenceWorld Events Provenance → Durable Events → Prop
  | start {disk : EvidenceCacheDisk Events Provenance} {durable : Durable Events}
      (missing : disk.jsonl = none) (shows : SnapshotShows bounds disk durable) :
      EvidenceRun allowed ⟨disk, none⟩ durable
  | step {world next : EvidenceWorld Events Provenance} {durable : Durable Events}
      {op : EvidenceCacheOp Events Provenance} (run : EvidenceRun allowed world durable)
      (compatible : op.WithBounds bounds) (isAllowed : allowed world durable op)
      (stepped : world.step format paths op = some next) :
      EvidenceRun allowed next (durable.next format world op)

/-- A step does no harm: rows are appended at the start of a line, and a row is only torn
while nothing is durable. -/
structure Safe (world : EvidenceWorld Events Provenance) (durable : Durable Events)
    (op : EvidenceCacheOp Events Provenance) : Prop where
  lineStart : ∀ sink, world.sink = some sink → sink.flushedBy op ≠ [] →
    (∀ pushed, op ≠ .interrupted pushed 0) →
      AtLineStart lineBreak (world.disk.jsonl.getD [])
  whole : ∀ sink pushed bytes, world.sink = some sink → op = .interrupted pushed bytes →
    Torn format.encode (sink.buffered pushed).pending bytes →
      durable.after format sink op = Durable.none

/-- What an operation owes to the bundles that are durable before it. -/
structure Survives (world next : EvidenceWorld Events Provenance) (durable : Durable Events)
    (op : EvidenceCacheOp Events Provenance) : Prop where
  created : ∀ params batchSize, op = .create params batchSize →
    ∃ sink, next.sink = some sink ∧ sink.all.shown = durable
  kept : ∀ key, durable key ≠ none → durable.next format world op key ≠ none
  finished : ∀ sink, op = .finish → world.sink = some sink →
    durable.next format world op = sink.all.shown ∧
    (∃ file, loadEvidenceCacheResumable format paths next.disk = .ok file ∧
      Durable.none.record file.bundles = sink.all.shown) ∧
    ∃ snapshot, next.disk.snapshot = some snapshot ∧
      loadEvidenceCache snapshot = .ok snapshot ∧
      Durable.none.record snapshot.bundles = sink.all.shown

/-- The invariant of runs. -/
structure EvidenceWorld.Holds (world : EvidenceWorld Events Provenance)
    (durable : Durable Events) : Prop where
  covered : SnapshotCovered bounds world.disk durable
  readable : Readable format bounds world.disk durable
  sink : ∀ sink, world.sink = some sink →
    LinesShow format bounds world.disk durable ∧ SinkHolds bounds sink durable

end Runs

section Invariant

variable {bounds : List Nat} {world next : EvidenceWorld Events Provenance}
  {durable : Durable Events} {op : EvidenceCacheOp Events Provenance}

theorem SnapshotShows.covered (shows : SnapshotShows bounds disk durable) :
    SnapshotCovered bounds disk durable := by
  intro file found
  rcases shows with ⟨absent, -⟩ | ⟨other, isOther, reusable, recorded⟩
  · rw [absent] at found
    cases found
  · rw [isOther] at found
    cases found
    exact ⟨reusable, fun key none_ => by rw [recorded, none_]⟩

theorem Durable.record_grows (durable : Durable Events) (rows : List (EvidenceBundle Events))
    (key : EvidenceKey) (none_ : durable.record rows key = Option.none) :
    durable key = Option.none :=
  ((Durable.record_eq_none durable).mp none_).1

theorem SnapshotCovered.of_same {before behind : EvidenceCacheDisk Events Provenance}
    (covered : SnapshotCovered bounds before durable) (same : behind.snapshot = before.snapshot)
    (rows : List (EvidenceBundle Events)) :
    SnapshotCovered bounds behind (durable.record rows) := by
  intro file found
  rw [same] at found
  exact (covered.mono (durable.record_grows rows)) file found

variable {sink : EvidenceCacheSink Events Provenance}

theorem Durable.next_of_sink (isSink : world.sink = some sink) :
    durable.next format world op = durable.after format sink op := by
  rw [Durable.next, isSink]

/-- A step of a sink, by what it leaves on the disk. -/
theorem EvidenceWorld.Holds.of_flushed (holds : world.Holds format bounds durable)
    (rows : List (EvidenceBundle Events))
    (written : EvidenceCacheDisk Events Provenance × EvidenceCacheSink Events Provenance)
    (shows : LinesShow format bounds written.1 (durable.record rows))
    (same : written.1.snapshot = world.disk.snapshot)
    (sinkHolds : SinkHolds bounds written.2 (durable.record rows)) :
    EvidenceWorld.Holds format bounds ⟨written.1, some written.2⟩ (durable.record rows) where
  covered := holds.covered.of_same same rows
  readable := .inl shows
  sink := by
    intro sink found
    cases found
    exact ⟨shows, sinkHolds⟩

theorem push_shows (lawful : format.Lawful) (bundle : EvidenceBundle Events)
    (shows : LinesShow format bounds disk durable) (holds : SinkHolds bounds sink durable)
    (lineStart : sink.flushedBy (.push bundle : EvidenceCacheOp Events Provenance) ≠ [] →
      AtLineStart lineBreak (disk.jsonl.getD [])) :
    let pushed := sink.push format disk bundle
    let rows := sink.flushedBy (.push bundle : EvidenceCacheOp Events Provenance)
    LinesShow format bounds pushed.1 (durable.record rows) ∧
      pushed.1.snapshot = disk.snapshot ∧ SinkHolds bounds pushed.2 (durable.record rows) := by
  simp only [EvidenceCacheSink.push, flushedBy] at lineStart ⊢
  split
  · next full =>
      rw [if_pos full] at lineStart
      have flushed := flush_shows lawful shows (holds.buffer bundle) lineStart
      exact ⟨flushed.1, flushed.2.1, flushed.2.2.2⟩
  · exact ⟨shows, rfl, holds.buffer bundle⟩

/-- Every safe operation keeps the invariant. -/
theorem EvidenceWorld.Holds.step (lawful : format.Lawful)
    (holds : world.Holds format bounds durable) (compatible : op.WithBounds bounds)
    (safe : Safe format world durable op)
    (stepped : world.step format paths op = some next) :
    next.Holds format bounds (durable.next format world op) := by
  have withSink : ∀ {act : EvidenceCacheSink Events Provenance →
      EvidenceWorld Events Provenance}, world.sink.map act = some next →
        ∃ sink, world.sink = some sink ∧ act sink = next := fun mapped =>
    Option.map_eq_some_iff.mp mapped
  cases op with
  | create params batchSize =>
      have created := create_shows paths lawful holds.covered holds.readable compatible
        batchSize
      cases stepped
      have same : durable.next format world
          (.create params batchSize : EvidenceCacheOp Events Provenance) = durable := by
        rw [Durable.next]
        split <;> rfl
      rw [same]
      exact holds.of_flushed [] _ created.1 created.2.1 created.2.2.2
  | push bundle =>
      rcases withSink stepped with ⟨sink, isSink, rfl⟩
      rcases holds.sink sink isSink with ⟨shows, sinkHolds⟩
      have pushed := push_shows lawful bundle shows sinkHolds fun some_ =>
        safe.lineStart sink isSink some_ (fun _ equal => by cases equal)
      rw [Durable.next_of_sink isSink]
      exact holds.of_flushed _ _ pushed.1 pushed.2.1 pushed.2.2
  | noteCached bundle =>
      rcases withSink stepped with ⟨sink, isSink, rfl⟩
      rcases holds.sink sink isSink with ⟨shows, sinkHolds⟩
      rw [Durable.next_of_sink isSink]
      exact holds.of_flushed [] (world.disk, sink.noteCached bundle) shows rfl (sinkHolds.noteCached bundle)
  | flush =>
      rcases withSink stepped with ⟨sink, isSink, rfl⟩
      rcases holds.sink sink isSink with ⟨shows, sinkHolds⟩
      have flushed := flush_shows lawful shows sinkHolds fun some_ =>
        safe.lineStart sink isSink some_ (fun _ equal => by cases equal)
      rw [Durable.next_of_sink isSink]
      exact holds.of_flushed _ _ flushed.1 flushed.2.1 flushed.2.2.2
  | finish =>
      rcases withSink stepped with ⟨sink, isSink, rfl⟩
      rcases holds.sink sink isSink with ⟨shows, sinkHolds⟩
      have finished := finish_shows lawful shows sinkHolds fun some_ =>
        safe.lineStart sink isSink some_ (fun _ equal => by cases equal)
      have shown : durable.next format world .finish = sink.all.shown :=
        (Durable.next_of_sink isSink).trans finished.1
      rw [shown]
      refine ⟨?_, .inl finished.2.1, fun _ found => by cases found⟩
      intro file found
      cases finished.2.2.1.symm.trans found
      refine ⟨finished.2.2.2.1, fun key none_ => ?_⟩
      rw [finished.2.2.2.2, none_]
  | interrupted pushed bytes =>
      rcases withSink stepped with ⟨sink, isSink, rfl⟩
      rcases holds.sink sink isSink with ⟨shows, sinkHolds⟩
      rw [Durable.next_of_sink isSink]
      refine ⟨?_, ?_, fun _ found => by cases found⟩
      · apply holds.covered.of_same
        rw [interruptedFlush]
        split <;> rfl
      · apply interruptedFlush_readable lawful shows
        · intro some_ nonzero
          apply safe.lineStart sink isSink some_
          intro other equal
          cases equal
          exact nonzero rfl
        · exact safe.whole sink pushed bytes isSink rfl

theorem EvidenceRun.holds (lawful : format.Lawful)
    (run : EvidenceRun format paths bounds (Safe format) world durable) :
    world.Holds format bounds durable := by
  induction run with
  | start missing shows =>
      exact ⟨shows.covered, .inr (.inl ⟨missing, shows⟩), fun _ found => by cases found⟩
  | step _ compatible safe stepped induction =>
      exact induction.step paths lawful compatible safe stepped

theorem Durable.next_grows (key : EvidenceKey)
    (none_ : durable.next format world op key = Option.none) : durable key = Option.none := by
  cases isSink : world.sink with
  | none =>
      rw [Durable.next, isSink] at none_
      exact none_
  | some sink =>
      rw [Durable.next_of_sink isSink] at none_
      cases op with
      | finish => exact durable.record_grows _ key (Durable.record_grows _ _ key none_)
      | create params batchSize | push bundle | noteCached bundle | flush
      | interrupted pushed bytes => exact durable.record_grows _ key none_

theorem EvidenceWorld.Holds.survives (lawful : format.Lawful)
    (holds : world.Holds format bounds durable) (compatible : op.WithBounds bounds)
    (safe : Safe format world durable op)
    (stepped : world.step format paths op = some next) :
    Survives format paths world next durable op where
  created := by
    intro params batchSize isCreate
    subst isCreate
    have created := create_shows paths lawful holds.covered holds.readable compatible batchSize
    cases stepped
    exact ⟨_, rfl, created.2.2.1⟩
  kept := fun key some_ none_ => some_ (Durable.next_grows key none_)
  finished := by
    intro sink isFinish isSink
    subst isFinish
    rw [EvidenceWorld.step, isSink] at stepped
    cases stepped
    rcases holds.sink sink isSink with ⟨shows, sinkHolds⟩
    have finished := finish_shows lawful shows sinkHolds fun some_ =>
      safe.lineStart sink isSink some_ (fun _ equal => by cases equal)
    refine ⟨(Durable.next_of_sink isSink).trans finished.1, ?_, _, rfl, rfl,
      finished.2.2.2.2⟩
    rcases finished.2.1.loads paths lawful (Option.some_ne_none _) with ⟨file, loads, -, shown⟩
    exact ⟨file, loads, shown⟩

end Invariant

def SurvivesAlways (format : BundleFormat Events) (bounds : List Nat)
    (allowed : EvidenceWorld Events Provenance → Durable Events →
      EvidenceCacheOp Events Provenance → Prop) : Prop :=
  ∀ world durable op next, EvidenceRun format paths bounds allowed world durable →
    op.WithBounds bounds → allowed world durable op →
      world.step format paths op = some next → Survives format paths world next durable op

/-- Evidence survives in the runs that append at the start of lines and tear a row only
while nothing is durable. -/
theorem evidenceCache_survives (lawful : format.Lawful) (bounds : List Nat) :
    SurvivesAlways paths format bounds
      (Safe format : EvidenceWorld Events Provenance → Durable Events →
        EvidenceCacheOp Events Provenance → Prop) := by
  intro world durable op next run compatible safe stepped
  exact (run.holds paths lawful).survives paths lawful compatible safe stepped

def AnyStep (_ : EvidenceWorld Events Provenance) (_ : Durable Events)
    (_ : EvidenceCacheOp Events Provenance) : Prop := True

def emptyDisk : EvidenceCacheDisk Events Provenance := ⟨none, none, none⟩

/-- A torn flush after another flush is the end of both. -/
theorem not_survives_of_torn (lawful : format.Lawful)
    (params : EvidenceCacheParams Provenance) (first second : EvidenceBundle Events)
    {bytes : Nat} (torn : Torn format.encode [second.portable] bytes) :
    ¬ SurvivesAlways paths format params.bounds
      (AnyStep : EvidenceWorld Events Provenance → Durable Events →
        EvidenceCacheOp Events Provenance → Prop) := by
  intro survives
  have restarts : EvidenceCacheOp.WithBounds params.bounds
      (.create params 1 : EvidenceCacheOp Events Provenance) := rfl
  have pushes : EvidenceCacheOp.WithBounds params.bounds
      (.push first : EvidenceCacheOp Events Provenance) := trivial
  have dies : EvidenceCacheOp.WithBounds params.bounds
      (.interrupted (some second) bytes : EvidenceCacheOp Events Provenance) := trivial
  have start : EvidenceRun format paths params.bounds AnyStep
      ⟨(emptyDisk : EvidenceCacheDisk Events Provenance), none⟩ Durable.none :=
    .start rfl (.inl ⟨rfl, rfl⟩)
  have pushed : EvidenceRun format paths params.bounds AnyStep
      ⟨⟨some ⟨evidenceCacheVersion, params⟩,
        some (appended lineBreak format.encode [first.portable]), none⟩,
        some ⟨params, 1, [], EvidenceIndex.add ∅ first.portable⟩⟩
      (Durable.none.record [first.portable]) :=
    (start.step restarts trivial rfl).step pushes trivial rfl
  have flushed : Durable.none.record [first.portable] first.portable.key ≠ none := by
    rw [Ne, Durable.record_eq_none]
    exact fun missing => missing.2 _ mem_cons_self rfl
  have durable := (survives _ _ _ _ pushed dies trivial rfl).kept _ flushed
  rcases (survives _ _ _ _ (pushed.step dies trivial rfl) restarts trivial rfl).created params 1
    rfl with ⟨sink, isSink, shown⟩
  rw [← shown] at durable
  apply durable
  rcases exists_tornRow lawful.oneLine _ _ torn with ⟨bundle, text, tornRow, taken⟩
  have content : some (appended lineBreak format.encode [first.portable] ++
      (appended lineBreak format.encode [second.portable]).take bytes) =
        some (appended lineBreak format.encode ([first.portable] ++
          written format.encode [second.portable] bytes) ++ text) := by
    rw [taken, appended_append, List.append_assoc]
  have removed : ∀ disk : EvidenceCacheDisk Events Provenance,
      HasMeta params.bounds disk → disk.jsonl = some (appended lineBreak format.encode
        ([first.portable] ++ written format.encode [second.portable] bytes) ++ text) →
      (EvidenceCacheSink.create format paths disk params 1).2.all.shown = Durable.none := by
    intro disk hasMeta isContent
    simp only [EvidenceCacheSink.create, resume_of_torn paths lawful hasMeta tornRow isContent]
    exact shown_empty
  cases isSink
  exact congrFun (removed _ ⟨_, rfl, reusable_current params⟩ content) _

end

/-! ## A torn line

Bundles as numbered arrays, which is a format that the assumptions hold of. -/

section Numbered

instance encodableChar : Encodable Char :=
  Encodable.ofLeftInjection Char.toNat (fun code => some (Char.ofNat code)) (by simp)

instance : Encodable Text := inferInstanceAs (Encodable (List Char))

deriving instance Encodable for EvidenceStatus
deriving instance Encodable for LegitSignals
deriving instance Encodable for EvidenceQuality
deriving instance Encodable for ContractEvidence
deriving instance Encodable for EvidenceBundle

def numberedText (number : Nat) : Text := '[' :: (Text.ofNat number ++ [']'])

def numberedParse (text : Text) : Except Text (EvidenceBundle Unit) :=
  if text.getLast? = some ']' then
    match Encodable.decode (Nat.ofDigitChars 10 text.tail.dropLast 0) with
    | some bundle => .ok bundle
    | none => .error "unknown number".toList
  else
    .error "unexpected end of text".toList

def numberedFormat : BundleFormat Unit where
  encode := fun bundle =>
    (numberedText (Encodable.encode bundle)).map fun character => UInt8.ofNat character.toNat
  decodeText := fun bytes => .ok (bytes.map fun byte => Char.ofNat byte.toNat)
  parse := numberedParse

variable {number : Nat} {character : Char}

section

variable (member : character ∈ numberedText number)
include member

theorem numberedText_plain :
    character = '[' ∨ character.isDigit = true ∨ character = ']' := by
  rcases mem_cons.mp member with first | later
  · exact .inl first
  · rcases mem_append.mp later with digit | last
    · exact .inr (.inl (Text.isDigit_of_mem_ofNat digit))
    · exact .inr (.inr (mem_singleton.mp last))

theorem numberedText_ascii :
    48 ≤ character.toNat ∧ character.toNat ≤ 93 := by
  rcases numberedText_plain member with rfl | digit | rfl
  · decide
  · have bounds : 48 ≤ character.toNat ∧ character.toNat ≤ 57 := by
      simpa [Char.isDigit, UInt32.le_iff_toNat_le] using digit
    omega
  · decide

theorem numberedText_noSpace :
    Text.isWhiteSpace character = false := by
  rcases numberedText_plain member with rfl | digit | rfl
  · decide
  · exact Text.not_isWhiteSpace_of_isDigit digit
  · decide

end

variable {text : Text}

theorem read_ascii (ascii : ∀ character ∈ text, character.toNat ≤ 93) :
    ((text.map fun character => UInt8.ofNat character.toNat).map fun byte =>
      Char.ofNat byte.toNat) = text := by
  rw [map_map]
  refine (map_congr_left fun character member => ?_).trans (map_id text)
  have small : character.toNat % 2 ^ 8 = character.toNat :=
    Nat.mod_eq_of_lt (by have := ascii character member; omega)
  rw [Function.comp_apply, UInt8.toNat_ofNat', small, Char.ofNat_toNat]
  rfl

theorem numberedParse_text (bundle : EvidenceBundle Unit) :
    numberedParse (numberedText (Encodable.encode bundle)) = .ok bundle := by
  have digits : (numberedText (Encodable.encode bundle)).tail.dropLast =
      Text.ofNat (Encodable.encode bundle) := dropLast_concat
  have last : (numberedText (Encodable.encode bundle)).getLast? = some ']' := by
    rw [numberedText, ← cons_append]
    exact List.getLast?_concat
  rw [numberedParse, if_pos last, digits, Text.ofNat, Nat.ofDigitChars_ten_toDigits,
    Encodable.encodek]

theorem numberedText_ne_nil (number : Nat) : numberedText number ≠ [] := cons_ne_nil _ _

theorem numberedParse_torn (isPrefix : text <+: numberedText number)
    (incomplete : text ≠ numberedText number) :
    numberedParse text = .error "unexpected end of text".toList := by
  rw [numberedText, ← cons_append] at isPrefix incomplete
  have inside := (prefix_concat_iff.mp isPrefix).resolve_left incomplete
  rw [numberedParse, if_neg]
  intro closed
  have member := inside.subset (List.mem_of_getLast? closed)
  rcases mem_cons.mp member with bracket | digit
  · exact absurd bracket (by decide)
  · exact absurd (Text.isDigit_of_mem_ofNat digit) (by decide)

theorem numberedFormat_lawful : numberedFormat.Lawful where
  oneLine := by
    constructor
    · intro bundle
      exact cons_ne_nil _ _
    · intro bundle broken
      rcases mem_map.mp broken with ⟨character, member, same⟩
      have bounds := numberedText_ascii member
      have code := congrArg UInt8.toNat same
      rw [UInt8.toNat_ofNat', Nat.mod_eq_of_lt (by omega)] at code
      have isTen : lineBreak.toNat = 10 := rfl
      omega
  reads := by
    intro bundle
    have read := read_ascii fun character
        (member : character ∈ numberedText (Encodable.encode bundle)) =>
      (numberedText_ascii member).2
    refine ⟨_, congrArg Except.ok read, ?_, ?_⟩
    · rw [Text.trim_eq_self fun _ member => numberedText_noSpace member]
      exact numberedText_ne_nil _
    · rw [Text.trim_eq_self fun _ member => numberedText_noSpace member]
      exact numberedParse_text bundle
  torn := by
    intro bundle bytes torn text decoded
    rcases prefix_map_iff.mp torn.isPrefix with ⟨part, isPrefix, rfl⟩
    have read := read_ascii fun character member =>
      (numberedText_ascii (isPrefix.subset member)).2
    have same : text = part := (Except.ok.inj decoded).symm.trans read
    rw [same, Text.trim_eq_self fun _ member => numberedText_noSpace (isPrefix.subset member)]
    constructor
    · intro empty
      exact torn.nonempty (by rw [empty]; rfl)
    · refine ⟨_, numberedParse_torn isPrefix fun whole => torn.incomplete ?_⟩
      rw [whole]
      rfl

/-- `EvidenceBundle::empty`. -/
def emptyBundle (address : Text) : EvidenceBundle Unit where
  contractId := 0
  chain := "ethereum".toList
  address := address
  events := ()
  collectionNftCount := none
  collectionNftCountComplete := false
  quality := ⟨.notRequested, .notRequested, .notRequested, .notRequested, .notRequested,
    .notRequested, .notRequested, .notRequested, false, none, [], []⟩
  legit := .default
  relationLegit := []

def onePageParams : EvidenceCacheParams Unit := ⟨(), 1, 1, 1, 1, 1, 1⟩

def noPaths : EvidenceCachePaths := ⟨[], [], []⟩

theorem evidenceCache_survives_numbered :
    SurvivesAlways noPaths numberedFormat onePageParams.bounds
      (Safe numberedFormat : EvidenceWorld Unit Unit → Durable Unit →
        EvidenceCacheOp Unit Unit → Prop) :=
  evidenceCache_survives noPaths numberedFormat_lawful onePageParams.bounds

theorem torn_bracket (bundle : EvidenceBundle Unit) :
    Torn numberedFormat.encode [bundle] 1 := by
  rw [Torn, if_neg]
  · exact Nat.one_pos
  · simp [numberedFormat, numberedText]

theorem numberedFormat_not_survives (first second : EvidenceBundle Unit) :
    ¬ SurvivesAlways noPaths numberedFormat onePageParams.bounds
      (AnyStep : EvidenceWorld Unit Unit → Durable Unit → EvidenceCacheOp Unit Unit → Prop) :=
  not_survives_of_torn noPaths numberedFormat_lawful onePageParams first second
    (torn_bracket second.portable)

/-- A bundle is flushed, and the flush of another one is cut off after its first byte: the
next sink knows neither of them. -/
theorem evidenceCache_not_survives :
    ¬ SurvivesAlways noPaths numberedFormat onePageParams.bounds
      (AnyStep : EvidenceWorld Unit Unit → Durable Unit → EvidenceCacheOp Unit Unit → Prop) :=
  numberedFormat_not_survives (emptyBundle "0xa".toList) (emptyBundle "0xb".toList)

end Numbered

end NftData.Analysis2
