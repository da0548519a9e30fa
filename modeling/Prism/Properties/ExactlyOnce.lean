import Prism.Properties.MarkerSoundness
import Prism.Properties.Screening

/-!
At most one committed row for each tenant and idempotency key. The index is only written after
publication, so the stage decides a whole batch from the index it started with; the in-order
decision below is what it is compared with.
-/

namespace Prism

open CrashLogic Store World

/-! ### The decision in order -/

/-- The abstract stage: every accepted event is known to the events after it in the batch. -/
def dedupInOrder : IdempotencyIndex → List Event → Deduped
  | _, [] => ⟨[], [], []⟩
  | ix, e :: rest =>
    match ix.verdict e with
    | .new =>
      let d := dedupInOrder (ix.record e) rest
      { d with accepted := e :: d.accepted }
    | .replay =>
      let d := dedupInOrder ix rest
      { d with suppressed := e :: d.suppressed }
    | .conflict stored =>
      let d := dedupInOrder ix rest
      { d with conflicts := conflictLetter e stored :: d.conflicts }

variable {ix : IdempotencyIndex}

namespace IdempotencyIndex

/-- The verdict on an event reads one entry. -/
theorem verdict_congr {ix' : IdempotencyIndex} {e : Event} (same : ix[e.ck]? = ix'[e.ck]?) :
    ix.verdict e = ix'.verdict e := by
  unfold verdict check
  unfold Event.ck at same
  rw [same]

def newKeys (ix : IdempotencyIndex) (events : List Event) : List String :=
  (events.filter (ix.verdict · = .new)).map Event.ck

end IdempotencyIndex

/-- On a batch that brings no new key twice, the stage decides as in order. -/
theorem dedupInOrder_eq (ix : IdempotencyIndex) (events : List Event)
    (distinct : (ix.newKeys events).Nodup) : dedupInOrder ix events = dedup ix events := by
  induction events generalizing ix with
  | nil => rfl
  | cons e rest ih =>
    rw [dedup_eq]
    cases said : ix.verdict e with
    | new =>
      have keys : ix.newKeys (e :: rest) = e.ck :: ix.newKeys rest := by
        simp [IdempotencyIndex.newKeys, said]
      obtain ⟨once, others⟩ := List.nodup_cons.mp (keys ▸ distinct)
      -- Recording the event changes no verdict on the events after it.
      have unchanged : ∀ e' ∈ rest, (ix.record e).verdict e' = ix.verdict e' := by
        intro e' mem
        apply IdempotencyIndex.verdict_congr
        rw [IdempotencyIndex.getElem?_record, if_neg]
        intro same
        apply once
        have isNew : ix.verdict e' = .new := by
          rw [IdempotencyIndex.verdict_eq_new, ← same]
          exact IdempotencyIndex.verdict_eq_new.mp said
        exact List.mem_map.mpr ⟨e', by simp [mem, isNew], same.symm⟩
      have filtered : ∀ v : Verdict, rest.filter ((ix.record e).verdict · = v) =
          rest.filter (ix.verdict · = v) := fun v =>
        List.filter_congr fun e' mem => by rw [unchanged e' mem]
      have letters : rest.filterMap (ix.record e).conflictOf = rest.filterMap ix.conflictOf :=
        List.filterMap_congr fun e' mem => by
          simp only [IdempotencyIndex.conflictOf, unchanged e' mem]
      have tail := ih (ix.record e) (by simpa only [IdempotencyIndex.newKeys, filtered] using others)
      rw [dedup_eq, filtered, filtered, letters] at tail
      simp [dedupInOrder, said, tail, IdempotencyIndex.conflictOf]
    | replay | conflict stored =>
      have tail := ih ix (by simpa [IdempotencyIndex.newKeys, said] using distinct)
      rw [dedup_eq] at tail
      simp [dedupInOrder, said, tail, IdempotencyIndex.conflictOf]

/-! ### One batch -/

theorem subperm_map {α β : Type} (f : α → β) {xs ys : List α} (part : xs.Subperm ys) :
    (xs.map f).Subperm (ys.map f) := by
  obtain ⟨between, moved, sub⟩ := part
  exact ⟨between.map f, moved.map f, sub.map f⟩

variable {events : List Event}

/-- The new keys of what admission accepts are among those of the batch. -/
theorem admitted_newKeys (ix : IdempotencyIndex) {dict : KeyDictionary} {quotas : QuotaEnforcer}
    {nowMs : Int} {admitted : Admitting}
    (done : admitEvents events dict quotas nowMs = some admitted) :
    (ix.newKeys admitted.accepted).Subperm (ix.newKeys events) := by
  have offered := subperm_map Event.ck
    ((admitEvents_sorts done).passed.filter (ix.verdict · = .new))
  rwa [List.filter_map, List.map_map] at offered

theorem Ingestor.Screens.newKeys {nowMs : Int} {start : World} {screened : Ingestor.Screened}
    (screens : Ingestor.Screens events nowMs start screened) :
    (screened.accepted.map Event.ck).Subperm (start.idempotency.newKeys events) := by
  obtain ⟨admitted, denied, done, _, sorts, _⟩ := screens
  have passed := sorts.passed
  rw [dedup_eq] at passed
  exact (subperm_map Event.ck passed).trans (admitted_newKeys start.idempotency done)

structure Batch where
  ing : Ingestor
  events : List Event
  source : Option String
  nextOffset : Option Nat
  nowMs : Int
  faults : List Fault

namespace Batch

def run (w : World) (b : Batch) : Outcome PrismError IngestorReport × List Fault × World :=
  b.ing.ingest b.events b.source b.nextOffset b.nowMs b.faults w

def step (w : World) (b : Batch) : World := (b.run w).2.2

/-- The batch brings no new key twice, and every committed row is known to the index. -/
def Distinct (w : World) (b : Batch) : Prop :=
  (w.idempotency.newKeys b.events).Nodup ∧
    ∀ row ∈ w.store.headRows, w.idempotency.verdict row.event = .replay

instance (w : World) (b : Batch) : Decidable (b.Distinct w) :=
  inferInstanceAs (Decidable (_ ∧ _))

end Batch

/-- The head holds at most one row for each key. -/
structure RowsDistinct (w : World) : Prop where
  intact : w.store.Intact
  rows : w.store.clashed = false → (w.store.headRows.map (·.event.ck)).Nodup

namespace RowsDistinct

theorem congr {w w' : World} (distinct : RowsDistinct w) (store : w'.store = w.store) :
    RowsDistinct w' := ⟨store ▸ distinct.intact, store ▸ distinct.rows⟩

/-- A commit of new keys, each once, adds no second row for a key. -/
theorem publishing {start w : World} {r : WalRecord} (distinct : RowsDistinct start)
    (once : (r.events.map Event.ck).Nodup)
    (absent : ∀ row ∈ start.store.headRows, row.event.ck ∉ r.events.map Event.ck)
    (publishing : Ingestor.Publishing r start w) : RowsDistinct w := by
  rcases publishing.stopped with quiet | commits
  · refine ⟨quiet.store.intact distinct.intact, fun clean => ?_⟩
    rw [quiet.store.headRows distinct.intact]
    exact distinct.rows (publishing.stopped.clean clean)
  · refine ⟨commits.intact, fun clean => ?_⟩
    obtain ⟨new, rows, among⟩ := commits.rows clean
    obtain ⟨some', moved, part⟩ := among
    have newKeys : (new.map (·.event.ck)).Perm (some'.map Event.ck) := by
      have keys := (moved.map Event.ck).symm
      rwa [List.map_map] at keys
    rw [rows, List.map_append]
    refine List.nodup_append.mpr ⟨distinct.rows (publishing.stopped.clean clean), ?_, ?_⟩
    · exact newKeys.nodup_iff.mpr (once.sublist (part.map Event.ck))
    · -- A key that has a row is not among the new keys.
      intro key old key' fresh same
      subst same
      obtain ⟨row, mem, rfl⟩ := List.mem_map.mp old
      exact absent row mem ((part.map Event.ck).subset (newKeys.subset fresh))

end RowsDistinct

theorem ingest_rowsDistinct {ing : Ingestor} {source : Option String} {nextOffset : Option Nat}
    {nowMs : Int} {start w : World} (distinct : RowsDistinct start)
    (once : (start.idempotency.newKeys events).Nodup)
    (known : ∀ row ∈ start.store.headRows, start.idempotency.verdict row.event = .replay)
    (reached : ing.Reaches events source nextOffset nowMs start w) : RowsDistinct w := by
  cases reached with
  | screening prepared same _ =>
    exact distinct.congr ((congrArg Ingestor.Essence.store same).trans prepared.store)
  | moved screening _ _ _ => exact distinct.congr screening.prepared.store
  | logged logged => exact distinct.congr logged.store
  | @publishing screened r _ _ _ logged publishing same _ =>
    have accepted : r.events = screened.accepted := congrArg WalRecord.events logged.record
    have keys := logged.screens.newKeys
    rw [← accepted] at keys
    refine ((distinct.congr logged.store).publishing ?_ ?_ publishing).congr
      (congrArg Ingestor.Essence.store same)
    · obtain ⟨some', moved, part⟩ := keys
      exact moved.nodup_iff.mp (once.sublist part)
    · intro row mem inside
      rw [logged.store] at mem
      obtain ⟨e, fresh, own⟩ := List.mem_map.mp (keys.subset inside)
      -- The index knows the key of the row, so it is not a new one.
      have isNew : start.idempotency.verdict e = .new := by
        simpa using (List.mem_filter.mp fresh).2
      rw [IdempotencyIndex.verdict_eq_new, own] at isNew
      obtain ⟨entry, found, _⟩ := IdempotencyIndex.verdict_eq_replay.mp (known row mem)
      simp [isNew] at found

theorem Batch.step_rowsDistinct (w : World) (b : Batch) (ready : b.Distinct w)
    (distinct : RowsDistinct w) : RowsDistinct (b.step w) :=
  ingest_rowsDistinct distinct ready.1 ready.2
    ((b.ing.ingest_spec b.events b.source b.nextOffset b.nowMs distinct.intact).after
      (fun _ _ h => h.1) rfl b.faults)

/-! ### What the report says -/

/-- The verdict on an event whose key has a row the index knows. -/
theorem verdict_of_known {row e : Event} (known : ix.verdict row = .replay)
    (same : e.dedupKey = row.dedupKey) :
    ix.verdict e = if e.contentHash = row.contentHash then .replay else .conflict row.contentHash := by
  obtain ⟨entry, found, stored⟩ := IdempotencyIndex.verdict_eq_replay.mp known
  have key : e.ck = row.ck := by rw [Event.ck, Event.ck, same]
  split
  next equal =>
    exact IdempotencyIndex.verdict_eq_replay.mpr ⟨entry, key ▸ found, stored.trans equal.symm⟩
  next other =>
    exact IdempotencyIndex.verdict_eq_conflict.mpr ⟨entry, key ▸ found, stored, fun h => other h.symm⟩

def Refused (d : Deduped) (row e : Event) : Prop :=
  if e.contentHash = row.contentHash then e ∈ d.suppressed
  else conflictLetter e row.contentHash ∈ d.conflicts

theorem refused_of_known {row e : Event} (known : ix.verdict row = .replay) (mem : e ∈ events)
    (same : e.dedupKey = row.dedupKey) : Refused (dedup ix events) row e := by
  have said := verdict_of_known known same
  unfold Refused
  rw [dedup_eq]
  split at said
  next equal =>
    rw [if_pos equal]
    simp [mem, said]
  next other =>
    rw [if_neg other]
    exact List.mem_filterMap.mpr ⟨e, mem, by simp [IdempotencyIndex.conflictOf, said]⟩

/-- If the call returns, it has counted what the decision in order suppresses, the letters of the
conflicts are in the dead-letter log, and an event with the key of a committed row is one of the
two. -/
def Batch.DecidesInOrder (w : World) (b : Batch) : Prop :=
  ∀ report admitted, (b.run w).1 = .ok report →
    admitEvents b.events w.dictionary w.quotas b.nowMs = some admitted →
    let decided := dedupInOrder w.idempotency admitted.accepted
    report.duplicatesSuppressed = decided.suppressed.length ∧
      (∀ letter ∈ decided.conflicts, letter ∈ (b.step w).deadLetters) ∧
      ∀ row ∈ w.store.headRows, ∀ e ∈ admitted.accepted, e.dedupKey = row.event.dedupKey →
        Refused decided row.event e

theorem Batch.decidesInOrder {w : World} (b : Batch) (intact : w.store.Intact)
    (ready : b.Distinct w) : b.DecidesInOrder w := by
  intro report admitted returned done
  have once : (w.idempotency.newKeys admitted.accepted).Nodup := by
    obtain ⟨between, moved, part⟩ := admitted_newKeys w.idempotency done
    exact moved.nodup_iff.mp (ready.1.sublist part)
  rw [dedupInOrder_eq _ _ once]
  have ends := b.ing.ingest_spec b.events b.source b.nextOffset b.nowMs intact b.faults w rfl
  have result : b.ing.ingest b.events b.source b.nextOffset b.nowMs b.faults w =
      (.ok report, (b.run w).2.1, b.step w) := by
    rw [← returned]
    rfl
  rw [result] at ends
  obtain ⟨_, screened, screens, counted, letters, _⟩ := ends
  obtain ⟨admitted', denied, done', suppressed, _, dead⟩ := screens
  obtain rfl := Option.mem_unique done done'
  refine ⟨by rw [counted, suppressed], fun letter mem => letters.subset ?_, ?_⟩
  · rw [dead]
    simp [mem]
  · intro row mem e inside same
    exact refused_of_known (ready.2 row mem) inside same

/-- The world after these batches, from an empty store with any index. -/
def Batch.after (ix : IdempotencyIndex) (batches : List Batch) : World :=
  batches.foldl Batch.step { World.fresh with idempotency := ix }

/-- In every such run of ingest calls there is at most one committed row for each tenant and key,
and the next call decides its batch as in order. -/
theorem admitted_once (ix : IdempotencyIndex) (batches : List Batch)
    (distinct : Meets Batch.step (fun w b => b.Distinct w) { World.fresh with idempotency := ix }
      batches)
    (clean : (Batch.after ix batches).store.clashed = false) :
    ((Batch.after ix batches).store.headRows.map (·.event.dedupKey)).Nodup ∧
      ∀ b : Batch, b.Distinct (Batch.after ix batches) →
        b.DecidesInOrder (Batch.after ix batches) := by
  have start : RowsDistinct { World.fresh with idempotency := ix } := ⟨intact_fresh, fun _ => by
    simp [headRows, World.fresh, Store.fresh, Catalog.currentIn, rowsOf, Snapshot.empty]⟩
  have sound : RowsDistinct (Batch.after ix batches) :=
    invariant_run Batch.step_rowsDistinct batches _ start distinct
  refine ⟨?_, fun b ready => b.decidesInOrder sound.intact ready⟩
  -- Equal pairs of tenant and key have equal composite keys.
  have keys := sound.rows clean
  have composite : (Batch.after ix batches).store.headRows.map (·.event.ck) =
      ((Batch.after ix batches).store.headRows.map (·.event.dedupKey)).map
        fun key => ck key.1 key.2 := by
    rw [List.map_map]
    rfl
  rw [composite] at keys
  exact keys.of_map _

def sampleBatch (events : List String) : Batch :=
  ⟨sampleIngestor, events.map sampleEvent, none, none, 1000, []⟩

set_option maxRecDepth 100000

/-- A batch that is sent again is counted as a duplicate. -/
theorem admitted_once_retry :
    ((Batch.after ∅ [sampleBatch ["e1"]]).store.headRows.map (·.event.dedupKey)).Nodup ∧
      ∃ report, ((sampleBatch ["e1"]).run (Batch.after ∅ [sampleBatch ["e1"]])).1 = .ok report ∧
        report.duplicatesSuppressed = 1 := by
  have ready : (sampleBatch ["e1"]).Distinct (Batch.after ∅ []) := by decide +kernel
  have facts : (Batch.after ∅ [sampleBatch ["e1"]]).store.clashed = false ∧
      (sampleBatch ["e1"]).Distinct (Batch.after ∅ [sampleBatch ["e1"]]) ∧
      ((sampleBatch ["e1"]).run (Batch.after ∅ [sampleBatch ["e1"]])).1.isOk = true ∧
      (admitEvents (sampleBatch ["e1"]).events (Batch.after ∅ [sampleBatch ["e1"]]).dictionary
        (Batch.after ∅ [sampleBatch ["e1"]]).quotas 1000).isSome ∧
      ∀ admitted ∈ admitEvents (sampleBatch ["e1"]).events
          (Batch.after ∅ [sampleBatch ["e1"]]).dictionary
          (Batch.after ∅ [sampleBatch ["e1"]]).quotas 1000,
        (dedupInOrder (Batch.after ∅ [sampleBatch ["e1"]]).idempotency
          admitted.accepted).suppressed.length = 1 := by
    decide +kernel
  obtain ⟨clean, again, returns, admits, counted⟩ := facts
  obtain ⟨rows, decides⟩ := admitted_once ∅ [sampleBatch ["e1"]] ⟨ready, trivial⟩ clean
  obtain ⟨admitted, done⟩ := Option.isSome_iff_exists.mp admits
  obtain ⟨report, returned⟩ := Outcome.exists_of_isOk returns
  exact ⟨rows, report, returned,
    (decides _ again report admitted returned done).1.trans (counted admitted done)⟩

def twiceBatch : Batch :=
  let events := [sampleEvent "e1", sampleEvent "e1"]
  ⟨{ sampleIngestor with codec := ⟨tableSerde [⟨0, events, none, none, 1000⟩], none⟩ },
    events, none, none, 1000, []⟩

/-- Both are committed, and the report counts no duplicate. -/
theorem twice_in_batch_commits_twice :
    (twiceBatch.run World.fresh).2.2.store.headRows.map (·.event.dedupKey) =
        [("t1", "e1"), ("t1", "e1")] ∧
      (match (twiceBatch.run World.fresh).1 with
        | .ok report => some (report.duplicatesSuppressed, report.published)
        | _ => none) = some (0, 2) := by
  decide +kernel

end Prism
