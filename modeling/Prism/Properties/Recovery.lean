import Prism.Properties.AdmissionLog

/-!
Publication of a log record and recovery from the logs, however they end: what they read, what
they leave alone, and in which order the store, the index and the offsets change.
-/

namespace Prism

open CrashLogic Fallible Store World

variable {nowMs : Int} {r : WalRecord} {start : World}

/-! ### Keys and offsets -/

def offsetsAfter (r : WalRecord) (offsets : BTreeMap String Nat) : BTreeMap String Nat :=
  match r.source, r.sourceOffset with
  | some name, some offset => offsets.insert name offset
  | _, _ => offsets

theorem recordKeys_spec (events : List Event) : Triple (· = start) (recordKeys events)
      (fun _ w => w = { start with idempotency := start.idempotency.recordAll events })
      (fun w => w = start ∨
        w = { start with idempotency := start.idempotency.recordAll events }) := by
  refine Observes.read.bind_triple (.inl rfl) fun ix found => ?_
  cases found
  refine Triple.replace ?_ (fun _ same => .inl same) ?_
  · rintro w rfl
    rfl
  · rintro w rfl
    exact .inr rfl

theorem commitRecordOffset_spec : Triple (· = start) (commitRecordOffset r)
      (fun _ w => w = { start with offsets := offsetsAfter r start.offsets })
      (fun w => w = start ∨ w = { start with offsets := offsetsAfter r start.offsets }) := by
  obtain ⟨recordId, events, source, sourceOffset, createdAtMs⟩ := r
  match source, sourceOffset with
  | some name, some offset =>
    refine Triple.bind (Triple.replace ?_ ?_ ?_) fun _ => Triple.pure fun _ h => h
    · rintro w rfl
      rfl
    · rintro w rfl
      exact .inl rfl
    · rintro w rfl
      exact .inr rfl
  | none, _ => exact Triple.pure fun _ same => same
  | some _, none => exact Triple.pure fun _ same => same

/-! ### One record -/

namespace Ingestor

structure Published (r : WalRecord) (start w : World) : Prop where
  logs : logs w = logs start
  finished : Finished r.events (some r.recordId) start w
  keys : w.idempotency = start.idempotency.recordAll r.events
  offsets : w.offsets = offsetsAfter r start.offsets

/-- Where a publication can have stopped: the keys follow the commit, the offset follows the
keys. -/
structure Publishing (r : WalRecord) (start w : World) : Prop where
  logs : logs w = logs start
  stopped : Stopped r.events (some r.recordId) start w
  progress : (w.idempotency = start.idempotency ∧ w.offsets = start.offsets) ∨
    (Finished r.events (some r.recordId) start w ∧
      w.idempotency = start.idempotency.recordAll r.events ∧
      (w.offsets = start.offsets ∨ w.offsets = offsetsAfter r start.offsets))

variable {r : WalRecord} {start : World}

theorem Published.publishing {w : World} (done : Published r start w) : Publishing r start w :=
  ⟨done.logs, done.finished.stopped, .inr ⟨done.finished, done.keys, .inr done.offsets⟩⟩

variable (ing : Ingestor)

theorem publishWalRecord_spec (intact : start.store.Intact) :
    Triple (· = start) (ing.publishWalRecord r nowMs)
      (fun _ w => Published r start w) (fun w => Publishing r start w) := by
  have inner : Triple (· = start) (ing.engine.ingestWal r.events nowMs r.recordId)
      (fun _ w => Finished r.events (some r.recordId) start w ∧ w.aside = start.aside)
      (fun w => Stopped r.events (some r.recordId) start w ∧ w.aside = start.aside) := by
    have framed := (Engine.ingestInner_aside ing.engine r.events nowMs (some r.recordId)
      false).keeps (· = start.aside)
    exact ((Engine.ingestInner_spec ing.engine r.events nowMs (some r.recordId) false
      intact).and framed).strengthen fun w same => ⟨same, same ▸ rfl⟩
  refine Triple.bind (inner.stopping ?_) fun report => ?_
  · rintro w ⟨stopped, aside⟩
    exact ⟨congrArg Logs.of aside, stopped, .inl ⟨congrArg Aside.idempotency aside,
      congrArg Aside.offsets aside⟩⟩
  · refine Triple.fix fun w ⟨finished, aside⟩ => ?_
    have sameLogs : logs w = logs start := congrArg Logs.of aside
    have sameKeys : w.idempotency = start.idempotency := congrArg Aside.idempotency aside
    have sameOffsets : w.offsets = start.offsets := congrArg Aside.offsets aside
    refine Triple.bind ((recordKeys_spec r.events).stopping ?_) fun _ => ?_
    · rintro w' (rfl | rfl)
      · exact ⟨sameLogs, finished.stopped, .inl ⟨sameKeys, sameOffsets⟩⟩
      · refine ⟨sameLogs, finished.stopped.of_ledger rfl, .inr ⟨finished.of_ledger rfl, ?_, ?_⟩⟩
        · exact sameKeys ▸ rfl
        · exact .inl sameOffsets
    · refine Triple.bind (Triple.fix fun w' same => commitRecordOffset_spec.conseq
        (Q := fun _ w'' => Published r start w'') (fun _ h => h) ?_ ?_) fun _ =>
          Triple.pure fun _ done => done
      · rintro _ w'' rfl
        subst same
        exact ⟨sameLogs, finished.of_ledger rfl, sameKeys ▸ rfl, sameOffsets ▸ rfl⟩
      · subst same
        rintro w'' (rfl | rfl)
        · exact ⟨sameLogs, finished.stopped.of_ledger rfl, .inr ⟨finished.of_ledger rfl,
            sameKeys ▸ rfl, .inl sameOffsets⟩⟩
        · exact ⟨sameLogs, finished.stopped.of_ledger rfl, .inr ⟨finished.of_ledger rfl,
            sameKeys ▸ rfl, .inr (sameOffsets ▸ rfl)⟩⟩

theorem reconcileApplied_spec : Triple (· = start) (reconcileApplied r)
      (fun _ w => w = { start with
        idempotency := start.idempotency.recordAll r.events
        offsets := offsetsAfter r start.offsets })
      (fun w => w = start ∨
        w = { start with idempotency := start.idempotency.recordAll r.events } ∨
        w = { start with
          idempotency := start.idempotency.recordAll r.events
          offsets := offsetsAfter r start.offsets }) := by
  refine Triple.bind ((recordKeys_spec r.events).stopping ?_) fun _ => ?_
  · rintro w (same | recorded)
    · exact .inl same
    · exact .inr (.inl recorded)
  · refine Triple.bind (Q := fun _ w => w = { start with
      idempotency := start.idempotency.recordAll r.events
      offsets := offsetsAfter r start.offsets })
      (Triple.fix fun w same => commitRecordOffset_spec.conseq (fun _ h => h) ?_ ?_)
      fun _ => Triple.pure fun _ done => done
    · rintro _ w' rfl
      subst same
      rfl
    · subst same
      rintro w' (rfl | rfl)
      · exact .inr (.inl rfl)
      · exact .inr (.inr rfl)

/-! ### What recovery reads -/

def Reads (ing : Ingestor) (w : World) (r : WalRecord) : Prop :=
  (∃ all, Wal.readAllIn ing.codec w.wal.file = .ok all ∧ r ∈ all) ∨
    (ing.replicated = true ∧
      ∃ all, RemoteWal.readAllIn ing.codec w.objects.remoteWal = .ok all ∧ r ∈ all)

/-- An entry after an insert under a record's own id is that record or was there before. -/
theorem insert_own {m : BTreeMap Nat WalRecord} {x : WalRecord} {id : Nat}
    (found : (m.insert x.recordId x)[id]? = some r) :
    (r = x ∧ r.recordId = id) ∨ m[id]? = some r := by
  obtain ⟨rfl, rfl⟩ | found := OrderedMap.of_getElem?_insert found
  · exact .inl ⟨rfl, rfl⟩
  · exact .inr found

variable {records : List WalRecord}

theorem mem_byId {id : Nat} (found : (byId records)[id]? = some r) :
    r ∈ records ∧ r.recordId = id := by
  have general : ∀ (records : List WalRecord) (m : BTreeMap Nat WalRecord),
      (records.foldl (fun m r => m.insert r.recordId r) m)[id]? = some r →
        (r ∈ records ∧ r.recordId = id) ∨ m[id]? = some r := by
    intro records
    induction records with
    | nil => exact fun _ => .inr
    | cons x xs ih =>
      intro m found
      rcases ih _ found with ⟨inside, key⟩ | earlier
      · exact .inl ⟨by simp [inside], key⟩
      · exact (insert_own earlier).imp_left fun ⟨own, key⟩ => ⟨by simp [own], key⟩
  rcases general records ∅ found with inside | empty
  · exact inside
  · simp at empty

theorem mem_mergeRemote {remote : List WalRecord} {records merged : BTreeMap Nat WalRecord}
    (done : remote.foldlM mergeRemote records = .ok merged) {id : Nat}
    (found : merged[id]? = some r) : (r ∈ remote ∧ r.recordId = id) ∨ records[id]? = some r := by
  induction remote generalizing records with
  | nil =>
    obtain rfl := pure_eq_ok.mp done
    exact .inr found
  | cons x xs ih =>
    obtain ⟨next, first, rest⟩ := bind_eq_ok.mp done
    rcases ih rest with ⟨inside, key⟩ | earlier
    · exact .inl ⟨by simp [inside], key⟩
    · unfold mergeRemote at first
      split at first
      · split at first
        · simp at first
        · cases first
          exact .inr earlier
      · cases first
        exact (insert_own earlier).imp_left fun ⟨own, key⟩ => ⟨by simp [own], key⟩

theorem readAll_spec (codec : WalCodec) :
    Observes (onWal (Wal.readAll codec)) fun w all => Wal.readAllIn codec w.wal.file = .ok all :=
  Observes.zoom World.walLens Observes.read

def admissionRecordsIn (ing : Ingestor) (w : World) : Result (List WalRecord) := do
  let records ← Wal.readAllIn ing.codec w.wal.file
  if ing.replicated then
    let remote ← RemoteWal.readAllIn ing.codec w.objects.remoteWal
    let merged ← remote.foldlM mergeRemote (byId records)
    return merged.toList.map Prod.snd
  else return (byId records).toList.map Prod.snd

theorem admissionRecords_spec :
    Observes ing.admissionRecords fun w records => ing.admissionRecordsIn w = .ok records := by
  unfold admissionRecordsIn
  refine Observes.bind (readAll_spec ing.codec) fun records => ?_
  cases ing.replicated with
  | true =>
    refine Observes.bind Observes.read fun remote => Observes.bind Observes.ofExcept fun merged =>
      Observes.pure fun w done shared read => ?_
    exact bind_eq_ok.mpr ⟨records, read, bind_eq_ok.mpr ⟨remote, shared,
      bind_eq_ok.mpr ⟨merged, done, rfl⟩⟩⟩
  | false => exact Observes.pure fun w read => bind_eq_ok.mpr ⟨records, read, rfl⟩

/-- The map that the records of recovery are listed from: its keys are record ids, its values were
read from one of the logs. -/
theorem admissionRecordsIn_map {ing : Ingestor} {w : World}
    (read : ing.admissionRecordsIn w = .ok records) :
    ∃ m : BTreeMap Nat WalRecord, records = m.toList.map Prod.snd ∧
      ∀ (id : Nat) (r : WalRecord), m[id]? = some r → r.recordId = id ∧ ing.Reads w r := by
  unfold admissionRecordsIn at read
  obtain ⟨own, ownRead, read⟩ := bind_eq_ok.mp read
  split at read
  next replicated =>
    obtain ⟨remote, remoteRead, read⟩ := bind_eq_ok.mp read
    obtain ⟨merged, done, rfl⟩ := bind_pure_eq_ok.mp read
    refine ⟨merged, rfl, fun id r found => ?_⟩
    rcases mem_mergeRemote done found with ⟨inside, key⟩ | earlier
    · exact ⟨key, .inr ⟨replicated, remote, remoteRead, inside⟩⟩
    · exact ⟨(mem_byId earlier).2, .inl ⟨own, ownRead, (mem_byId earlier).1⟩⟩
  · obtain rfl := pure_eq_ok.mp read
    refine ⟨byId own, rfl, fun id r found => ?_⟩
    exact ⟨(mem_byId found).2, .inl ⟨own, ownRead, (mem_byId found).1⟩⟩

theorem admissionRecordsIn_reads {ing : Ingestor} {w : World}
    (read : ing.admissionRecordsIn w = .ok records) (mem : r ∈ records) : ing.Reads w r := by
  obtain ⟨m, rfl, entries⟩ := admissionRecordsIn_map read
  obtain ⟨⟨id, held⟩, inside, rfl⟩ := List.mem_map.mp mem
  exact (entries id held (Std.ExtTreeMap.mem_toList_iff_getElem?_eq_some.mp inside)).2

/-- Recovery goes through the records in the order of their ids. -/
theorem admissionRecordsIn_ascending {ing : Ingestor} {w : World}
    (read : ing.admissionRecordsIn w = .ok records) :
    records.Pairwise fun a b => a.recordId < b.recordId := by
  obtain ⟨m, rfl, entries⟩ := admissionRecordsIn_map read
  rw [List.pairwise_map]
  have ordered := Std.ExtTreeMap.ordered_keys_toList (t := m)
  refine ordered.imp_of_mem fun {a b} first second below => ?_
  have key : ∀ entry ∈ m.toList, entry.2.recordId = entry.1 := fun entry inside =>
    (entries entry.1 entry.2 (Std.ExtTreeMap.mem_toList_iff_getElem?_eq_some.mp inside)).1
  rw [key a first, key b second]
  exact Nat.compare_eq_lt.mp below

/-- Recovery goes through the records one after another; what it does at the end is compaction,
which removes no record that was not covered by the marker and forgets none. -/
theorem recover_rule {I : List WalRecord → World → Prop} {E : World → Prop}
    (initially : I [] start) (ends : ∀ done w, I done w → E w)
    (record : ∀ records done r rest, ing.admissionRecordsIn start = .ok records →
      records = done ++ r :: rest →
      Triple (I done) (ing.recoverRecord start.store.marker nowMs r) (fun _ => I (done ++ [r])) E)
    (compact : ∀ (w : World) (wal : WalState), E w → wal.durable = w.wal.durable →
      wal.applied = w.wal.applied → E { w with wal }) :
    Triple (· = start) (ing.recover nowMs) (fun _ => E) E := by
  refine Engine.snapshot_spec.bind_triple (ends [] start initially) fun snap head => ?_
  have floor : snap.appliedWalRecord = start.store.marker := by simp only [Store.marker, head]
  refine (admissionRecords_spec ing).bind_triple (ends [] start initially) fun records read => ?_
  have loop : Triple (· = start) (Prog.each (ing.recoverRecord snap.appliedWalRecord nowMs) records)
      (fun _ => I records) E := by
    rw [floor]
    exact Triple.each (I := fun done _ => I done) records (fun _ same => same ▸ initially)
      fun done r rest _ split => record records done r rest read split
  refine Triple.bind loop fun reports => ?_
  refine Triple.bind (Q := fun _ w => E w) ?_ fun after => ?_
  · exact (Engine.snapshot_spec.triple (ends records)).weaken fun _ w held => ends records w held.2
  refine Triple.bind (Q := fun _ w => E w) (Triple.zoom World.walLens fun w holds => ?_) fun _ =>
    Triple.pure fun _ h => h
  have counters := (compactThrough_counters ing.codec after.appliedWalRecord).keeps
    (· = (w.wal.durable, w.wal.applied))
  have kept : ∀ wal : WalState, (wal.durable, wal.applied) = (w.wal.durable, w.wal.applied) →
      E { w with wal } := fun wal same =>
    compact w wal holds (Prod.mk.inj same).1 (Prod.mk.inj same).2
  exact counters.conseq (fun wal same => same ▸ rfl) (fun _ => kept) kept

/-- An invariant that does not depend on the index and the offsets is kept by recovery if publishing
any record it reads keeps it. -/
theorem recover_keeps (nowMs : Int) {I : World → Prop} (initially : I start)
    (intact : ∀ w, I w → w.store.Intact)
    (congr : ∀ w w' : World, I w → w'.ledger = w.ledger → logs w' = logs w → I w')
    (publishing : ∀ r w w', ing.Reads start r → I w → Publishing r w w' → I w')
    (compact : ∀ (w : World) (wal : WalState), I w → wal.durable = w.wal.durable →
      wal.applied = w.wal.applied → I { w with wal }) :
    Triple (· = start) (ing.recover nowMs) (fun _ => I) I := by
  refine ing.recover_rule (I := fun _ => I) initially (fun _ _ h => h) ?_ compact
  intro records done r rest read split
  have reads := admissionRecordsIn_reads read (r := r) (by simp [split])
  refine Triple.fix fun w holds => ?_
  unfold recoverRecord
  split
  · -- The marker covers the record: only its keys and its offset are written.
    have reconciled : ∀ w', (w' = w ∨
        w' = { w with idempotency := w.idempotency.recordAll r.events } ∨
        w' = { w with
          idempotency := w.idempotency.recordAll r.events
          offsets := offsetsAfter r w.offsets }) → I w' := by
      rintro w' (rfl | rfl | rfl)
      all_goals exact congr _ _ holds rfl rfl
    exact Triple.bind (reconcileApplied_spec.conseq (fun _ h => h)
      (fun _ w' same => reconciled w' (.inr (.inr same))) reconciled) fun _ =>
        Triple.pure fun _ h => h
  · exact Triple.bind ((ing.publishWalRecord_spec (intact w holds)).conseq (fun _ h => h)
      (fun _ w' done => publishing r w w' reads holds done.publishing)
      fun w' stopped => publishing r w w' reads holds stopped) fun _ => Triple.pure fun _ h => h

end Ingestor

end Prism
