import Prism.Engine.Ingest

/-!
The ingestion path: admission, idempotency, the durable log, publication, the index and the source
offset, in that order, and recovery (`prism-engine/src/ingestor.rs` and `source.rs`).
-/

namespace Prism

open CrashLogic

structure Source where
  name : String
  events : List Event

structure IngestorReport where
  offered : Nat
  published : Nat := 0
  duplicatesSuppressed : Nat := 0
  deadLettered : Nat := 0
  byReason : BTreeMap String Nat := ∅
  partId : Option String := none
  snapshotId : SnapshotId := 0
  walRecord : Option Nat := none
  source : Option String := none
  sourceOffsetBefore : Option Nat := none
  sourceOffsetAfter : Option Nat := none
  recovered : Bool := false
  deriving DecidableEq

/-- An engine with its admission log; `replicated` when the log is also on the object store. -/
structure Ingestor where
  engine : Engine
  codec : WalCodec
  replicated : Bool

def committedOffset (name : String) : Io Nat :=
  Prog.read deviceError fun w => .ok ((w.offsets[name]?).getD 0)

def commitOffset (name : String) (offset : Nat) : Io Unit :=
  Prog.replace deviceError fun w => { w with offsets := w.offsets.insert name offset }

def loadIdempotency : Io IdempotencyIndex := Prog.read deviceError fun w => .ok w.idempotency

def saveIdempotency (ix : IdempotencyIndex) : Io Unit :=
  Prog.replace deviceError fun w => { w with idempotency := ix }

def recordKeys (events : List Event) : Io Unit := do
  let ix ← loadIdempotency
  saveIdempotency (ix.recordAll events)

def commitRecordOffset (r : WalRecord) : Io (Option Nat) :=
  match r.source, r.sourceOffset with
  | some name, some offset => do
    commitOffset name offset
    return some offset
  | _, _ => return none

namespace Ingestor

variable (ing : Ingestor)

def remoteRecords : Io (List WalRecord) :=
  Prog.read deviceError fun w => RemoteWal.readAllIn ing.codec w.objects.remoteWal

variable (r : WalRecord)

/-- Put the record on the object store; a create that loses leaves what is there. -/
def remotePut (bytes : Bytes) : Io Unit :=
  Prog.replace deviceError fun w =>
    { w with objects := { w.objects with
        remoteWal := RemoteWal.putIn r.recordId bytes w.objects.remoteWal } }

def remoteConfirm (bytes : Bytes) : Io Unit :=
  Prog.read deviceError fun w => RemoteWal.confirmIn r.recordId bytes w.objects.remoteWal

/-! ### Publication and recovery -/

/-- Commit a record's events, then record their keys, then the source offset. -/
def publishWalRecord (nowMs : Int) : Io IngestorReport := do
  let inner ← ing.engine.ingestWal r.events nowMs r.recordId
  recordKeys r.events
  let offset ← commitRecordOffset r
  return { offered := r.events.length, published := inner.admitted,
           deadLettered := inner.deadLettered, partId := inner.partId,
           snapshotId := inner.snapshotId, walRecord := some r.recordId, source := r.source,
           sourceOffsetAfter := offset }

/-- A record at or below the marker is visible; only its keys and its offset may be missing. -/
def reconcileApplied : Io Unit := do
  recordKeys r.events
  let _ ← commitRecordOffset r

def mergeRemote (records : BTreeMap Nat WalRecord) (r : WalRecord) :
    Result (BTreeMap Nat WalRecord) :=
  match records[r.recordId]? with
  | some found =>
    if found ≠ r then
      .error (.corrupt
        s!"local and replicated admission WAL differ for record {r.recordId}")
    else .ok records
  | none => .ok (records.insert r.recordId r)

def byId (records : List WalRecord) : BTreeMap Nat WalRecord :=
  records.foldl (fun m r => m.insert r.recordId r) ∅

def admissionRecords : Io (List WalRecord) := do
  let records ← onWal (Wal.readAll ing.codec)
  if ing.replicated then do
    let remote ← ing.remoteRecords
    let merged ← Prog.ofExcept (remote.foldlM mergeRemote (byId records))
    return merged.toList.map Prod.snd
  else return (byId records).toList.map Prod.snd

def isApplied (floor : Option Nat) (r : WalRecord) : Bool :=
  match floor with
  | some f => r.recordId ≤ f
  | none => false

/-- One record of recovery: reconcile what the marker covers, publish the rest. -/
def recoverRecord (floor : Option Nat) (nowMs : Int) (r : WalRecord) :
    Io (Option IngestorReport) :=
  if isApplied floor r then do
    reconcileApplied r
    return none
  else do
    let report ← ing.publishWalRecord r nowMs
    return some { report with recovered := true }

def recover (nowMs : Int) : Io (List IngestorReport) := do
  let snap ← Engine.snapshot
  let records ← ing.admissionRecords
  let reports ← Prog.each (ing.recoverRecord snap.appliedWalRecord nowMs) records
  let after ← Engine.snapshot
  let _ ← onWal (Wal.compactThrough ing.codec after.appliedWalRecord)
  return reports.filterMap id

/-! ### Ingestion -/

/-- What a batch became before the log: the events to append and those refused or suppressed. -/
structure Screened where
  accepted : List Event
  suppressed : List Event
  dead : List DeadLetter
  dict : KeyDictionary

def screen (events : List Event) (nowMs : Int) : Io Screened := do
  let dict ← Prog.read deviceError fun w => .ok w.dictionary
  let quotas ← Prog.read deviceError fun w => .ok w.quotas
  let admitted ← Engine.orHalt (admitEvents events dict quotas nowMs)
  Prog.note fun w => { w with quotas := admitted.quotas }
  let ix ← loadIdempotency
  let deduped := dedup ix admitted.accepted
  Prog.note fun w => { w with suppressed := w.suppressed ++ deduped.suppressed }
  let (allowed, denied) ← ing.engine.modelPreflightIngest deduped.accepted
  return ⟨allowed, deduped.suppressed, admitted.rejected ++ deduped.conflicts ++ denied,
    admitted.dict⟩

/-- The id of the next record: the allocator's, or on a replicated log the next of this epoch. -/
def chooseRecord (events : List Event) (source : Option String) (nextOffset : Option Nat)
    (nowMs : Int) : Io WalRecord :=
  if ing.replicated then do
    ing.engine.assertWriteOwner
    let localRecords ← onWal (Wal.readAll ing.codec)
    let recordId ← Prog.read deviceError fun w =>
      RemoteWal.nextRecordIdIn ing.codec w.objects.remoteWal ing.engine.ownerEpoch localRecords
    return ⟨recordId, events, source, nextOffset, nowMs⟩
  else do
    let recordId ← onWal Wal.allocator
    return ⟨recordId, events, source, nextOffset, nowMs⟩

def appendLocal : Io Unit := onWal (Wal.appendRecord ing.codec r)

/-- Put the record on the replicated log and check that this writer is still the owner. -/
def shipRemote : Io Unit :=
  if ing.replicated then do
    let bytes ← Prog.ofExcept (ing.codec.encode r)
    remotePut r bytes
    remoteConfirm r bytes
    ing.engine.assertWriteOwner
  else pure ()

def countReasons (dead : List DeadLetter) : BTreeMap String Nat :=
  OrderedMap.foldBy DeadLetter.reason 0 (fun n _ => n + 1) dead

/-- Publish the appended record, then write the dictionary and compact the log. -/
def finishIngest (report : IngestorReport) (r : WalRecord) (dict : KeyDictionary) (nowMs : Int) :
    Io IngestorReport := do
  let published ← ing.publishWalRecord r nowMs
  Prog.replace deviceError fun w => { w with dictionary := dict }
  -- Here the source prunes the copy of the index that screening loaded; it is not saved again.
  let snap ← Engine.snapshot
  let _ ← onWal (Wal.compactThrough ing.codec snap.appliedWalRecord)
  return { report with published := published.published, partId := published.partId,
                       snapshotId := published.snapshotId, walRecord := some r.recordId,
                       sourceOffsetAfter := published.sourceOffsetAfter }

/-- A batch with nothing to publish still moves its source on. -/
def finishSuppressed (report : IngestorReport) (source : Option String) (nextOffset : Option Nat) :
    Io IngestorReport := do
  let snap ← Engine.snapshot
  match source, nextOffset with
  | some name, some offset => do
    commitOffset name offset
    return { report with snapshotId := snap.snapshotId, sourceOffsetAfter := some offset }
  | _, _ => return { report with snapshotId := snap.snapshotId }

def offsetBefore : Option String → Io (Option Nat)
  | some name => do
    let offset ← committedOffset name
    return some offset
  | none => pure none

/-- The part of `ingest` before the log: screen the batch and make its dead letters durable. -/
def prepare (events : List Event) (source : Option String) (nowMs : Int) :
    Io (IngestorReport × Screened) := do
  let before ← offsetBefore source
  let screened ← ing.screen events nowMs
  Engine.writeDeadLetters screened.dead
  return ({ offered := events.length, source := source, sourceOffsetBefore := before,
            duplicatesSuppressed := screened.suppressed.length,
            deadLettered := screened.dead.length, byReason := countReasons screened.dead },
          screened)

def ingest (events : List Event) (source : Option String) (nextOffset : Option Nat) (nowMs : Int) :
    Io IngestorReport := do
  let (report, screened) ← ing.prepare events source nowMs
  if screened.accepted.isEmpty then finishSuppressed report source nextOffset
  else do
    let r ← ing.chooseRecord screened.accepted source nextOffset nowMs
    ing.appendLocal r
    ing.shipRemote r
    ing.finishIngest report r screened.dict nowMs

def poll (source : Source) (max start : Nat) : List Event × Nat :=
  let stop := min (start + max) source.events.length
  ((source.events.take stop).drop start, stop)

def pollAndIngest (source : Source) (max : Nat) (nowMs : Int) :
    Io IngestorReport := do
  let start ← committedOffset source.name
  let (events, nextOffset) := poll source max start
  if events.isEmpty then do
    let snap ← Engine.snapshot
    return { offered := 0, snapshotId := snap.snapshotId, source := some source.name,
             sourceOffsetBefore := some start, sourceOffsetAfter := some start }
  else ing.ingest events (some source.name) (some nextOffset) nowMs

end Ingestor

end Prism
