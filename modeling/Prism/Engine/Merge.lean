import Prism.Engine.Ingest
import Prism.Engine.Scheduler
import Prism.Part.Reader

/-!
The operations that rewrite the parts of a store and swap the catalog: merge, tiered merge,
re-embedding, rollback and delete (`prism-engine/src/merge.rs` and `delete.rs`).
-/

namespace Prism

open CrashLogic

def mergeSafetyMarginBytes : Nat := 64 * 1024 * 1024

structure MergeReport where
  partsIn : Nat
  partsOut : Nat
  rowsIn : Nat
  rowsOut : Nat
  duplicatesReconciled : Nat
  partsMigrated : Nat
  bytesRead : Nat
  bytesWritten : Nat
  snapshotId : SnapshotId
  deferred : Option String
  plan : Option MergePlan
  mergeDebt : Nat
  deriving DecidableEq, Repr

def MergeReport.untouched (snap : Snapshot) : MergeReport :=
  ⟨snap.parts.length, snap.parts.length, 0, 0, 0, 0, 0, 0, snap.snapshotId, none, none, 0⟩

structure ReembedReport where
  oldGeneration : String
  newGeneration : String
  oldModel : String
  newModel : String
  rows : Nat
  partsWritten : Nat
  snapshotId : SnapshotId
  rollbackTo : SnapshotId
  deriving DecidableEq, Repr

/-! ### Reconciliation -/

/-- Last write wins by `event_time`; ties break on the content hash. -/
def supersedes (new old : Event) : Bool :=
  match compare new.eventTime old.eventTime with
  | .gt => true
  | .lt => false
  | .eq => (compare new.contentHash old.contentHash).isGT

/-- Offer a row to the map of its partition; the count is one if its id was there. -/
def reconcileRow (bucket : BTreeMap String RowIn) (row : RowIn) : BTreeMap String RowIn × Nat :=
  match bucket[row.event.eventId]? with
  | some existing =>
    if !supersedes row.event existing.event then (bucket, 1)
    else (bucket.insert row.event.eventId row, 1)
  | none => (bucket.insert row.event.eventId row, 0)

structure Reconciled where
  byPartition : BTreeMap PartitionKey (BTreeMap String RowIn)
  duplicates : Nat

/-- One row of a part of `generation`; a deleted row is dropped. -/
def Reconciled.take (scheme : PartitionScheme) (snap : Snapshot) (generation : String)
    (s : Reconciled) (row : RowIn) : Reconciled :=
  if snap.isTombstoned row.event.eventId then s
  else
    let key := scheme.keyOf generation row.event
    let (bucket, duplicate) := reconcileRow (s.byPartition[key]?.getD ∅) row
    ⟨s.byPartition.insert key bucket, s.duplicates + duplicate⟩

def reconcileParts (scheme : PartitionScheme) (snap : Snapshot) (parts : List (String × List RowIn)) :
    Reconciled :=
  parts.foldl (fun s (generation, rows) => rows.foldl (Reconciled.take scheme snap generation) s)
    ⟨∅, 0⟩

def Reconciled.groups (s : Reconciled) : List (PartitionKey × List RowIn) :=
  s.byPartition.toList.map fun (key, bucket) => (key, bucket.toList.map Prod.snd)

namespace Engine

/-! ### Opening parts -/

variable (engine : Engine)

def cipherFor (m : PartManifest) : Result (Option BlockCipher) :=
  if !m.encrypted then .ok none
  else
    match m.encryptionEnvelope with
    | none => .error (.corrupt
        s!"part {m.partId} sets the encryption feature but carries no envelope")
    | some envelope =>
      if envelope.algorithm ≠ aeadXchacha20Poly1305 then
        .error (.corrupt <| s!"part {m.partId} was sealed with AEAD id {envelope.algorithm}, " ++
          "which this build does not implement")
      else
        match engine.keys with
        | none => .error (.policy <| s!"part {m.partId} is encrypted under key " ++
            s!"`{envelope.wrappingKeyId}` but this store has no key service configured")
        | some keys => do
          let dek ← keys.unwrap envelope.wrappingKeyId envelope.wrappedDek
          return some ⟨keys.aead, dek, dekLabel envelope.dekEpoch, engine.draws.nonces⟩

def openPart (engine : Engine) (partId : String) : Io PartReader := do
  let part ← onStore (Catalog.openPart partId)
  let cipher ← Prog.ofExcept (engine.cipherFor part.manifest)
  return ⟨part, cipher⟩

variable (snap : Snapshot)

def openParts : Io (List PartReader) :=
  Prog.each engine.openPart snap.partIds

def readRows (r : PartReader) : Io (List RowIn) := Prog.read deviceError fun _ => r.readAll

def readPart (r : PartReader) : Io (String × List RowIn) := do
  let rows ← readRows r
  return (r.manifest.generationId, rows)

/-! ### Rewriting -/

/-- Write the part of one partition of a rewrite; the number is its logical size. -/
def rewritePartition (g : Generation) (lineage : S5Ext) (nowMs : Int)
    (item : Nat × PartitionKey × List RowIn) : Io (PartRef × Nat) := do
  let (seq, key, rows) := item
  let tokenizer ← Prog.ofExcept engine.tenantTokenizer
  let spec : PartSpec := ⟨some key, engine.config.promote, lineage, none, tokenizer⟩
  let manifest ← onStore (Catalog.writePart (engine.shapeOf g) spec seq rows nowMs)
  return (partRef manifest key, manifest.logicalBytes)

def mergePartition (nowMs : Int) (item : Nat × PartitionKey × List RowIn) :
    Io (PartRef × Nat) := do
  let g ← onStore (Catalog.getGeneration item.2.1.generation)
  engine.rewritePartition g {} nowMs item

/-- Whether a merge has to move a part forward: it is of an older format, or it names its tenants on
a store that seals them. -/
def needsMigration (sealsTenants : Bool) (r : PartReader) : Bool :=
  r.manifest.isLegacy || (sealsTenants && !r.manifest.hasTenantTokens)

def deferral (free required inputLogicalBytes : Nat) : String :=
  s!"merge deferred: insufficient free space — {free} B free, need ~{required} B (projected " ++
    s!"output {inputLogicalBytes} B + {mergeSafetyMarginBytes} B margin). The store is " ++
    "unchanged; the merge will run once space returns."

/-- Reconcile all opened parts, write one part per partition and commit them without tombstones. -/
def mergeParts (readers : List PartReader) (migrated : Nat) (nowMs : Int) : Io MergeReport := do
  let parts ← Prog.each readPart readers
  let reconciled := reconcileParts engine.config.partitions snap parts
  let groups := reconciled.groups
  let written ← Prog.each (engine.mergePartition nowMs) (numbered snap.nextSeq groups)
  let committed ← onStore (Catalog.commitMeta snap (written.map fun (ref, _) => .located ref)
    (snap.nextSeq + groups.length) snap.activeGeneration
    { SnapshotMeta.of snap with tombstones := [] } nowMs)
  return {
      partsIn := snap.parts.length
      partsOut := written.length
      rowsIn := (parts.map (·.2.length)).sum
      rowsOut := (groups.map (·.2.length)).sum
      duplicatesReconciled := reconciled.duplicates
      partsMigrated := migrated
      bytesRead := (readers.map (·.manifest.logicalBytes)).sum
      bytesWritten := (written.map Prod.snd).sum
      snapshotId := committed.snapshotId
      deferred := none
      plan := none
      mergeDebt := 0 }

/-- The full merge. `free` is the free space of the device, where it can be told. -/
def merge (free : Option Nat) (nowMs : Int) : Io MergeReport := do
  let snap ← snapshot
  let readers ← engine.openParts snap
  let tokenizer ← Prog.ofExcept engine.tenantTokenizer
  let migratable := readers.filter (needsMigration tokenizer.isSome)
  if snap.parts.length < 2 ∧ migratable.isEmpty then return .untouched snap
  else
    let inputLogicalBytes := (readers.map (·.manifest.logicalBytes)).sum
    let required := inputLogicalBytes + mergeSafetyMarginBytes
    match free.filter (· < required) with
    | some free =>
      return { MergeReport.untouched snap with
        deferred := some (deferral free required inputLogicalBytes) }
    | none => engine.mergeParts snap readers migratable.length nowMs

/-! ### The tiered merge -/

/-- What the loop over the rows of one operation has gathered. The partition is that of the first
row that is not deleted. -/
structure OpReconciled where
  merged : BTreeMap String RowIn
  key : Option PartitionKey
  duplicates : Nat

def OpReconciled.take (scheme : PartitionScheme) (snap : Snapshot) (generation : String)
    (s : OpReconciled) (row : RowIn) : OpReconciled :=
  if snap.isTombstoned row.event.eventId then s
  else
    let (merged, duplicate) := reconcileRow s.merged row
    ⟨merged, s.key.or (some (scheme.keyOf generation row.event)), s.duplicates + duplicate⟩

structure OpOutput where
  ref : Option PartRef
  rowsIn : Nat
  rowsOut : Nat
  duplicates : Nat
  bytesRead : Nat
  bytesWritten : Nat

/-- Open a part as it is, without asking the key service. -/
def openPlain (partId : String) : Io PartReader := do
  let part ← onStore (Catalog.openPart partId)
  return ⟨part, none⟩

def openAndRead (partId : String) : Io (PartReader × List RowIn) := do
  let r ← openPlain partId
  let rows ← readRows r
  return (r, rows)

/-- Merge the parts of one operation into a part of number `seq`, or into none if every row of
theirs is deleted. -/
def runOp (nowMs : Int) (seq : Nat) (op : MergeOp) :
    Io OpOutput := do
  let parts ← Prog.each openAndRead op.partIds
  let s := parts.foldl (fun s (r, rows) =>
    rows.foldl (OpReconciled.take engine.config.partitions snap r.manifest.generationId) s)
    ⟨∅, none, 0⟩
  let rowsIn := (parts.map (·.2.length)).sum
  let bytesRead := (parts.map (·.1.manifest.logicalBytes)).sum
  match s.key with
  | none => return ⟨none, rowsIn, 0, s.duplicates, bytesRead, 0⟩
  | some key => do
    let rows := s.merged.toList.map Prod.snd
    let (ref, bytesWritten) ← engine.mergePartition nowMs (seq, key, rows)
    return ⟨some ref, rowsIn, rows.length, s.duplicates, bytesRead, bytesWritten⟩

/-- The operations of a plan, one after another; only a part that is written takes a number. -/
def runOps (engine : Engine) (snap : Snapshot) (nowMs : Int) : Nat → List MergeOp → Io (List OpOutput)
  | _, [] => pure []
  | seq, op :: rest => do
    let out ← engine.runOp snap nowMs seq op
    let outs ← engine.runOps snap nowMs (if out.ref.isSome then seq + 1 else seq) rest
    return out :: outs

/-- One cycle of the scheduler. A store with an entry of the old catalog goes to the full merge. -/
def mergeTiered (free : Option Nat) (nowMs : Int) : Io MergeReport := do
  let snap ← snapshot
  let refs := snap.parts.filterMap PartEntry.located?
  if refs.length ≠ snap.parts.length then engine.merge free nowMs
  else
    let plan := planMerges refs
    if plan.ops.isEmpty then
      return { MergeReport.untouched snap with mergeDebt := plan.mergeDebt, plan := some plan }
    else
      let consumed := plan.ops.flatMap (·.partIds)
      let outs ← engine.runOps snap nowMs snap.nextSeq plan.ops
      let new := outs.filterMap (·.ref)
      let kept := snap.parts.filter (fun e => !consumed.contains e.partId) ++ new.map .located
      let committed ← onStore (Catalog.commit snap kept (snap.nextSeq + new.length)
        snap.activeGeneration nowMs)
      return {
          partsIn := snap.parts.length
          partsOut := kept.length
          rowsIn := (outs.map (·.rowsIn)).sum
          rowsOut := (outs.map (·.rowsOut)).sum
          duplicatesReconciled := (outs.map (·.duplicates)).sum
          partsMigrated := 0
          bytesRead := (outs.map (·.bytesRead)).sum
          bytesWritten := (outs.map (·.bytesWritten)).sum
          snapshotId := committed.snapshotId
          deferred := none
          plan := some plan
          mergeDebt := (planMerges (committed.parts.filterMap PartEntry.located?)).mergeDebt }

/-! ### Re-embedding -/

def reembedAll (embed : Embedder) (newVersion : String) (events : List Event) :
    Result (List (Event × Vector32)) :=
  let results := embed.embedBatchScoped (embeddingInputs events)
  if results.length ≠ events.length then
    .error (.invariant <| s!"re-embed model returned {results.length} results for " ++
      s!"{events.length} rows; refusing a migration with holes")
  else
    (events.zip results).mapM fun (e, result) =>
      match result with
      | .ok v => .ok (e, v)
      | .error err => .error (.invariant <| s!"re-embedding `{e.eventId}` failed under model " ++
          s!"version {newVersion}: {err.display}. Aborting the migration; the current generation " ++
          "is untouched.")

/-- Re-embed every row into a new generation and swap the catalog. -/
def reembed (newVersion : String) (nowMs : Int) : Io ReembedReport := do
  let snap ← snapshot
  match snap.activeGeneration with
  | none => Prog.throw (.invalid "nothing to re-embed: store is empty")
  | some oldId => do
    let old ← onStore (Catalog.getGeneration oldId)
    let embed ← Prog.ofExcept (engine.plane.candidateEmbedder old.modelId newVersion)
    let readers ← engine.openParts snap
    let parts ← Prog.each readRows readers
    let events := parts.flatten.map (·.event)
    if events.isEmpty then Prog.throw (.invalid "nothing to re-embed: no rows")
    else
      let embedded ← Prog.ofExcept (reembedAll embed newVersion events)
      let new ← Prog.ofExcept (engine.plane.retrain embed snap.snapshotId embedded)
      if new.generationId = oldId then
        Prog.throw (.invalid "re-embedding produced an identical generation; nothing to migrate")
      else
        onStore (Catalog.putGeneration new)
        let rows ← Prog.ofExcept (engine.encodeRows new embedded)
        let groups := engine.partitionRows new rows
        let written ← Prog.each (engine.rewritePartition new {} nowMs) (numbered snap.nextSeq groups)
        let committed ← onStore (Catalog.commit snap (written.map fun (ref, _) => .located ref)
          (snap.nextSeq + groups.length) (some new.generationId) nowMs)
        return ⟨oldId, new.generationId, s!"{old.modelId}:{old.modelVersion}",
          s!"{embed.modelId}:{embed.modelVersion}", rows.length, written.length,
          committed.snapshotId, snap.snapshotId⟩

/-! ### Rollback and delete -/

/-- Commit the parts and the active generation of an earlier snapshot on the current one. -/
def rollback (toId : SnapshotId) (nowMs : Int) : Io SnapshotId := do
  let target ← onStore (Catalog.loadSnapshot toId)
  let current ← snapshot
  let committed ← onStore (Catalog.commit current target.parts
    (max current.nextSeq target.nextSeq) target.activeGeneration nowMs)
  return committed.snapshotId

def insertTombstone (tombstones : List String) (id : String) : List String :=
  if tombstones.contains id then tombstones
  else tombstones.orderedInsert (fun a b => (compare a b).isLE) id

/-- Delete a set of event ids by a tombstone each; the result counts the new ones. -/
def delete (eventIds : List String) (nowMs : Int) : Io Nat := do
  let snap ← snapshot
  let tombstones := eventIds.foldl insertTombstone snap.tombstones
  let added := tombstones.length - snap.tombstones.length
  if added = 0 then return 0
  else
    let _ ← onStore (Catalog.commitMeta snap snap.parts snap.nextSeq snap.activeGeneration
      { SnapshotMeta.of snap with tombstones := tombstones } nowMs)
    return added

end Engine

end Prism
