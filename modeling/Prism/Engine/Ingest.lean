import Prism.Engine.World

/-!
Publication of a batch: embed it under the active generation, write one part per outer partition
and commit them with the log marker in one snapshot (`prism-engine/src/ingest.rs`).
-/

namespace Prism

open CrashLogic

structure IngestReport where
  admitted : Nat
  deadLettered : Nat
  partId : Option String
  snapshotId : SnapshotId
  generationId : String
  trainedGeneration : Bool
  deriving DecidableEq, Repr

namespace Engine

/-! ### The pure stages -/

def admitValid : List Event → Panics (List Event × List DeadLetter)
  | [] => some ([], [])
  | e :: rest => do
    let (kept, dead) ← admitValid rest
    match ← e.validate with
    | .ok () => some (e :: kept, dead)
    | .error r => some (kept, ⟨r.reason.asStr, r.detail, "admission", e⟩ :: dead)

def embeddingInputs (events : List Event) : List (String × String) :=
  events.map fun e => (e.tenantId, e.body)

def embeddingReason : PrismError → RejectReason
  | .policy _ => .modelPolicyDenied
  | _ => .embeddingFailed

def sortEmbedded : List (Event × Result Vector32) →
    List (Event × Vector32) × List DeadLetter
  | [] => ([], [])
  | (e, result) :: rest =>
    let (kept, dead) := sortEmbedded rest
    match result with
    | .ok v => ((e, v) :: kept, dead)
    | .error err => (kept, ⟨(embeddingReason err).asStr, err.display, "embedding", e⟩ :: dead)

/-- A batch whose results do not match its events one for one is refused whole. -/
def embedAll (embed : Embedder) (events : List Event) : List (Event × Vector32) × List DeadLetter :=
  let results := embed.embedBatchScoped (embeddingInputs events)
  if results.length ≠ events.length then
    ([], events.map fun e =>
      ⟨RejectReason.embeddingFailed.asStr,
        s!"embedder returned {results.length} results for {events.length} events; refusing the " ++
        "entire batch", "embedding", e⟩)
  else sortEmbedded (events.zip results)

variable (engine : Engine)

def encodeRows (g : Generation) (embedded : List (Event × Vector32)) :
    Result (List RowIn) :=
  embedded.mapM fun (e, v) => do
    let code ← engine.plane.encode g v
    return ⟨e, engine.plane.assign g v, code, v⟩

def partitionRows (g : Generation) (rows : List RowIn) :
    List (PartitionKey × List RowIn) :=
  (OrderedMap.groupBy (fun r : RowIn => engine.config.partitions.keyOf g.generationId r.event)
    rows).toList

def partRef (m : PartManifest) (key : PartitionKey) : PartRef :=
  ⟨m.partId, key, m.rowCount, m.tenants, m.timeMin, m.timeMax⟩

/-! ### Publication -/

def writePartition (g : Generation) (nowMs : Int) (item : Nat × PartitionKey × List RowIn) :
    Io PartRef := do
  let (seq, key, rows) := item
  let ordinal := engine.config.partitions.bucketOrdinal key.bucket
  let tokenizer ← Prog.ofExcept engine.tenantTokenizer
  let encryption ← Prog.ofExcept (engine.partEncryptionFor ordinal 1)
  let spec : PartSpec := ⟨some key, engine.config.promote, {}, encryption, tokenizer⟩
  let manifest ← onStore (Catalog.writePart (engine.shapeOf g) spec seq rows nowMs)
  return partRef manifest key

def numbered (nextSeq : Nat) (groups : List (PartitionKey × List RowIn)) :
    List (Nat × PartitionKey × List RowIn) :=
  ((List.range groups.length).map (nextSeq + ·)).zip groups

variable (snap : Snapshot)

/-- The metadata of the commit: that of the parent, with the marker of the record published. -/
def markedMeta (appliedWalRecord : Option Nat) : SnapshotMeta :=
  match appliedWalRecord with
  | some id => { SnapshotMeta.of snap with appliedWalRecord := some id }
  | none => SnapshotMeta.of snap

def writeAndCommit (g : Generation) (embedded : List (Event × Vector32)) (dead : List DeadLetter)
    (trained : Bool) (nowMs : Int) (appliedWalRecord : Option Nat) : Io IngestReport := do
  -- Dead letters are durable before the commit.
  writeDeadLetters dead
  if embedded.isEmpty then
    return ⟨0, dead.length, none, snap.snapshotId, g.generationId, trained⟩
  else
    let rows ← Prog.ofExcept (engine.encodeRows g embedded)
    let groups := engine.partitionRows g rows
    let refs ← Prog.each (engine.writePartition g nowMs) (numbered snap.nextSeq groups)
    let _ ← Prog.each publishPartCold (refs.map (·.partId))
    engine.assertWriteOwner
    mirrorSnapshot snap
    -- The marker rides inside the commit that makes the batch visible.
    let committed ← onStore (Catalog.commitMeta snap (snap.parts ++ refs.map .located)
      (snap.nextSeq + groups.length) (some g.generationId) (markedMeta snap appliedWalRecord) nowMs)
    mirrorSnapshot committed
    return ⟨rows.length, dead.length, refs.head?.map (·.partId), committed.snapshotId,
      g.generationId, trained⟩

def finishEmpty (dead : List DeadLetter) : Io IngestReport := do
  writeDeadLetters dead
  return ⟨0, dead.length, none, snap.snapshotId, snap.activeGeneration.getD "", false⟩

def modelFor : Io (String × String) :=
  match snap.activeGeneration with
  | some id => do
    let g ← onStore (Catalog.getGeneration id)
    return (g.modelId, g.modelVersion)
  | none => do
    let embed ← Prog.ofExcept engine.plane.defaultEmbedder
    return (embed.modelId, embed.modelVersion)

/-- Separate the events by the decisions on them; any error but a denial refuses the batch. -/
def sortDecided : List (Event × Result Unit) →
    Result (List Event × List DeadLetter)
  | [] => .ok ([], [])
  | (e, decision) :: rest => do
    match decision with
    | .ok () =>
      let (allowed, denied) ← sortDecided rest
      return (e :: allowed, denied)
    | .error (.policy detail) =>
      let (allowed, denied) ← sortDecided rest
      return (allowed, ⟨RejectReason.modelPolicyDenied.asStr, detail, "model_policy", e⟩ :: denied)
    | .error err => .error err

def modelPreflightForSnapshot (events : List Event) :
    Io (List Event × List DeadLetter) :=
  if events.isEmpty then pure ([], [])
  else do
    let (modelId, modelVersion) ← engine.modelFor snap
    let decisions := engine.plane.preflight modelId modelVersion (embeddingInputs events)
    if decisions.length ≠ events.length then
      Prog.throw (.invariant <| s!"model policy returned {decisions.length} preflight decisions " ++
        s!"for {events.length} events")
    else Prog.ofExcept (sortDecided (events.zip decisions))

def modelPreflightIngest (events : List Event) :
    Io (List Event × List DeadLetter) := do
  let snap ← snapshot
  engine.modelPreflightForSnapshot snap events

/-- A computation that may panic; the panic stops the process. -/
def orHalt {α : Type} : Panics α → Io α
  | some a => pure a
  | none => Prog.halt

/-- Embed the batch and publish it under the active generation, or train the first one on it. -/
def publishBatch (admitted : List Event) (dead : List DeadLetter) (nowMs : Int)
    (appliedWalRecord : Option Nat) : Io IngestReport :=
  match snap.activeGeneration with
  | some id => do
    let g ← onStore (Catalog.getGeneration id)
    let embed ← Prog.ofExcept (engine.plane.embedder g.modelId g.modelVersion)
    let (embedded, failed) := embedAll embed admitted
    engine.writeAndCommit snap g embedded (dead ++ failed) false nowMs appliedWalRecord
  | none => do
    let embed ← Prog.ofExcept engine.plane.defaultEmbedder
    let (embedded, failed) := embedAll embed admitted
    if embedded.isEmpty then finishEmpty snap (dead ++ failed)
    else do
      let g ← Prog.ofExcept (engine.plane.train snap.snapshotId embedded)
      onStore (Catalog.putGeneration g)
      engine.writeAndCommit snap g embedded (dead ++ failed) true nowMs appliedWalRecord

def ingestInner (events : List Event) (nowMs : Int) (appliedWalRecord : Option Nat)
    (preflightModel : Bool) : Io IngestReport := do
  let snap ← snapshot
  let (admitted, dead) ← orHalt (admitValid events)
  if preflightModel then do
    let (allowed, denied) ← engine.modelPreflightForSnapshot snap admitted
    if allowed.isEmpty then finishEmpty snap (dead ++ denied)
    else engine.publishBatch snap allowed (dead ++ denied) nowMs appliedWalRecord
  else engine.publishBatch snap admitted dead nowMs appliedWalRecord

/-- The direct write path, which inherits the parent's marker. -/
def ingest (events : List Event) (nowMs : Int) : Io IngestReport :=
  engine.ingestInner events nowMs none true

/-- Publish a record of the admission log; the commit carries its id as the marker. -/
def ingestWal (events : List Event) (nowMs : Int) (recordId : Nat) :
    Io IngestReport :=
  engine.ingestInner events nowMs (some recordId) false

end Engine

end Prism
