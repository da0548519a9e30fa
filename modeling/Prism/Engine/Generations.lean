import Prism.Engine.Merge

/-!
The generation lifecycle: every transition is one catalog commit
(`prism-engine/src/generations.rs`).
-/

namespace Prism

open CrashLogic

def GenerationState.debug : GenerationState → String
  | .candidate => "Candidate"
  | .canary => "Canary"
  | .active => "Active"
  | .deprecated => "Deprecated"

variable (s : Snapshot)

def Snapshot.stateOf (generation : String) : Option GenerationState :=
  s.generations[generation]?

def Snapshot.generationsInUse : List String :=
  (s.parts.filterMap PartEntry.located?).map (·.partition.generation)

def Bridge.joins (b : Bridge) (x y : String) : Bool :=
  (b.fromSpace = x ∧ b.toSpace = y) ∨ (b.fromSpace = y ∧ b.toSpace = x)

def Snapshot.bridge (x y : String) : Option Bridge := s.bridges.find? (·.joins x y)

structure MigrateReport where
  fromGeneration : String
  toGeneration : String
  partsMigrated : Nat
  rowsMigrated : Nat
  partsRemaining : Nat
  partsUnmigratable : Nat
  rowsUnmigratable : Nat
  snapshotId : SnapshotId
  deriving DecidableEq, Repr

namespace Engine

/-! ### Creating a generation -/

variable (engine : Engine)

/-- The model a new generation is trained with: that of the active one, a new version of it, or the
default of the plane on an empty store. -/
def creationEmbedder (active : Option Generation) (modelVersion : Option String) :
    Result Embedder :=
  match modelVersion.or (active.map (·.modelVersion)) with
  | none => .error (.invalid
      "the store has no active generation to retrain from; name a model version")
  | some version =>
    match active with
    | some g =>
      if g.modelVersion = version then engine.plane.embedder g.modelId g.modelVersion
      else engine.plane.candidateEmbedder g.modelId version
    | none => do
      let embed ← engine.plane.defaultEmbedder
      if embed.modelVersion ≠ version then
        .error (.invalid <| s!"requested model version `{version}` is not the model plane default " ++
          s!"`{embed.modelVersion}` for an empty store")
      else .ok embed

def trainingRows (r : PartReader) : Io (List RowIn) := do
  let lineage ← Prog.ofExcept r.manifest.s5
  if lineage.bodiesRedacted then return [] else readRows r

def embedForTraining (embed : Embedder) (e : Event) : Result (Event × Vector32) :=
  match embed.embedScoped (e.tenantId, e.body) with
  | .ok v => .ok (e, v)
  | .error err => .error (.invalid <| s!"generation training refused event `{e.eventId}` for " ++
      s!"tenant `{e.tenantId}`: {err.display}; no partial training corpus is permitted")

variable (snap : Snapshot)

/-- The lifecycle map with a new candidate; whatever was active stays active. -/
def candidateMeta (g : Generation) : SnapshotMeta :=
  let generations := snap.generations.insertIfNew g.generationId .candidate
  { SnapshotMeta.of snap with
    generations := match snap.activeGeneration with
      | some a => generations.insertIfNew a .active
      | none => generations }

def generationCreate (modelVersion : Option String) (nowMs : Int) :
    Io Generation := do
  let snap ← snapshot
  let active ← match snap.activeGeneration with
    | some id => some <$> onStore (Catalog.getGeneration id)
    | none => pure none
  let embed ← Prog.ofExcept (engine.creationEmbedder active modelVersion)
  let readers ← engine.openParts snap
  let parts ← Prog.each trainingRows readers
  let events := parts.flatten.map (·.event)
  if events.isEmpty then
    Prog.throw (.invalid <| "cannot create a generation: the store has no rows with readable " ++
      "bodies to train on. Re-embedding requires the raw text, and retention may have expired it.")
  else
    let embedded ← Prog.ofExcept (events.mapM (embedForTraining embed))
    let g ← Prog.ofExcept (engine.plane.retrain embed snap.snapshotId embedded)
    if snap.activeGeneration = some g.generationId then
      Prog.throw (.invalid <| "training produced a generation byte-identical to the active one: " ++
        "same codebooks, same id, nothing to migrate. A generation is its codebooks, so this is " ++
        "not a new generation, it is the one you already have.")
    else
      onStore (Catalog.putGeneration g)
      let _ ← onStore (Catalog.commitMeta snap snap.parts snap.nextSeq snap.activeGeneration
        (candidateMeta snap g) nowMs)
      return g

/-! ### Re-embedding part by part -/

inductive Disposition where
  | keep (entry : PartEntry)
  | unmigratable (entry : PartEntry) (rows : Nat)
  | migrate (key : PartitionKey) (partId : String)

/-- Entries of the old catalog and parts of `g` stay, and so do parts without bodies. -/
def dispose (g : Generation) (entry : PartEntry) : Io Disposition :=
  match entry with
  | .legacy _ => pure (.keep entry)
  | .located r =>
    if r.partition.generation = g.generationId then pure (.keep entry)
    else do
      let part ← onStore (Catalog.openPart r.partId)
      let lineage ← Prog.ofExcept part.manifest.s5
      return if lineage.bodiesRedacted then .unmigratable entry r.rows
        else .migrate r.partition r.partId

/-- The rows that embed under the new model; the others are passed over. -/
def migratedRows (engine : Engine) (g : Generation) (embed : Embedder) :
    List RowIn → Result (List RowIn)
  | [] => .ok []
  | r :: rest =>
    match embed.embedScoped (r.event.tenantId, r.event.body) with
    | .error _ => engine.migratedRows g embed rest
    | .ok v => do
      let code ← engine.plane.encode g v
      let rows ← engine.migratedRows g embed rest
      return ⟨r.event, engine.plane.assign g v, code, v⟩ :: rows

def entriesOf (partIds : List String) : List PartEntry :=
  partIds.filterMap fun id => snap.parts.find? (·.partId = id)

structure Migrated where
  keep : List PartEntry
  nextSeq : Nat
  parts : Nat
  rows : Nat

def migrateRowsOf (g : Generation) (embed : Embedder) (partId : String) :
    Io (List RowIn) := do
  let (_, rows) ← openAndRead partId
  Prog.ofExcept (engine.migratedRows g embed rows)

/-- Re-embed the parts of one partition into one part of `g`; if no row of theirs embeds they are
kept. -/
def migratePartition (g : Generation) (embed : Embedder) (nowMs : Int) (s : Migrated)
    (key : PartitionKey) (partIds : List String) : Io Migrated := do
  let parts ← Prog.each (engine.migrateRowsOf g embed) partIds
  let rows := parts.flatten
  if rows.isEmpty then return { s with keep := s.keep ++ entriesOf snap partIds }
  else
    let newKey : PartitionKey := ⟨key.bucket, key.window, g.generationId⟩
    let (ref, _) ← engine.rewritePartition g { reembeddedFrom := some key.generation } nowMs
      (s.nextSeq, newKey, rows)
    return ⟨s.keep ++ [.located ref], s.nextSeq + 1, s.parts + 1, s.rows + rows.length⟩

/-- The first partitions up to the limit are migrated, the others kept as they are. -/
def migratePartitions (engine : Engine) (snap : Snapshot) (g : Generation) (embed : Embedder)
    (nowMs : Int) : Option Nat → Migrated → List (PartitionKey × List String) → Io Migrated
  | _, s, [] => pure s
  | some 0, s, (_, partIds) :: rest =>
    engine.migratePartitions snap g embed nowMs (some 0)
      { s with keep := s.keep ++ entriesOf snap partIds } rest
  | limit, s, (key, partIds) :: rest => do
    let s ← engine.migratePartition snap g embed nowMs s key partIds
    engine.migratePartitions snap g embed nowMs (limit.map (· - 1)) s rest

def migrationMeta (g : Generation) (state : GenerationState) : SnapshotMeta :=
  let generations := snap.generations.insert g.generationId state
  { SnapshotMeta.of snap with
    generations := match snap.activeGeneration with
      | some a =>
        if a = g.generationId then generations
        else generations.insert a <| match generations[a]? with
          | some s => if s = .active ∧ state = .active then .deprecated else s
          | none => .deprecated
      | none => generations }

def reembedParts (g : Generation) (maxPartitions : Option Nat) (state : GenerationState)
    (nowMs : Int) : Io MigrateReport := do
  let embed ← Prog.ofExcept (engine.plane.embedder g.modelId g.modelVersion)
  let disposed ← Prog.each (dispose g) snap.parts
  let keep := disposed.filterMap fun
    | .keep e => some e
    | .unmigratable e _ => some e
    | .migrate _ _ => none
  let unmigratable := disposed.filterMap fun
    | .unmigratable _ rows => some rows
    | _ => none
  let pending := disposed.filterMap fun
    | .migrate key id => some (key, id)
    | _ => none
  let todo := (OrderedMap.groupBy Prod.fst pending).toList.map fun (key, ids) =>
    (key, ids.map Prod.snd)
  let done ← engine.migratePartitions snap g embed nowMs maxPartitions ⟨keep, snap.nextSeq, 0, 0⟩ todo
  let active := if state = .active then some g.generationId else snap.activeGeneration
  let committed ← onStore (Catalog.commitMeta snap done.keep done.nextSeq active
    (migrationMeta snap g state) nowMs)
  return ⟨snap.activeGeneration.getD "(none)", g.generationId, done.parts, done.rows,
    todo.length - (maxPartitions.elim todo.length (min todo.length)), unmigratable.length,
    unmigratable.sum, committed.snapshotId⟩

def generationCanary (genId : String) (maxPartitions : Nat) (nowMs : Int) :
    Io MigrateReport := do
  let g ← onStore (Catalog.getGeneration genId)
  let snap ← snapshot
  match snap.stateOf genId with
  | some .candidate => engine.reembedParts snap g (some maxPartitions) .canary nowMs
  | some .canary => engine.reembedParts snap g (some maxPartitions) .canary nowMs
  | some s => Prog.throw (.invalid
      s!"generation {genId} is {s.debug}; only a candidate can be canaried")
  | none => Prog.throw (.notFound s!"generation `{genId}` is not registered in this snapshot")

def generationMigrate (genId : String) (maxPartitions : Option Nat) (nowMs : Int) :
    Io MigrateReport := do
  let g ← onStore (Catalog.getGeneration genId)
  let snap ← snapshot
  engine.reembedParts snap g maxPartitions .active nowMs

/-! ### Promotion and retirement -/

/-- Every part still in the old space becomes unmergeable with the new one, so promotion across a
space boundary needs a bridge. -/
def checkPromotion (genId : String) (old g : Generation) : Result Unit :=
  if old.space ≠ g.space ∧ snap.parts ≠ [] ∧ snap.bridge old.space g.space = none then
    .error (.invalid <| s!"promoting {genId} would make `{g.space}` the active space while parts " ++
      s!"remain in `{old.space}`. Scores from different embedding spaces are not comparable " ++
      "(invariant 9), so until those parts are migrated a query spanning both will be REFUSED " ++
      "unless a bridge is declared. This is allowed, and it is a decision: migrate first, or " ++
      "declare a bridge with `prism bridge declare`, then promote.")
  else .ok ()

def promotionMeta (genId : String) : SnapshotMeta :=
  { SnapshotMeta.of snap with
    generations := (match snap.activeGeneration with
      | some a => if a = genId then snap.generations else snap.generations.insert a .deprecated
      | none => snap.generations).insert genId .active }

def generationPromote (genId : String) (nowMs : Int) : Io SnapshotId := do
  let g ← onStore (Catalog.getGeneration genId)
  let snap ← snapshot
  if snap.stateOf genId = none then
    Prog.throw (.notFound s!"generation `{genId}` is not registered in this snapshot")
  else
    match snap.activeGeneration with
    | some active => do
      let old ← onStore (Catalog.getGeneration active)
      Prog.ofExcept (checkPromotion snap genId old g)
    | none => pure ()
    let committed ← onStore (Catalog.commitMeta snap snap.parts snap.nextSeq (some genId)
      (promotionMeta snap genId) nowMs)
    return committed.snapshotId

def checkRetirement (genId : String) (id : SnapshotId) : Io Unit := do
  let s ← onStore (Catalog.loadSnapshot id)
  if s.generationsInUse.contains genId then
    Prog.throw (.invalid <| s!"refusing to retire generation {genId}: snapshot " ++
      s!"{snapshotName id} still has parts encoded under it. Retiring it would make that snapshot " ++
      "unreadable, and a rollback target that cannot be read is not a rollback target. GC the " ++
      "snapshot first, deliberately.")
  else pure ()

def removeGeneration (genId : String) (store : Store) : Store :=
  { store with generations := store.generations.erase genId }

/-- Drop a generation that no snapshot on disk uses; whether its file could be removed is not
asked. -/
def generationRetire (genId : String) (nowMs : Int) : Io SnapshotId := do
  let snap ← snapshot
  if snap.activeGeneration = some genId then
    Prog.throw (.invalid <| s!"generation {genId} is ACTIVE; retiring it would leave new writes " ++
      "with nothing to encode under")
  else
    let ids ← onStore (Prog.read deviceError fun store => .ok (Catalog.listSnapshots store))
    let _ ← Prog.each (checkRetirement genId) ids
    let committed ← onStore (Catalog.commitMeta snap snap.parts snap.nextSeq snap.activeGeneration
      { SnapshotMeta.of snap with generations := snap.generations.erase genId } nowMs)
    let _ ← (onStore (Prog.replace deviceError (removeGeneration genId))).attempt
    return committed.snapshotId

/-- Declare that the answers of two spaces may be fused; a bridge between them is replaced. -/
def bridgeDeclare (fromSpace toSpace validation : String) (nowMs : Int) : Io SnapshotId :=
  if validation.toList.all Event.isWhiteSpace then
    Prog.throw (.invalid <| "a bridge needs a validation note. An unvalidated bridge is a guess " ++
      "with a schema, and it will be believed by everyone who reads a bridged answer.")
  else do
    let snap ← snapshot
    let bridges := snap.bridges.filter (!·.joins fromSpace toSpace) ++
      [⟨fromSpace, toSpace, .rankFusion, validation, nowMs⟩]
    let committed ← onStore (Catalog.commitMeta snap snap.parts snap.nextSeq snap.activeGeneration
      { SnapshotMeta.of snap with bridges } nowMs)
    return committed.snapshotId

/-! ### Retention -/

/-- One entry of a redaction: a part that ends before `beforeMs` and still has its bodies is
rewritten without them under the number `seq`. -/
def redactEntry (beforeMs : Int) (reason : String) (nowMs : Int) (seq : Nat) (entry : PartEntry) :
    Io (Option PartRef) :=
  match entry with
  | .legacy _ => pure none
  | .located r => do
    let reader ← openPlain r.partId
    let lineage ← Prog.ofExcept reader.manifest.s5
    if r.timeMax ≥ beforeMs ∨ lineage.bodiesRedacted then return none
    else
      let rows ← readRows reader
      let g ← onStore (Catalog.getGeneration r.partition.generation)
      let (ref, _) ← engine.rewritePartition g ⟨none, true, nowMs, reason⟩ nowMs
        (seq, r.partition, rows.map fun row => { row with event := { row.event with body := "" } })
      return some ref

def redactEntries (engine : Engine) (beforeMs : Int) (reason : String) (nowMs : Int) :
    Nat → List PartEntry → Io (List (PartEntry × Bool))
  | _, [] => pure []
  | seq, entry :: rest => do
    let written ← engine.redactEntry beforeMs reason nowMs seq entry
    let entries ← engine.redactEntries beforeMs reason nowMs
      (if written.isSome then seq + 1 else seq) rest
    return (written.elim entry .located, written.isSome) :: entries

/-- Expire the raw bodies of every part whose rows end before `beforeMs`; the number of parts that
were rewritten. -/
def redactBodies (beforeMs : Int) (reason : String) (nowMs : Int) : Io Nat :=
  if reason.toList.all Event.isWhiteSpace then
    Prog.throw (.invalid <| "redaction needs a recorded reason; an irreversible deletion with no " ++
      "cause is not a retention policy, it is data loss")
  else do
    let snap ← snapshot
    let entries ← engine.redactEntries beforeMs reason nowMs snap.nextSeq snap.parts
    let redacted := entries.countP (·.2)
    let _ ← onStore (Catalog.commitMeta snap (entries.map Prod.fst) (snap.nextSeq + redacted)
      snap.activeGeneration (SnapshotMeta.of snap) nowMs)
    return redacted

end Engine

end Prism
