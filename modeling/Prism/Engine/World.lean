import Prism.Engine.Admission
import Prism.Engine.Wal
import Prism.Part.Catalog

/-!
One writer's durable state beside the object store it shares with others, and the accesses of the
engine that go to the object store (`prism-engine/src/engine.rs` and `storage/`).
-/

namespace Prism

open CrashLogic

/-! ### The engine -/

structure StoreConfig where
  dim : Nat
  pqM : Nat
  blockSize : Nat
  partitions : PartitionScheme
  promote : List String

abbrev Vector32 := List UInt32

/-- An embedder is called with the tenant and the body of an event, or of every event of a batch. -/
structure Embedder where
  modelId : String
  modelVersion : String
  embedBatchScoped : List (String × String) → List (Result Vector32)
  embedScoped : String × String → Result Vector32

/-- The models behind an engine: embedding, its authorisation, training and quantisation. `train`
makes the first generation of a store, `retrain` one for rows that are there already. -/
structure ModelPlane where
  embedder (modelId modelVersion : String) : Result Embedder
  candidateEmbedder (modelId modelVersion : String) : Result Embedder
  defaultEmbedder : Result Embedder
  preflight (modelId modelVersion : String) (inputs : List (String × String)) :
    List (Result Unit)
  train (snapshotId : SnapshotId) (rows : List (Event × Vector32)) : Result Generation
  retrain (model : Embedder) (snapshotId : SnapshotId) (rows : List (Event × Vector32)) :
    Result Generation
  assign : Generation → Vector32 → Nat
  encode : Generation → Vector32 → Result Bytes

/-- The draws of the operating system's generator: data keys by bucket, nonces by block. -/
structure Draws where
  dek : Nat → Bytes
  nonces : String → String → Nat → Bytes

structure Engine where
  config : StoreConfig
  plane : ModelPlane
  keys : Option KeyProvider
  tenantTokenizer : Result (Option TenantTokenizer)
  draws : Draws
  ownerEpoch : Nat

def dekLabel (dekEpoch : Nat) : String := s!"dek-epoch-{dekEpoch}"

namespace Engine

/-- A fresh data key for a new part, or none on a store without a key service. -/
def partEncryptionFor (engine : Engine) (bucketOrdinal dekEpoch : Nat) :
    Result (Option PartEncryption) :=
  match engine.keys with
  | none => .ok none
  | some keys => do
    let dek := engine.draws.dek bucketOrdinal
    let (wrappingKeyId, wrappedDek) ← keys.wrap dek
    return some
      { cipher := ⟨keys.aead, dek, dekLabel dekEpoch, engine.draws.nonces⟩
        envelope := ⟨aeadXchacha20Poly1305, wrappingKeyId, dekEpoch, wrappedDek, bucketOrdinal⟩ }

def shapeOf (engine : Engine) (g : Generation) : PartShape :=
  ⟨g.generationId, g.modelId, g.modelVersion, engine.config.dim, engine.config.pqM,
    engine.config.blockSize⟩

end Engine

/-! ### The world -/

structure Objects where
  mirror : BTreeMap SnapshotId Snapshot
  cold : BTreeMap String Bytes
  remoteWal : RemoteLog
  owners : BTreeMap Nat String
  deriving DecidableEq

/-- The files of one root, the quota counters of its process and the object store. `suppressed` is
history: the events that were answered as replays. -/
structure World where
  store : Store
  deadLetters : List DeadLetter
  wal : WalState
  idempotency : IdempotencyIndex
  dictionary : KeyDictionary
  offsets : BTreeMap String Nat
  quotas : QuotaEnforcer
  objects : Objects
  suppressed : List Event
  deriving DecidableEq

def World.fresh : World :=
  ⟨Store.fresh, [], WalState.fresh, ∅, ∅, ∅, QuotaEnforcer.fresh, ⟨∅, ∅, ∅, ∅⟩, []⟩

abbrev Io := Prog World PrismError

def onStore {α : Type} : StoreProg α → Io α := Prog.zoom World.store fun store w => { w with store }

def onWal {α : Type} : WalProg α → Io α := Prog.zoom World.wal fun wal w => { w with wal }

theorem World.storeLens : Prog.Lens World.store fun store w => { w with store } :=
  ⟨fun _ _ => rfl, fun _ => rfl, fun _ _ _ => rfl⟩

theorem World.walLens : Prog.Lens World.wal fun wal w => { w with wal } :=
  ⟨fun _ _ => rfl, fun _ => rfl, fun _ _ _ => rfl⟩

theorem run_onWal {α : Type} (p : WalProg α) (faults : List Fault) (w : World) : onWal p faults w =
      ((p faults w.wal).1, (p faults w.wal).2.1, { w with wal := (p faults w.wal).2.2 }) :=
  Prog.run_zoom World.walLens p faults w

namespace Engine

/-- Append letters to the dead-letter log; an interrupted append leaves some of the first. -/
def writeDeadLetters (dead : List DeadLetter) : Io Unit :=
  if dead.isEmpty then pure ()
  else Prog.act deviceError
    (fun written w => { w with deadLetters := w.deadLetters ++ dead.take written })
    (fun w => { w with deadLetters := w.deadLetters ++ dead })

def snapshot : Io Snapshot := onStore Catalog.current

/-! ### The object store -/

def highestEpoch (owners : BTreeMap Nat String) : Nat := owners.keys.foldl max 0

/-- A writer that has never acquired ownership is not fenced. -/
def assertWriteOwner (engine : Engine) : Io Unit :=
  if engine.ownerEpoch = 0 then pure ()
  else Prog.read deviceError fun w =>
    let highest := highestEpoch w.objects.owners
    if highest > engine.ownerEpoch then
      .error (.invariant <| s!"write fenced: this writer holds ownership epoch " ++
        s!"{engine.ownerEpoch}, but epoch {highest} has since acquired the shard " ++
        "([D-076](docs/DECISIONS.md)). Refusing to publish behind the current owner — no torn " ++
        "catalog, no duplicate parts. Re-acquire ownership to write.")
    else .ok ()

def acquire (writerId : String) : Io Nat := do
  let next ← Prog.read deviceError fun w => .ok (highestEpoch w.objects.owners + 1)
  Prog.replace deviceError fun w =>
    { w with objects := { w.objects with owners := w.objects.owners.insert next writerId } }
  return next

def putMirror (snap : Snapshot) (w : World) : World :=
  if w.objects.mirror.contains snap.snapshotId then w
  else { w with objects := { w.objects with mirror := w.objects.mirror.insert snap.snapshotId snap } }

/-- Create the snapshot in the mirror; another one under its name is a split brain. -/
def mirrorSnapshot (snap : Snapshot) : Io Unit :=
  if snap.snapshotId = Snapshot.empty.snapshotId then pure ()
  else do
    Prog.replace deviceError (putMirror snap)
    Prog.read deviceError fun w =>
      if w.objects.mirror[snap.snapshotId]? = some snap then .ok ()
      else .error (.invariant <| "split-brain detected: the catalog mirror already holds a " ++
        s!"DIFFERENT snapshot at `catalog/SNAPSHOT-{snapshotName snap.snapshotId}` — another " ++
        "writer has published concurrently, violating the single-writer contract (D-069). " ++
        "Halting rather than tolerating divergence.")

def coldKey (partId : String) : String := s!"parts/{partId}/rerank.vec"

/-- Upload the rerank column of a part unless an object of its size is there, and verify that it
landed. A sealed part is always uploaded. -/
def publishPartCold (partId : String) : Io Unit := do
  let found ← Prog.read deviceError fun w => .ok (w.store.parts[partId]?)
  match found.bind fun part => (part.files.lookup "rerank.vec").map fun bytes => (part, bytes) with
  | none => return ()
  | some (part, bytes) =>
    let key := coldKey partId
    let head ← Prog.read deviceError fun w => .ok ((w.objects.cold[key]?).map List.length)
    if part.manifest.encrypted ∨ head ≠ some bytes.length then
      Prog.replace deviceError fun w =>
        { w with objects := { w.objects with cold := w.objects.cold.insert key bytes } }
    Prog.read deviceError fun w =>
      match (w.objects.cold[key]?).map List.length with
      | some length =>
        if length = bytes.length then .ok ()
        else .error (.invariant <| s!"cold-tier publish of part `{partId}` did not verify: the " ++
          s!"backend holds {length} bytes at `{key}`, but the part's cold tier is " ++
          s!"{bytes.length} bytes")
      | none => .error (.invariant <| s!"cold-tier publish of part `{partId}` did not verify: " ++
          s!"the backend has no object at `{key}` after the upload")

end Engine

end Prism
