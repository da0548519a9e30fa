import Prism.Lib.CrashLogic
import Prism.Part.Writer
import Prism.Types.Float32

/-!
The catalog: immutable snapshots, the atomic commit of a new one, and garbage collection
(`prism-part/src/catalog.rs`, `baseline.rs`, the publication step of `part.rs` and `io.rs`).

A snapshot id is the number `n` of the file `s{n:08}.json`.
-/

namespace Prism

open CrashLogic

def leaseTtlMs : Int := 3600000
def gcGraceMs : Int := leaseTtlMs
def gcHorizonMs : Int := leaseTtlMs + gcGraceMs

/-! ### Snapshots -/

inductive PartEntry where
  | located (ref : PartRef)
  | legacy (partId : String)
  deriving DecidableEq

namespace PartEntry

def partId : PartEntry → String
  | .located r => r.partId
  | .legacy id => id

def located? : PartEntry → Option PartRef
  | .located r => some r
  | .legacy _ => none

def validate : PartEntry → Result Unit
  | .located r => r.validate
  | .legacy _ => .ok ()

end PartEntry

inductive GenerationState where
  | candidate
  | canary
  | active
  | deprecated
  deriving DecidableEq, Repr

inductive BridgePolicy where
  | rankFusion
  deriving DecidableEq, Repr

structure Bridge where
  fromSpace : String
  toSpace : String
  policy : BridgePolicy
  validation : String
  declaredAtMs : Int
  deriving DecidableEq, Repr

inductive BaselineState where
  | ready
  | degraded (reason : String)
  deriving DecidableEq, Repr

structure BaselineRef where
  baselineId : String
  tenant : String
  generationId : String
  state : BaselineState
  deriving DecidableEq, Repr

abbrev SnapshotId := Nat

structure Snapshot where
  snapshotId : SnapshotId
  parent : Option SnapshotId
  parts : List PartEntry
  nextSeq : Nat
  activeGeneration : Option String
  generations : BTreeMap String GenerationState
  bridges : List Bridge
  baselines : List BaselineRef
  tombstones : List String
  appliedWalRecord : Option Nat
  createdAtMs : Int
  deriving DecidableEq

namespace Snapshot

/-- The source searches the sorted vector; it finds exactly the members. -/
def isTombstoned (s : Snapshot) (eventId : String) : Bool := s.tombstones.contains eventId

def partIds (s : Snapshot) : List String := s.parts.map PartEntry.partId

def empty : Snapshot :=
  ⟨0, none, [], 1, none, ∅, [], [], [], none, 0⟩

end Snapshot

/-- The snapshot fields a commit carries beside the parts and the active generation. -/
structure SnapshotMeta where
  generations : BTreeMap String GenerationState
  bridges : List Bridge
  baselines : List BaselineRef
  tombstones : List String
  appliedWalRecord : Option Nat
  deriving DecidableEq

def SnapshotMeta.of (s : Snapshot) : SnapshotMeta :=
  ⟨s.generations, s.bridges, s.baselines, s.tombstones, s.appliedWalRecord⟩

/-! ### The store on disk -/

/-- A semantic generation. `codebooks` stands for the serialised coarse and product codebooks. -/
structure Generation where
  generationId : String
  modelId : String
  modelVersion : String
  codebooks : Bytes
  deriving DecidableEq, Repr

def Generation.space (g : Generation) : String := s!"{g.modelId}:{g.modelVersion}"

/-- What is normal for a tenant in one embedding space: the centres of its rows and the novelty
above which an event is unusual. -/
structure Baseline where
  baselineId : String
  tenant : String
  generationId : String
  dim : Nat
  centroids : List UInt32
  nlist : Nat
  threshold : F32
  calibration : String
  rows : Nat
  builtFromSnapshot : SnapshotId
  builtAtMs : Int
  deriving DecidableEq, Repr

/-- The files of a store. `clashed` is history: a part was written under the name of a directory
that holds other rows. -/
structure Store where
  current : Option SnapshotId
  snapshots : BTreeMap SnapshotId Snapshot
  generations : BTreeMap String Generation
  parts : BTreeMap String Part
  baselines : BTreeMap String Baseline
  clashed : Bool
  deriving DecidableEq

def Store.fresh : Store := ⟨none, ∅, ∅, ∅, ∅, false⟩

abbrev StoreProg := Prog Store PrismError

def snapshotName (id : SnapshotId) : String := s!"s{zeroPadded 8 id}"

namespace Catalog

variable (store : Store) (id : SnapshotId)

def loadSnapshotIn : Result Snapshot :=
  match store.snapshots[id]? with
  | none =>
    .error (.corrupt s!"CURRENT names snapshot `{snapshotName id}`, which does not exist")
  | some snap =>
    if snap.snapshotId ≠ id then
      .error (.corrupt <| s!"snapshot file `{snapshotName id}` declares id " ++
        s!"`{snapshotName snap.snapshotId}`")
    else .ok snap

def currentIn : Result Snapshot :=
  match store.current with
  | none => .ok Snapshot.empty
  | some id => loadSnapshotIn store id

def current : StoreProg Snapshot := Prog.read deviceError currentIn

def loadSnapshot : StoreProg Snapshot :=
  Prog.read deviceError fun store => loadSnapshotIn store id

def openPartIn (id : String) : Result Part :=
  match store.parts[id]? with
  | none => .error (.corrupt s!"parts/{id} holds no part manifest (manifest.bin or manifest.json)")
  | some part => part.manifest.validateStructure.map fun _ => part

/-- `PartReader::open`. -/
def openPart (id : String) : StoreProg Part :=
  Prog.read deviceError fun store => openPartIn store id

def checkEntry (entry : PartEntry) : StoreProg Unit := do
  Prog.ofExcept entry.validate
  Prog.read deviceError fun store =>
    match openPartIn store entry.partId with
    | .ok _ => .ok ()
    | .error e => .error (.invariant <| s!"refusing to commit a snapshot naming part " ++
        s!"`{entry.partId}`, which is not readable: {e.display}")

def nextSnapshot (parent : Snapshot) (parts : List PartEntry) (nextSeq : Nat)
    (activeGeneration : Option String) (carried : SnapshotMeta) (nowMs : Int) : Snapshot :=
  { snapshotId := parent.snapshotId + 1
    parent := some parent.snapshotId
    parts := parts
    nextSeq := nextSeq
    activeGeneration := activeGeneration
    generations := carried.generations
    bridges := carried.bridges
    baselines := carried.baselines
    tombstones := carried.tombstones
    appliedWalRecord := carried.appliedWalRecord
    createdAtMs := nowMs }

def putSnapshot (snap : Snapshot) (store : Store) : Store :=
  { store with snapshots := store.snapshots.insert snap.snapshotId snap }

def putCurrent (store : Store) : Store := { store with current := some id }

/-- Write the snapshot file, then swap `CURRENT` to it. -/
def commitMeta (parent : Snapshot) (parts : List PartEntry) (nextSeq : Nat)
    (activeGeneration : Option String) (carried : SnapshotMeta) (nowMs : Int) :
    StoreProg Snapshot := do
  let _ ← Prog.each checkEntry parts
  let snap := nextSnapshot parent parts nextSeq activeGeneration carried nowMs
  Prog.replace deviceError (putSnapshot snap)
  Prog.replace deviceError (putCurrent snap.snapshotId)
  return snap

def commit (parent : Snapshot) (parts : List PartEntry) (nextSeq : Nat)
    (activeGeneration : Option String) (nowMs : Int) : StoreProg Snapshot :=
  commitMeta parent parts nextSeq activeGeneration (SnapshotMeta.of parent) nowMs

/-- An existing directory of the part's name is kept as it is. -/
def putPart (part : Part) (store : Store) : Store :=
  match store.parts[part.manifest.partId]? with
  | some found => { store with clashed := store.clashed || found.rows ≠ part.rows }
  | none => { store with parts := store.parts.insert part.manifest.partId part }

def writePart (shape : PartShape) (spec : PartSpec) (seq : Nat) (rows : List RowIn) (nowMs : Int) :
    StoreProg PartManifest := do
  let part ← Prog.ofExcept (buildPart shape spec seq rows nowMs)
  Prog.replace deviceError (putPart part)
  return part.manifest

/-- A generation already on disk is left alone. -/
def putGenerationIn (g : Generation) (store : Store) : Store :=
  if store.generations.contains g.generationId then store
  else { store with generations := store.generations.insert g.generationId g }

def putGeneration (g : Generation) : StoreProg Unit :=
  Prog.replace deviceError (putGenerationIn g)

def getGeneration (id : String) : StoreProg Generation :=
  Prog.read deviceError fun store =>
    match store.generations[id]? with
    | some g => .ok g
    | none => .error (.notFound s!"generation `{id}`")

def putBaselineIn (b : Baseline) (store : Store) : Store :=
  if store.baselines.contains b.baselineId then store
  else { store with baselines := store.baselines.insert b.baselineId b }

def putBaseline (b : Baseline) : StoreProg Unit :=
  Prog.replace deviceError (putBaselineIn b)

/-- `contentAddress` is the id a baseline's body hashes to. -/
def getBaseline (contentAddress : Baseline → String) (id : String) : StoreProg Baseline :=
  Prog.read deviceError fun store =>
    match store.baselines[id]? with
    | none => .error (.notFound s!"baseline `{id}`")
    | some b =>
      if contentAddress b ≠ b.baselineId then
        .error (.corrupt <| s!"baseline {b.baselineId} does not hash to its own id (got " ++
          s!"{contentAddress b}); every novelty score ever measured against it is now suspect")
      else .ok b

/-! ### Garbage collection -/

/-- The snapshot ids on disk, in the order of their file names. -/
def listSnapshots : List SnapshotId :=
  store.snapshots.keys.insertionSort fun a b => (compare (snapshotName a) (snapshotName b)).isLE

structure Retained where
  snapshots : List SnapshotId
  parts : List String

def withinHorizon (nowMs : Int) (id : SnapshotId) : Bool :=
  match loadSnapshotIn store id with
  | .ok s => s.createdAtMs > saturatingSub nowMs gcHorizonMs
  | .error _ => false

/-- The snapshots that are live at `nowMs` and the parts they name. -/
def retainedIn (retainSnapshots : Nat) (nowMs : Int) :
    Result Retained := do
  let current ← currentIn store
  let all := listSnapshots store
  let newest := all.reverse.take (max retainSnapshots 1)
  let pinned := newest ++ [current.snapshotId]
  let kept := pinned ++ all.filter fun id => !pinned.contains id && withinHorizon store nowMs id
  let parts := kept.flatMap fun id =>
    match loadSnapshotIn store id with
    | .ok s => s.partIds
    | .error _ => []
  return ⟨kept, parts⟩

structure GcReport where
  retainedSnapshots : List SnapshotId
  removedParts : List String
  removedSnapshots : List SnapshotId
  deriving DecidableEq, Repr

def removePart (id : String) (store : Store) : Store := { store with parts := store.parts.erase id }

def removeSnapshot (store : Store) : Store :=
  { store with snapshots := store.snapshots.erase id }

/-- `gc_at(retain, now, dry_run)`: unlink what no live snapshot names. -/
def gcAt (retainSnapshots : Nat) (nowMs : Int) (dryRun : Bool) : StoreProg GcReport := do
  let (retained, parts, snapshots) ← Prog.read deviceError fun store => do
    let retained ← retainedIn store retainSnapshots nowMs
    return (retained, store.parts.keys, listSnapshots store)
  let removedParts := parts.filter (!retained.parts.contains ·)
  let removedSnapshots := snapshots.filter (!retained.snapshots.contains ·)
  if dryRun then
    return ⟨retained.snapshots, removedParts, removedSnapshots⟩
  else
    let _ ← Prog.each (fun id => Prog.replace deviceError (removePart id)) removedParts
    let _ ← Prog.each (fun id => Prog.replace deviceError (removeSnapshot id)) removedSnapshots
    return ⟨retained.snapshots, removedParts, removedSnapshots⟩

end Catalog

end Prism
