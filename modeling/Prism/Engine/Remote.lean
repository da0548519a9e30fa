import Prism.Engine.World
import Prism.Part.Files

/-!
The cold tier on an object store that reports modification times: publication of parts
(`publish_part_cold`, then a commit) and the sweep of what no live snapshot names
(`reconcile_remote_orphans` of `prism-engine/src/storage/cold.rs`).

An object `parts/<id>/rerank.vec` stands under the id of its part, `catalog/SNAPSHOT-<id>` under the
number of its snapshot.
-/

namespace Prism

open CrashLogic

structure ColdObject where
  bytes : Bytes
  lastModifiedMs : Int
  deriving DecidableEq

/-- How far a reconciliation is: it reads the live set, then it has listed the objects. -/
inductive Reconciling where
  | idle
  | reading
  | listed
  | over
  deriving DecidableEq

/-- The files of a store and its objects. The rest is history: the parts of the release under way,
those of all releases that have been under way since the reconciliation began, how far that is, the
parts whose objects were past the horizon when it listed them, and the parts whose objects it
deleted. -/
structure Remote where
  store : Store
  cold : BTreeMap String ColdObject
  mirror : BTreeMap SnapshotId Int
  pending : List String
  announced : List String
  phase : Reconciling
  aged : List String
  removed : List String

abbrev RemoteProg := Prog Remote PrismError

namespace Remote

def setStore (store : Store) (s : Remote) : Remote := { s with store }

theorem storeLens : Prog.Lens Remote.store setStore :=
  ⟨fun _ _ => rfl, fun _ => rfl, fun _ _ _ => rfl⟩

def onStore {α : Type} (p : StoreProg α) : RemoteProg α := Prog.zoom Remote.store setStore p

/-! ### Release of new parts -/

def rerankOf (part : Part) : Option Bytes := part.files.lookup "rerank.vec"

variable (partId : String)

def head : RemoteProg (Option Nat) :=
  Prog.read deviceError fun s => .ok ((s.cold[partId]?).map (·.bytes.length))

/-- The object has landed whole, or the part must not be named. -/
def verifyLanded (want : Nat) : RemoteProg Unit := do
  let landed ← head partId
  match landed with
  | some length =>
    if length = want then return ()
    else Prog.throw (.invariant <| s!"cold-tier publish of part `{partId}` did not verify: the " ++
      s!"backend holds {length} bytes at `{Engine.coldKey partId}`, but the part's cold tier is " ++
      s!"{want} bytes")
  | none => Prog.throw (.invariant <| s!"cold-tier publish of part `{partId}` did not verify: " ++
      s!"the backend has no object at `{Engine.coldKey partId}` after the upload")

/-- `publish_part_cold`, where the object store stamps an upload with `stampMs`. -/
def publishPartCold (stampMs : Int) (partId : String) : RemoteProg Unit := do
  let found ← Prog.read deviceError fun s => .ok (s.store.parts[partId]?)
  match found.bind fun part => (rerankOf part).map fun bytes => (part, bytes) with
  | none => return ()
  | some (part, bytes) =>
    let before ← head partId
    if part.manifest.encrypted ∨ before ≠ some bytes.length then
      Prog.replace deviceError fun s =>
        { s with cold := s.cold.insert partId ⟨bytes, stampMs⟩ }
    verifyLanded partId bytes.length

/-- New parts, each with the time of its upload, and the commit that names them: its snapshot names
parts of its parent and new ones. -/
structure Release where
  parts : List (Part × Int)
  entries : Snapshot → List PartEntry
  nextSeq : Snapshot → Nat
  activeGeneration : Snapshot → Option String
  carried : Snapshot → SnapshotMeta
  nowMs : Int
  tiered : ∀ item ∈ parts, (rerankOf item.1).isSome
  named : ∀ parent, ∀ entry ∈ entries parent, entry.partId ∈ parent.partIds ∨
    entry.partId ∈ parts.map (·.1.manifest.partId)

def Release.ids (release : Release) : List String := release.parts.map (·.1.manifest.partId)

/-- Read the snapshot to build on. The first access of a release. -/
def beginRelease (release : Release) : RemoteProg Snapshot :=
  Prog.transact deviceError fun s =>
    (Catalog.currentIn s.store).map fun parent =>
      (parent, { s with pending := release.ids, announced := s.announced ++ release.ids })

/-- Write the parts, publish their cold tiers, commit. -/
def release (release : Release) : RemoteProg Unit :=
  Prog.ending (fun s => { s with pending := [] }) do
    let parent ← beginRelease release
    let _ ← Prog.each (fun item => onStore (Prog.replace deviceError (Catalog.putPart item.1)))
      release.parts
    let _ ← Prog.each (fun item => publishPartCold item.2 item.1.manifest.partId) release.parts
    let _ ← onStore (Catalog.commitMeta parent (release.entries parent) (release.nextSeq parent)
      (release.activeGeneration parent) (release.carried parent) release.nowMs)
    return ()

/-! ### Reconciliation -/

def age (nowMs lastModifiedMs : Int) : Int := max minI64 (min maxI64 (nowMs - lastModifiedMs))

def isOld (nowMs lastModifiedMs : Int) : Bool := gcHorizonMs < age nowMs lastModifiedMs

def listParts (s : Remote) : List (String × Int) :=
  s.cold.toList.map fun object => (object.1, object.2.lastModifiedMs)

structure ReconcileReport where
  removedParts : List String
  removedMirrors : List SnapshotId
  protectedParts : Nat
  protectedMirrors : Nat
  tooYoung : Nat
  deriving DecidableEq

def beginReconciliation (s : Remote) : Remote :=
  { s with phase := .reading, announced := s.pending }

def listCold (nowMs : Int) : RemoteProg (List (String × Int)) :=
  Prog.update deviceError listParts fun s =>
    { s with
      phase := .listed
      aged := ((listParts s).filter fun object => isOld nowMs object.2).map Prod.fst }

def deleteCold : RemoteProg Unit :=
  Prog.replace deviceError fun s =>
    { s with cold := s.cold.erase partId, removed := partId :: s.removed }

def deleteMirror (id : SnapshotId) : RemoteProg Unit :=
  Prog.replace deviceError fun s => { s with mirror := s.mirror.erase id }

def reconcileRemoteOrphans (retainSnapshots : Nat) (nowMs : Int) (dryRun : Bool) :
    RemoteProg ReconcileReport :=
  Prog.ending (fun s => { s with phase := .over }) do
    Prog.note beginReconciliation
    let live ← Catalog.readRetained Remote.store retainSnapshots nowMs
    let parts ← listCold nowMs
    let mirrors ← Prog.read deviceError fun s => .ok s.mirror.toList
    let orphanParts := parts.filter fun object => !live.parts.contains object.1
    let orphanMirrors := mirrors.filter fun object => !live.snapshots.contains object.1
    let oldParts := (orphanParts.filter fun object => isOld nowMs object.2).map Prod.fst
    let oldMirrors := (orphanMirrors.filter fun object => isOld nowMs object.2).map Prod.fst
    if !dryRun then
      let _ ← Prog.each deleteCold oldParts
      let _ ← Prog.each deleteMirror oldMirrors
    return {
      removedParts := oldParts
      removedMirrors := oldMirrors
      protectedParts := parts.length - orphanParts.length
      protectedMirrors := mirrors.length - orphanMirrors.length
      tooYoung := orphanParts.length - oldParts.length + (orphanMirrors.length - oldMirrors.length) }

end Remote

end Prism
