import Prism.Part.Catalog

/-!
The files of a store one access at a time, where other processes may come in between: a part that
is written to its temporary directory and renamed (`PartWriter::write`), and garbage collection
(`Catalog::retained`, `Catalog::gc_at`).
-/

namespace Prism

open CrashLogic

def noSuchFile : PrismError := .io "No such file or directory (os error 2)"

namespace Catalog

/-! ### The live set -/

section Retained

variable {σ : Type} (store : σ → Store)

def readSnapshot (id : SnapshotId) : Prog σ PrismError Snapshot :=
  Prog.read deviceError fun s => loadSnapshotIn (store s) id

def readCurrent : Prog σ PrismError Snapshot := do
  let named ← Prog.read deviceError fun s => .ok (store s).current
  match named with
  | none => return Snapshot.empty
  | some id => readSnapshot store id

/-- A snapshot that is not pinned and does not load is not kept. -/
def readYoung (nowMs : Int) (pinned : List SnapshotId) (id : SnapshotId) :
    Prog σ PrismError (List SnapshotId) :=
  if pinned.contains id then return [] else do
    match ← (readSnapshot store id).attempt with
    | .ok snap =>
      return if snap.createdAtMs > saturatingSub nowMs gcHorizonMs then [id] else []
    | .error _ => return []

/-- The parts of a kept snapshot; of one that does not load, none. -/
def readParts (id : SnapshotId) : Prog σ PrismError (List String) := do
  match ← (readSnapshot store id).attempt with
  | .ok snap => return snap.partIds
  | .error _ => return []

def retainFrom (retainSnapshots : Nat) (nowMs : Int) (current : SnapshotId)
    (all : List SnapshotId) : Prog σ PrismError Retained := do
  let pinned := all.reverse.take (max retainSnapshots 1) ++ [current]
  let young ← Prog.each (readYoung store nowMs pinned) all
  let kept := pinned ++ young.flatten
  let parts ← Prog.each (readParts store) kept
  return ⟨kept, parts.flatten⟩

/-- `Catalog::retained`, in the reads it makes. -/
def readRetained (retainSnapshots : Nat) (nowMs : Int) : Prog σ PrismError Retained := do
  let current ← readCurrent store
  let all ← Prog.read deviceError fun s => .ok (listSnapshots (store s))
  retainFrom store retainSnapshots nowMs current.snapshotId all

end Retained

end Catalog

/-! ### The parts directory -/

/-- An entry of the parts directory; the name of a temporary directory ends in `.tmp`. -/
inductive PartsEntry where
  | part (id : String)
  | tmp (id : String)
  deriving DecidableEq

def PartsEntry.name : PartsEntry → String
  | .part id => id
  | .tmp id => id ++ ".tmp"

inductive Publication where
  | idle
  | running
  | over
  deriving DecidableEq

/-- How far a collection is: it goes through the parts directory, then through the snapshots. -/
inductive Collection where
  | idle
  | parts
  | snapshots
  | over
  deriving DecidableEq

/-- The files of a store with the temporary directories and what is in them. The rest is history:
how far the publication and the collection are, and what the collection removed. -/
structure Disk where
  store : Store
  tmp : BTreeMap String (List String)
  publication : Publication
  collection : Collection
  removedParts : List String
  removedSnapshots : List SnapshotId
  deriving DecidableEq

abbrev DiskProg := Prog Disk PrismError

namespace Disk

def setStore (store : Store) (d : Disk) : Disk := { d with store }

theorem storeLens : Prog.Lens Disk.store setStore :=
  ⟨fun _ _ => rfl, fun _ => rfl, fun _ _ _ => rfl⟩

def onStore {α : Type} (p : StoreProg α) : DiskProg α := Prog.zoom Disk.store setStore p

/-! ### Publication -/

variable (id : String)

/-- `tmp_dir.exists()`. The first access of a publication. -/
def tmpExists : DiskProg Bool :=
  Prog.update deviceError (·.tmp.contains id) fun d => { d with publication := .running }

def removeTmp : DiskProg Unit :=
  Prog.transact deviceError fun d =>
    if d.tmp.contains id then .ok ((), { d with tmp := d.tmp.erase id }) else .error noSuchFile

def ensureTmp : DiskProg Unit :=
  Prog.replace deviceError fun d =>
    if d.tmp.contains id then d else { d with tmp := d.tmp.insert id [] }

def writeFile (id file : String) : DiskProg Unit :=
  Prog.transact deviceError fun d =>
    match d.tmp[id]? with
    | some files => .ok ((), { d with tmp := d.tmp.insert id (files ++ [file]) })
    | none => .error noSuchFile

def fsyncTmp : DiskProg Unit :=
  Prog.read deviceError fun d => if d.tmp.contains id then .ok () else .error noSuchFile

/-- The temporary directory with everything in it becomes the part. -/
def renameTmp (part : Part) : DiskProg Unit :=
  Prog.transact deviceError fun d =>
    if d.tmp.contains part.manifest.partId then
      .ok ((), { d with
        tmp := d.tmp.erase part.manifest.partId
        store := { d.store with
          parts := d.store.parts.insert part.manifest.partId part } })
    else .error noSuchFile

def manifestFile : String := "manifest.bin"

/-- Fill the temporary directory and rename it; a part that is there already is left as it is. -/
def fillAndRename (part : Part) : DiskProg Unit := do
  let id := part.manifest.partId
  ensureTmp id
  let _ ← Prog.each (writeFile id) (part.files.map Prod.fst ++ [manifestFile])
  fsyncTmp id
  let published ← Prog.read deviceError fun d => .ok (d.store.parts.contains id)
  if published then removeTmp id else renameTmp part

/-- The durable write of `PartWriter::write`, once the part is built. -/
def writePart (part : Part) : DiskProg Unit := do
  if ← tmpExists part.manifest.partId then removeTmp part.manifest.partId
  fillAndRename part

structure Commit where
  parent : Snapshot
  entries : List PartEntry
  nextSeq : Nat
  activeGeneration : Option String
  carried : SnapshotMeta
  nowMs : Int

def Commit.snapshotId (commit : Commit) : SnapshotId := commit.parent.snapshotId + 1

def commitMeta (commit : Commit) : DiskProg Snapshot :=
  onStore (Catalog.commitMeta commit.parent commit.entries commit.nextSeq commit.activeGeneration
    commit.carried commit.nowMs)

/-- Write the parts, then commit: the accesses of an operation from its first write on. -/
def publish (parts : List Part) (commit : Commit) : DiskProg Unit :=
  Prog.ending (fun d => { d with publication := .over }) do
    let _ ← Prog.each writePart parts
    let _ ← commitMeta commit
    return ()

/-! ### Garbage collection -/

def readDir (d : Disk) : List PartsEntry :=
  d.store.parts.keys.map PartsEntry.part ++ d.tmp.keys.map PartsEntry.tmp

/-- A temporary directory is a part that never got published. -/
def orphan (referenced : List String) : PartsEntry → Bool
  | .part id => !referenced.contains id
  | .tmp _ => true

def removeEntry : PartsEntry → DiskProg Unit
  | .part id =>
    Prog.transact deviceError fun d =>
      if d.store.parts.contains id then
        .ok ((), { d with
          store := Catalog.removePart id d.store
          removedParts := id :: d.removedParts })
      else .error noSuchFile
  | .tmp id => removeTmp id

def removeFile (id : SnapshotId) : DiskProg Unit :=
  Prog.transact deviceError fun d =>
    if d.store.snapshots.contains id then
      .ok ((), { d with
        store := Catalog.removeSnapshot id d.store
        removedSnapshots := id :: d.removedSnapshots })
    else .error noSuchFile

def sortNames (names : List String) : List String :=
  names.insertionSort fun a b => (compare a b).isLE

/-- `list_snapshots`. The first access of a collection. -/
def beginCollection : DiskProg (List SnapshotId) :=
  Prog.update deviceError (fun d => Catalog.listSnapshots d.store) fun d =>
    { d with collection := .parts }

/-- `gc_at(retain, now, dry_run)`. While nobody else changes the parts directory, reading it in
pieces finds what was there when it was opened. -/
def gcAt (retainSnapshots : Nat) (nowMs : Int) (dryRun : Bool) : DiskProg Catalog.GcReport :=
  Prog.ending (fun d => { d with collection := .over }) do
    let all ← beginCollection
    let retained ← Catalog.readRetained Disk.store retainSnapshots nowMs
    let entries ← Prog.read deviceError fun d => .ok (readDir d)
    let removedParts := entries.filter (orphan retained.parts)
    let removedSnapshots := all.filter (!retained.snapshots.contains ·)
    if !dryRun then
      let _ ← Prog.each removeEntry removedParts
      Prog.note fun d => { d with collection := .snapshots }
      let _ ← Prog.each removeFile removedSnapshots
    return ⟨retained.snapshots, sortNames (removedParts.map PartsEntry.name), removedSnapshots⟩

end Disk

end Prism
