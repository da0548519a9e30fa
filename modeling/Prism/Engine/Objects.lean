import Prism.Engine.Ownership

/-!
The object store and its local backend, file operation by file operation (`ObjectStore` and
`LocalObjectStore` of `storage/object.rs`, `write_atomic` of `prism-part/src/io.rs`), publication by
compare-and-swap, and the catalog mirror on top of it (`storage/mirror.rs`).

A process that crashes leaves what it has written. Directories are not part of the model: creating
or syncing one is an access that can fail and changes nothing.
-/

namespace Prism

open CrashLogic

abbrev Files := BTreeMap String Bytes

abbrev FileProg := Prog Files PrismError

/-! ### Durable file primitives -/

variable (path : String)

def tmpPath : String := path ++ ".tmp"

def ensureDir : FileProg Unit := Prog.read deviceError fun _ => .ok ()

def syncAll : FileProg Unit := Prog.read deviceError fun _ => .ok ()

def fsyncDir : FileProg Unit := Prog.read deviceError fun _ => .ok ()

def openTruncated : FileProg Unit := Prog.replace deviceError (·.insert path [])

/-- Write to a file that was just created or truncated; cut short, a beginning is there. -/
def writeAll (bytes : Bytes) : FileProg Unit :=
  Prog.act deviceError (fun progress files => files.insert path (bytes.take progress))
    (·.insert path bytes)

def renameFile (source target : String) : FileProg Unit :=
  Prog.transact deviceError fun files =>
    match files[source]? with
    | some bytes => .ok ((), (files.erase source).insert target bytes)
    | none => .error (.io "No such file or directory (os error 2)")

def writeAtomic (bytes : Bytes) : FileProg Unit := do
  openTruncated (tmpPath path)
  writeAll (tmpPath path) bytes
  syncAll
  renameFile (tmpPath path) path
  fsyncDir

/-- `create_new`: whether the file was created. -/
def createNew : FileProg Bool :=
  Prog.update deviceError (fun files => !files.contains path) (·.insertIfNew path [])

/-! ### The object store -/

structure ObjectStore (σ : Type) where
  get : String → Prog σ PrismError Bytes
  put : String → Bytes → Prog σ PrismError Unit
  putIfAbsent : String → Bytes → Prog σ PrismError Bool

namespace LocalObjectStore

variable (key : String)

def getIn (files : Files) : Result Bytes :=
  match files[key]? with
  | some bytes => .ok bytes
  | none => .error (.notFound s!"object `{key}` does not exist")

def get : FileProg Bytes := Prog.read deviceError (getIn key)

/-- Exactly `len` bytes, or an error that says what is missing. -/
def getRangeIn (offset len : Nat) (files : Files) : Result Bytes :=
  match files[key]? with
  | none => .error (.notFound s!"object `{key}` does not exist")
  | some bytes =>
    let stop := offset + len
    if stop > bytes.length then
      .error (.corrupt <| if stop ≥ 2 ^ 64 then
          s!"object `{key}` range overflows: offset {offset} + {len}"
        else s!"object `{key}` is truncated: range needs {len} bytes at offset {offset} (through " ++
          s!"{stop}), but the object is only {bytes.length} bytes")
    else .ok ((bytes.drop offset).take len)

def put (bytes : Bytes) : FileProg Unit := do
  ensureDir
  writeAtomic key bytes

def putIfAbsent (bytes : Bytes) : FileProg Bool := do
  ensureDir
  if ← createNew key then
    writeAll key bytes
    syncAll
    return true
  else return false

def backend : ObjectStore Files := ⟨get, put, putIfAbsent⟩

end LocalObjectStore

namespace ObjectStore

variable {σ : Type} (store : ObjectStore σ)

def outcomeOf (existing bytes : Bytes) : CasOutcome :=
  if existing = bytes then .alreadyOurs else .conflict

def readBack (key : String) (bytes : Bytes) : Prog σ PrismError CasOutcome := do
  let existing ← store.get key
  return outcomeOf existing bytes

/-- Create an object. A create that was refused or that failed is resolved by what is there; one
that left nothing is tried once more. -/
def casPublish (key : String) (bytes : Bytes) : Prog σ PrismError CasOutcome := do
  match ← (store.putIfAbsent key bytes).attempt with
  | .ok true => return .created
  | .ok false => store.readBack key bytes
  | .error (.io msg) =>
    match ← (store.get key).attempt with
    | .ok existing => return outcomeOf existing bytes
    | .error (.notFound _) =>
      match ← (store.putIfAbsent key bytes).attempt with
      | .ok true => return .created
      | .ok false => store.readBack key bytes
      | .error _ => Prog.throw (.io <| s!"CAS publish of `{key}` failed ambiguously and could " ++
          s!"not be resolved: {msg}")
    | .error e => Prog.throw e
  | .error e => Prog.throw e

end ObjectStore

/-! ### The catalog mirror -/

def mirrorKey (id : SnapshotId) : String := s!"catalog/SNAPSHOT-{snapshotName id}"

def ObjectStore.mirrorSnapshot {σ : Type} (store : ObjectStore σ) (encode : Snapshot → Bytes)
    (snap : Snapshot) : Prog σ PrismError Unit :=
  if snap.snapshotId = Snapshot.empty.snapshotId then return ()
  else do
    let key := mirrorKey snap.snapshotId
    match ← store.casPublish key (encode snap) with
    | .created => return ()
    | .alreadyOurs => return ()
    | .conflict => Prog.throw (.invariant <| "split-brain detected: the catalog mirror already " ++
        s!"holds a DIFFERENT snapshot at `{key}` — another writer has published concurrently, " ++
        "violating the single-writer contract (D-069). Halting rather than tolerating divergence.")

end Prism
