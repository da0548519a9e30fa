import Prism.Part.Manifest
import Prism.Engine.Objects
import Prism.Engine.Merge

/-!
Backup of published parts and hydration of a replacement node (`storage/hydrate.rs`), the rewrap of
an envelope (`prism-part/src/part.rs`) and the key of the tenant tokens (`tenant_key.rs`).

A request to the object store is one access: it is answered, it fails, or the process stops before
or after it. The part ids and file names are single path components, and an empty directory is as
good as none.
-/

namespace Prism

open CrashLogic

def manifestFile : String := "manifest.bin"
def legacyManifestFile : String := "manifest.json"
def backupManifestFile : String := "BACKUP.json"
def tenantKeyFile : String := "tenant-key.json"
def currentFile : String := "CURRENT"
def tenantKeyKey : String := "store/tenant-key.json"
def receiptTenantsColumn : String := "\x00backup-receipt-tenants"

/-! ### Receipts -/

structure BackedFile where
  name : String
  len : Nat
  sha256 : String
  deriving DecidableEq, Repr

def BackedFile.of (name : String) (bytes : Bytes) : BackedFile :=
  ⟨name, bytes.length, hex (Prism.sha256 bytes)⟩

/-- The tenant list of an encrypted part, and what a restore reads before it can unwrap anything. -/
structure SealedTenants where
  bucketOrdinal : Nat
  algorithm : Nat
  wrappingKeyId : String
  dekEpoch : Nat
  wrappedDek : Bytes
  ciphertext : Bytes
  deriving DecidableEq, Repr

inductive ReceiptTenants where
  | plain (tenants : List String)
  | sealed (tenants : SealedTenants)
  deriving DecidableEq, Repr

/-- The files that together are the part, and what a restore checks before it installs them. -/
structure PartBackup where
  partId : String
  generationId : String
  tenants : List String
  sealedTenants : Option SealedTenants
  files : List BackedFile
  deriving DecidableEq, Repr

namespace PartBackup

def plain (partId generationId : String) (tenants : List String) (files : List BackedFile) :
    PartBackup :=
  ⟨partId, generationId, tenants, none, files⟩

/-- The receipt of an encrypted part names no tenant in the clear. -/
def sealed (partId generationId : String) (tenants : SealedTenants) (files : List BackedFile) :
    PartBackup :=
  ⟨partId, generationId, [], some tenants, files⟩

/-- How the receipt names its tenants; both forms at once are a leak. -/
def receiptTenants (r : PartBackup) : Result ReceiptTenants :=
  match r.sealedTenants with
  | some s =>
    if !r.tenants.isEmpty then
      .error (.corrupt <| s!"backup receipt for part `{r.partId}` carries {r.tenants.length} " ++
        "tenant name(s) in plaintext *and* a sealed tenant list; a receipt that seals its " ++
        "tenants and then also names them has defeated the sealing")
    else .ok (.sealed s)
  | none => .ok (.plain r.tenants)

def totalBytes (r : PartBackup) : Nat := (r.files.map BackedFile.len).sum

end PartBackup

structure ShardPlacement where
  scheme : PartitionScheme
  shardId : Nat
  shardCount : Nat

namespace ShardPlacement

variable (p : ShardPlacement)

def ownsOrdinal (ordinal : Nat) : Bool :=
  p.shardCount ≠ 0 ∧ ordinal % p.shardCount = p.shardId

def owns (tenant : String) : Bool :=
  p.ownsOrdinal (p.scheme.bucketOrdinal (p.scheme.bucketOf tenant))

/-- The wrong-shard refusal, which needs no key in either form. -/
def check (receipt : PartBackup) : Result Unit := do
  match ← receipt.receiptTenants with
  | .plain tenants =>
    match tenants.find? fun t => !p.owns t with
    | some foreign => .error (.invariant <| s!"refusing to hydrate part `{receipt.partId}`: it " ++
        s!"holds tenant `{foreign}`, which does not route to shard {p.shardId} of " ++
        s!"{p.shardCount} — a part that arrived at the wrong shard is a routing fault, not a " ++
        "part to restore")
    | none => .ok ()
  | .sealed s =>
    if !p.ownsOrdinal s.bucketOrdinal then
      .error (.invariant <| s!"refusing to hydrate part `{receipt.partId}`: it belongs to bucket " ++
        s!"ordinal {s.bucketOrdinal}, which does not route to shard {p.shardId} of " ++
        s!"{p.shardCount} — a part that arrived at the wrong shard is a routing fault, not a " ++
        "part to restore")
    else .ok ()

end ShardPlacement

structure TenantKeyEnvelope where
  algorithm : Nat
  wrappingKeyId : String
  wrappedKey : Bytes
  deriving DecidableEq, Repr

/-! ### What the code reaches through -/

/-- The JSON texts of `serde_json`, the manifests of version 1, the decoding of the rows of a part
whose columns have passed, and the content address of a generation. -/
structure Serde where
  legacyManifest : Bytes → Result PartManifest
  decodeRows : PartReader → Result Unit
  verifyContentAddress : Generation → Result Unit
  tenantsJson : List String → Bytes
  receiptJson : PartBackup → Bytes
  parseReceipt : Bytes → Except String PartBackup
  snapshotJson : Snapshot → Bytes
  parseSnapshot : Bytes → Except String Snapshot
  generationJson : Generation → Bytes
  parseGeneration : Bytes → Except String Generation
  envelopeJson : TenantKeyEnvelope → Bytes
  parseEnvelope : Bytes → Except String TenantKeyEnvelope

structure Vault where
  parts : String → Files
  generations : Files
  mirror : Files
  tenantKey : Option Bytes

/-- The files of a store's root: those of the root itself, the part directories, the generations and
the snapshots. -/
structure Root where
  files : Files
  parts : String → Files
  generations : Files
  snapshots : Files

def Vault.empty : Vault := ⟨fun _ => ∅, ∅, ∅, none⟩

def Root.empty : Root := ⟨∅, fun _ => ∅, ∅, ∅⟩

def Root.setPart (root : Root) (name : String) (dir : Files) : Root :=
  { root with parts := Function.update root.parts name dir }

structure Node where
  root : Root
  vault : Vault

abbrev NodeProg := Prog Node PrismError

structure Site (σ : Type) where
  dir : σ → String → Files
  vault : σ → Vault
  store : Vault → σ → σ

def Node.site : Site Node := ⟨fun n => n.root.parts, Node.vault, fun vault n => { n with vault }⟩

def partKey (partId file : String) : String := s!"parts/{partId}/{file}"

def generationKey (id : String) : String := s!"generations/{id}.json"

def mapErr {σ α : Type} (f : PrismError → PrismError) (p : Prog σ PrismError α) :
    Prog σ PrismError α := do
  match ← p.attempt with
  | .ok a => return a
  | .error e => Prog.throw (f e)

def parsed {α : Type} (result : Except String α) : Result α := result.mapError .decode

namespace Vault

def putPart (partId file : String) (bytes : Bytes) (v : Vault) : Vault :=
  { v with parts := Function.update v.parts partId ((v.parts partId).insert file bytes) }

end Vault

def objectAt (key : String) : Option Bytes → Result Bytes
  | some bytes => .ok bytes
  | none => .error (.notFound s!"object `{key}` does not exist")

variable (serde : Serde)

/-- `PartReader::open`: a part announces its format by which manifest it carries. -/
def openDir (name : String) (dir : Files) : Result PartManifest := do
  let manifest ←
    match dir[manifestFile]?, dir[legacyManifestFile]? with
    | some bytes, _ => PartManifest.decode bytes
    | none, some bytes => serde.legacyManifest bytes
    | none, none => .error (.corrupt
        s!"{name} holds no part manifest ({manifestFile} or {legacyManifestFile})")
  manifest.validateStructure
  return manifest

def verifyDir (m : PartManifest) (dir : Files) (cipher : BlockCipher) :
    Result Unit := do
  let reader : PartReader := ⟨⟨m, dir.toList, []⟩, some cipher⟩
  m.validateStructure
  m.columns.forM fun c => do
    let _ ← reader.readColumnChecked c
  serde.decodeRows reader

/-! ### Backup -/

namespace Site

variable {σ : Type} (site : Site σ)

def head (partId file : String) : Prog σ PrismError (Option Nat) :=
  Prog.read deviceError fun s => .ok (((site.vault s).parts partId)[file]?.map List.length)

def put (partId file : String) (bytes : Bytes) : Prog σ PrismError Unit :=
  Prog.replace deviceError fun s => site.store ((site.vault s).putPart partId file bytes) s

def readFile (partId file : String) : Prog σ PrismError Bytes :=
  Prog.read deviceError fun s =>
    match (site.dir s partId)[file]? with
    | some bytes => .ok bytes
    | none => .error (.io "No such file or directory (os error 2)")

variable (partId : String)

/-- The files that constitute a part on disk; the receipt never describes itself. -/
def partFiles : Prog σ PrismError (List String) :=
  Prog.read deviceError fun s => .ok ((site.dir s partId).keys.filter (· ≠ backupManifestFile))

/-- An unencrypted file whose length the backend has already is not uploaded again. -/
def mustUpload (encrypted : Bool) (name : String) (bytes : Bytes) :
    Prog σ PrismError Bool :=
  if encrypted then return true
  else do
    let found ← site.head partId name
    return found ≠ some bytes.length

def confirm (partId name : String) (bytes : Bytes) : Prog σ PrismError BackedFile := do
  match ← site.head partId name with
  | some got =>
    if got ≠ bytes.length then
      Prog.throw (.invariant <| s!"backup of part `{partId}` did not verify: the backend holds " ++
        s!"{got} bytes at `{partKey partId name}`, but the file is {bytes.length} bytes")
    else return BackedFile.of name bytes
  | none => Prog.throw (.invariant <| s!"backup of part `{partId}` did not verify: the backend " ++
      s!"has no object at `{partKey partId name}` after the upload")

def backupFile (encrypted : Bool) (name : String) :
    Prog σ PrismError BackedFile := do
  let bytes ← site.readFile partId name
  let upload ← site.mustUpload partId encrypted name bytes
  if upload then site.put partId name bytes
  site.confirm partId name bytes

def uploadPart (serde : Serde) (partId : String) :
    Prog σ PrismError (PartManifest × List BackedFile) := do
  let m ← mapErr (fun e => .invariant s!"cannot back up part `{partId}`: {e.display}")
    (Prog.read deviceError fun s => openDir serde s!"parts/{partId}" (site.dir s partId))
  let names ← site.partFiles partId
  let files ← Prog.each (site.backupFile partId m.encrypted) names
  return (m, files)

end Site

namespace Engine

def receiptOf (engine : Engine) (serde : Serde) (partId : String) (m : PartManifest)
    (files : List BackedFile) : Result PartBackup := do
  match ← engine.cipherFor m with
  | none => return .plain partId m.generationId m.tenants files
  | some cipher =>
    match m.encryptionEnvelope with
    | none => .error (.corrupt
        s!"part `{partId}` is encrypted but carries no envelope to back up")
    | some e =>
      let ciphertext ← cipher.sealBlock partId receiptTenantsColumn 0 (serde.tenantsJson m.tenants)
      return .sealed partId m.generationId
        ⟨e.bucketOrdinal, e.algorithm, e.wrappingKeyId, e.dekEpoch, e.wrappedDek, ciphertext⟩ files

/-- Back up one published part: every file, then the receipt. -/
def backupPart {σ : Type} (engine : Engine) (serde : Serde) (site : Site σ) (partId : String) :
    Prog σ PrismError PartBackup := do
  let (m, files) ← site.uploadPart serde partId
  let receipt ← Prog.ofExcept (engine.receiptOf serde partId m files)
  site.put partId backupManifestFile (serde.receiptJson receipt)
  return receipt

end Engine

/-! ### Rewrapping -/

def onPartDir {α : Type} (partId : String) : FileProg α → NodeProg α :=
  Prog.zoom (fun n => n.root.parts partId) fun dir n => { n with root := n.root.setPart partId dir }

def rewrapPartEnvelope (partId : String) (envelope : S14Ext) : NodeProg Unit := do
  let bytes ← Node.site.readFile partId manifestFile
  let m ← Prog.ofExcept (PartManifest.decode bytes)
  let out ← Prog.ofExcept (m.rewrapped envelope)
  onPartDir partId (writeAtomic manifestFile out)

/-! ### Planning a restore -/

structure HydrationPlan where
  snapshotId : String
  snapshotBytes : Bytes
  parts : List PartBackup
  generations : List Generation
  deriving DecidableEq

structure HydrationReport where
  snapshotId : String
  parts : List String
  generations : List String
  bytes : Nat
  deriving DecidableEq, Repr

def getObject (key : String) (find : Vault → Option Bytes) : NodeProg Bytes :=
  Prog.read deviceError fun n => objectAt key (find n.vault)

def planPart (placement : Option ShardPlacement) (snapshotId partId : String) :
    NodeProg PartBackup := do
  let key := partKey partId backupManifestFile
  let bytes ← mapErr (fun e => .notFound <| s!"cannot hydrate snapshot `{snapshotId}`: part " ++
      s!"`{partId}` has no backup receipt at `{key}` — it was never completely backed up " ++
      s!"({e.display})")
    (getObject key fun v => (v.parts partId)[backupManifestFile]?)
  let receipt ← Prog.ofExcept ((serde.parseReceipt bytes).mapError fun e =>
    .corrupt s!"backup receipt for part `{partId}` is not readable: {e}")
  if receipt.partId ≠ partId then
    Prog.throw (.corrupt
      s!"backup receipt at `{key}` describes part `{receipt.partId}`, not `{partId}`")
  match placement with
  | some p => Prog.ofExcept (p.check receipt)
  | none => pure ()
  return receipt

def planGeneration (snapshotId id : String) : NodeProg Generation := do
  let key := generationKey id
  let bytes ← mapErr (fun e => .notFound <| s!"cannot hydrate snapshot `{snapshotId}`: it " ++
      s!"requires generation `{id}`, which has no backup at `{key}` — restoring parts without " ++
      s!"the codebook that embedded them would mix generations ({e.display})")
    (getObject key fun v => v.generations[id]?)
  let g ← Prog.ofExcept (parsed (serde.parseGeneration bytes))
  if g.generationId ≠ id then
    Prog.throw (.corrupt
      s!"generation backup at `{key}` declares id `{g.generationId}`, not `{id}`")
  Prog.ofExcept ((serde.verifyContentAddress g).mapError fun e =>
    .corrupt <| s!"generation `{id}` fails its content address — the backed-up codebook is not " ++
      s!"the codebook it claims to be: {e.display}")
  return g

/-- Resolve the restore set of the highest mirrored snapshot before anything is installed. -/
def planHydration (placement : Option ShardPlacement) : NodeProg HydrationPlan := do
  let ids ← Prog.read deviceError fun n => .ok n.vault.mirror.keys
  match ids.getLast? with
  | none => Prog.throw (.notFound <| "cannot hydrate: the object store holds no catalog mirror " ++
      "snapshot to restore from")
  | some snapshotId =>
    let snapshotBytes ← getObject s!"catalog/SNAPSHOT-{snapshotId}" fun v => v.mirror[snapshotId]?
    let snap ← Prog.ofExcept (parsed (serde.parseSnapshot snapshotBytes))
    if snapshotName snap.snapshotId ≠ snapshotId then
      Prog.throw (.corrupt <| s!"catalog mirror snapshot `{snapshotId}` declares id " ++
        s!"`{snapshotName snap.snapshotId}`")
    let parts ← Prog.each (planPart serde placement snapshotId) snap.partIds
    let wanted := sortedSet (parts.map PartBackup.generationId ++ snap.activeGeneration.toList)
    let generations ← Prog.each (planGeneration serde snapshotId) wanted
    return ⟨snapshotId, snapshotBytes, parts, generations⟩

/-! ### Hydration -/

def onRootFiles {α : Type} : FileProg α → NodeProg α :=
  Prog.zoom (fun n => n.root.files) fun files n => { n with root := { n.root with files } }

def onSnapshots {α : Type} : FileProg α → NodeProg α :=
  Prog.zoom (fun n => n.root.snapshots)
    fun snapshots n => { n with root := { n.root with snapshots } }

def onGenerations {α : Type} : FileProg α → NodeProg α :=
  Prog.zoom (fun n => n.root.generations)
    fun generations n => { n with root := { n.root with generations } }

def trimmed (s : String) : String :=
  String.ofList ((s.toList.dropWhile Event.isWhiteSpace).reverse.dropWhile Event.isWhiteSpace).reverse

def namedBy (bytes : Bytes) : Result String :=
  match fromUtf8 bytes with
  | some text => .ok (trimmed text)
  | none => .error (.io "stream did not contain valid UTF-8")

def refuseLive : NodeProg Unit := do
  let there ← Prog.read deviceError fun n => .ok (n.root.files.contains currentFile)
  if there then
    let current ← Prog.read deviceError fun n => namedBy (n.root.files.getD currentFile [])
    if !current.isEmpty then
      Prog.throw (.invariant <| "refusing to hydrate onto a live store: `CURRENT` already names " ++
        s!"snapshot `{current}`. Hydration bootstraps an empty replacement node; restoring over " ++
        "a database that is already serving is a separate, explicit operator action.")

def restoreTenantKey : NodeProg Unit := do
  match ← (getObject tenantKeyKey Vault.tenantKey).attempt with
  | .ok bytes => onRootFiles (writeAtomic tenantKeyFile bytes)
  | .error _ => return ()

/-- `remove_dir_all` of a directory that is there; cut short, some of its files are gone. -/
def removeDir (name : String) : NodeProg Unit := do
  let there ← Prog.read deviceError fun n => .ok (!(n.root.parts name).isEmpty)
  if there then
    onPartDir name (Prog.act deviceError
      (fun progress dir => (dir.keys.take progress).foldl (fun d file => d.erase file) dir)
      fun _ => ∅)

/-- The rename of a directory over one that is not there or empty. -/
def renameDir (source target : String) : NodeProg Unit :=
  Prog.transact deviceError fun n =>
    if (n.root.parts source).isEmpty then .error (.io "No such file or directory (os error 2)")
    else if !(n.root.parts target).isEmpty then .error (.io "Directory not empty (os error 39)")
    else
      .ok ((), { n with root := (n.root.setPart source ∅).setPart target (n.root.parts source) })

def ensureNodeDir : NodeProg Unit := Prog.read deviceError fun _ => .ok ()

def stagingDir (partId : String) : String := s!".hydrate-{partId}"

def BackedFile.check (partId : String) (f : BackedFile) (bytes : Bytes) : Result Unit :=
  if bytes.length ≠ f.len then
    .error (.corrupt <| s!"hydrating part `{partId}`: file `{f.name}` is truncated — the receipt " ++
      s!"records {f.len} bytes, the object store returned {bytes.length}")
  else if hex (Prism.sha256 bytes) ≠ f.sha256 then
    .error (.corrupt <| s!"hydrating part `{partId}`: file `{f.name}` is corrupt — the receipt " ++
      s!"records SHA-256 {f.sha256}, the restored bytes hash to {hex (Prism.sha256 bytes)}")
  else .ok ()

def stageFile (partId : String) (f : BackedFile) : NodeProg Unit := do
  let key := partKey partId f.name
  let bytes ← mapErr (fun e => .notFound <| s!"hydrating part `{partId}`: the backup receipt " ++
      s!"names `{f.name}`, which the object store does not hold at `{key}` ({e.display})")
    (getObject key fun v => (v.parts partId)[f.name]?)
  Prog.ofExcept (f.check partId bytes)
  onPartDir (stagingDir partId) (writeAtomic f.name bytes)

variable (engine : Engine)

/-- A staged part must open, and an encrypted one must decrypt, before it is installed. -/
def Engine.verifyStaged (serde : Serde) (partId : String) (dir : Files) :
    Result Unit := do
  let m ← (openDir serde s!"parts/{stagingDir partId}" dir).mapError fun e => .corrupt <|
    s!"hydrated part `{partId}` verified byte-for-byte but does not open as a part: {e.display}"
  if m.encrypted then
    match ← engine.cipherFor m with
    | none => .error (.corrupt
        s!"hydrated part `{partId}` sets the encryption feature but carries no envelope")
    | some cipher => (verifyDir serde m dir cipher).mapError fun e => .corrupt <|
        s!"hydrated part `{partId}` restored byte-for-byte but will not decrypt: {e.display}"

def Engine.installPart (serde : Serde) (receipt : PartBackup) :
    NodeProg Unit := do
  let staging := stagingDir receipt.partId
  removeDir staging
  ensureNodeDir
  let _ ← Prog.each (stageFile receipt.partId) receipt.files
  Prog.read deviceError fun n => engine.verifyStaged serde receipt.partId (n.root.parts staging)
  removeDir receipt.partId
  renameDir staging receipt.partId

/-- `put_generation`: content-addressed, so one that is there is not written again. -/
def installGeneration (g : Generation) : NodeProg Unit := do
  Prog.ofExcept (serde.verifyContentAddress g)
  let path := s!"{g.generationId}.json"
  let there ← Prog.read deviceError fun n => .ok (n.root.generations.contains path)
  if !there then onGenerations (writeAtomic path (serde.generationJson g))

def Engine.installSet (serde : Serde) (plan : HydrationPlan) : NodeProg Unit := do
  ensureNodeDir
  let _ ← Prog.each (engine.installPart serde) plan.parts
  let _ ← Prog.each (installGeneration serde) plan.generations
  ensureNodeDir
  onSnapshots (writeAtomic s!"{plan.snapshotId}.json" plan.snapshotBytes)

def HydrationPlan.report (plan : HydrationPlan) : HydrationReport :=
  ⟨plan.snapshotId, plan.parts.map PartBackup.partId,
    plan.generations.map Generation.generationId, (plan.parts.map PartBackup.totalBytes).sum⟩

/-- Install a planned restore set; `CURRENT` is written last. -/
def Engine.hydrate (serde : Serde) (plan : HydrationPlan) :
    NodeProg HydrationReport := do
  refuseLive
  restoreTenantKey
  engine.installSet serde plan
  onRootFiles (writeAtomic currentFile (utf8 plan.snapshotId))
  return plan.report

/-! ### The tenant key -/

def openTenantKey (keys : KeyProvider) (bytes : Bytes) :
    Result TenantTokenizer := do
  let envelope ← (serde.parseEnvelope bytes).mapError fun e => .corrupt
    s!"the store tenant key envelope at `{tenantKeyFile}` will not parse: {e}"
  if envelope.algorithm ≠ aeadXchacha20Poly1305 then
    .error (.corrupt <| "the store tenant key was wrapped with AEAD id " ++
      s!"{envelope.algorithm}, which this build does not implement")
  let key ← keys.unwrap envelope.wrappingKeyId envelope.wrappedKey
  return ⟨key⟩

/-- Load the store's tenant key, minting and persisting one on first use. `fresh` is the draw of the
generator. -/
def loadOrMint (keys : Option KeyProvider) (fresh : Bytes) :
    NodeProg (Option TenantTokenizer) :=
  match keys with
  | none => return none
  | some keys => do
    let there ← Prog.read deviceError fun n => .ok (n.root.files.contains tenantKeyFile)
    if there then
      let bytes ← Prog.read deviceError fun n => .ok (n.root.files.getD tenantKeyFile [])
      let tokenizer ← Prog.ofExcept (openTenantKey serde keys bytes)
      return some tokenizer
    else
      let (wrappingKeyId, wrappedKey) ← Prog.ofExcept (keys.wrap fresh)
      onRootFiles (writeAtomic tenantKeyFile
        (serde.envelopeJson ⟨aeadXchacha20Poly1305, wrappingKeyId, wrappedKey⟩))
      return some ⟨fresh⟩

end Prism
