import Prism.Part.Writer

/-!
The part reader: the extensions it decodes and the one road into column bytes, which checks every
block it touches (`prism-part/src/part.rs`, `format.rs` and `ext.rs`).
-/

namespace Prism

/-! ### The cursor -/

/-- A bounds-checked reader of untrusted bytes; the state is the position. -/
abbrev Cursor := ReaderT Bytes (StateT Nat (Result))

namespace Cursor

def run {α : Type} (buf : Bytes) (c : Cursor α) : Result α :=
  (·.1) <$> c buf 0

def remaining : Cursor Nat := do return (← read).length - (← get)

def take (n : Nat) : Cursor Bytes := do
  let pos ← get
  let left ← remaining
  if left < n then
    throw (.corrupt s!"truncated: wanted {n} bytes at offset {pos}, only {left} remain")
  else
    set (pos + n)
    return ((← read).drop pos).take n

def unsigned (n : Nat) : Cursor Nat := return Bytes.ofLe (← take n)

def i64 : Cursor Int := return wrapI64 (← unsigned 8)

def string : Cursor String := do
  let n ← unsigned 4
  let left ← remaining
  if n > left then
    throw (.corrupt s!"manifest claims a {n}-byte string but only {left} bytes remain")
  else
    match String.fromUTF8? ⟨(← take n).toArray⟩ with
    | some s => return s
    | none => throw (.corrupt "manifest string is not utf-8")

end Cursor

/-! ### Extensions -/

def maxWrappedDekBytes : Nat := 4096

def S14Ext.decode (bytes : Bytes) : Result S14Ext :=
  Cursor.run bytes do
    let algorithm ← Cursor.unsigned 2
    let wrappingKeyId ← Cursor.string
    let dekEpoch ← Cursor.unsigned 8
    let len ← Cursor.unsigned 4
    if len > maxWrappedDekBytes then
      throw (.corrupt <| s!"encryption envelope declares a {len}-byte wrapped DEK, above the " ++
        s!"{maxWrappedDekBytes}-byte bound")
    let wrappedDek ← Cursor.take len
    let bucketOrdinal ← Cursor.unsigned 8
    if wrappingKeyId.isEmpty then
      throw (.corrupt <| "encryption envelope names no wrapping key; a part that does not say " ++
        "which key sealed it must be refused, never probed against the keys we happen to hold")
    if wrappedDek.isEmpty then
      throw (.corrupt "encryption envelope carries no wrapped DEK")
    return ⟨algorithm, wrappingKeyId, dekEpoch, wrappedDek, bucketOrdinal⟩

def S5Ext.decode (bytes : Bytes) : Result S5Ext :=
  Cursor.run bytes do
    let tag ← Cursor.unsigned 1
    let reembeddedFrom ← if tag = 1 then some <$> Cursor.string else pure none
    let bodiesRedacted ← Cursor.unsigned 1
    let redactedAtMs ← Cursor.i64
    let redactionReason ← Cursor.string
    if bodiesRedacted ≠ 0 ∧ redactionReason.isEmpty then
      throw (.corrupt <| "part says its bodies were redacted but gives no reason; an " ++
        "irreversible deletion with no recorded cause is not a retention policy, it is data loss")
    return ⟨reembeddedFrom, bodiesRedacted ≠ 0, redactedAtMs, redactionReason⟩

namespace PartManifest

variable (m : PartManifest)

def s5 : Result S5Ext :=
  match m.extensions.find? (·.id = extS5Lineage) with
  | some e => S5Ext.decode e.bytes
  | none => .ok {}

/-- The envelope of a sealed part; one that does not decode counts as absent. -/
def encryptionEnvelope : Option S14Ext :=
  (m.extensions.find? (·.id = extS14Encryption)).bind fun e => (S14Ext.decode e.bytes).toOption

def isLegacy : Bool := m.formatVersion ≠ Prism.formatVersion

def hasTenantTokens : Bool := m.featureFlags &&& featureTenantTokens ≠ 0

def logicalBytes (m : PartManifest) : Nat := (m.columns.map (·.storage.logicalBytes)).sum

end PartManifest

/-! ### Blocks and columns -/

/-- A word as `{:#010x}` prints it. -/
def hexWord (n : Nat) : String := "0x" ++ hex (Bytes.be 4 n)

/-- The file of a name; a write under a name replaces what was written under it before. -/
def Part.file (part : Part) (name : String) : Option Bytes := part.files.reverse.lookup name

/-- A part opened for reading, with the cipher of its blocks if one was attached. -/
structure PartReader where
  part : Part
  cipher : Option BlockCipher

/-- Check one framed block against the manifest and open it once its checksum has passed. The magic
decides first: a sealed block is never returned without a key, a plain one never with a key. -/
def readBlockSealed (raw : Bytes) (index : Nat) (expect : BlockRef) (column partId : String)
    (blockSize : Nat) (cipher : Option BlockCipher) : Result Bytes := do
  let named := s!"part {partId} column `{column}` block {index}"
  let magic := Bytes.ofLe (raw.take 4)
  if magic = sealedBlockMagic ∧ cipher.isNone then
    .error (.policy <| s!"{named} is sealed and no key was supplied;                  " ++
      "refusing to return ciphertext as column data")
  if magic = blockMagic ∧ cipher.isSome then
    .error (.corrupt <| s!"{named} is not sealed, but this part was                  " ++
      "opened with a key; the part and its envelope disagree")
  if magic ≠ blockMagic ∧ magic ≠ sealedBlockMagic then
    .error (.corrupt s!"{named}: bad frame magic {hexWord magic}")
  let idx := Bytes.ofLe ((raw.drop 4).take 4)
  if idx ≠ index then .error (.corrupt s!"{named}: frame says it is block {idx}")
  let logicalOffset := Bytes.ofLe ((raw.drop 8).take 8)
  if logicalOffset ≠ index * blockSize then
    .error (.corrupt <| s!"{named}: frame claims logical offset {logicalOffset}, expected " ++
      s!"{index * blockSize}")
  let payloadLen := Bytes.ofLe ((raw.drop 16).take 4)
  if payloadLen ≠ expect.payloadLen then
    .error (.corrupt <| s!"{named}: frame says {payloadLen} payload bytes, manifest says " ++
      s!"{expect.payloadLen}")
  let statedCrc := Bytes.ofLe ((raw.drop 20).take 4)
  if statedCrc ≠ expect.crc32.toNat then
    .error (.corrupt <| s!"{named}: frame checksum {hexWord statedCrc} disagrees with the " ++
      s!"manifest's {hexWord expect.crc32.toNat}")
  let payload := (raw.drop frameHeaderBytes).take payloadLen
  if payload.length < payloadLen then
    .error (.corrupt <| s!"{named}: truncated, {payload.length} payload bytes present of " ++
      s!"{payloadLen}")
  if crc32 payload ≠ expect.crc32 then
    .error (.corrupt <| s!"{named} failed checksum: expected {hexWord expect.crc32.toNat}, " ++
      s!"computed {hexWord (crc32 payload).toNat} (logical bytes {index * blockSize}.." ++
      s!"{index * blockSize + payloadLen})")
  match cipher with
  | some c => c.openBlock partId column index payload
  | none => .ok payload

namespace PartReader

def manifest (r : PartReader) : PartManifest := r.part.manifest

/-- The blocks of a framed column that cover its first `len` bytes, opened one after another. -/
def readBlocks (r : PartReader) (c : ColumnMeta) (file : Bytes) (blockSize : Nat) :
    Nat → List BlockRef → Result (List Bytes)
  | _, [] => .ok []
  | index, block :: rest => do
    let stop := block.fileOffset + frameHeaderBytes + block.payloadLen
    if stop > file.length then
      .error (.corrupt <| s!"part {r.manifest.partId} column `{c.name}` block {index} of " ++
        s!"`{c.file}` is truncated: needs bytes {block.fileOffset}..{stop}, but the mapped file " ++
        s!"is only {file.length} bytes")
    if r.manifest.encrypted ∧ r.cipher.isNone then
      .error (.policy <| s!"part {r.manifest.partId} column `{c.name}` is encrypted and no key " ++
        "has been supplied; refusing to return sealed bytes as column data")
    let raw := (file.drop block.fileOffset).take (frameHeaderBytes + block.payloadLen)
    let payload ← readBlockSealed raw index block c.name r.manifest.partId blockSize r.cipher
    return payload :: (← r.readBlocks c file blockSize (index + 1) rest)

def readColumnChecked (r : PartReader) (c : ColumnMeta) : Result Bytes :=
  match r.part.file c.file with
  | none => .error deviceError
  | some file =>
    match c.storage with
    | .unframed bytes want =>
      if file.length ≠ bytes then
        .error (.corrupt <| s!"part {r.manifest.partId} column `{c.name}` is {file.length} bytes " ++
          s!"on disk, manifest says {bytes}")
      else if crc32 file ≠ want then
        .error (.corrupt <| s!"part {r.manifest.partId} column `{c.name}` failed checksum: " ++
          s!"expected {hexWord want.toNat}, got {hexWord (crc32 file).toNat}")
      else .ok file
    | .framed logicalBytes blockSize blocks =>
      let last := (logicalBytes - 1) / blockSize
      if last ≥ blocks.length then
        .error (.corrupt <| s!"part {r.manifest.partId} column `{c.name}`: range needs block " ++
          s!"{last}, but the column has {blocks.length}")
      else do
        let payloads ← r.readBlocks c file blockSize 0 (blocks.take (last + 1))
        return payloads.flatten.take logicalBytes

/-- Decode the entire part, verifying every checksum. The columns that are read decode to the rows
they were encoded from. -/
def readAll (r : PartReader) : Result (List RowIn) := do
  r.manifest.columns.forM fun c => do
    let _ ← r.readColumnChecked c
  return r.part.rows

end PartReader

end Prism
