import Prism.Lib.CrashLogic
import Prism.Lib.FrameLog
import Prism.Part.Format
import Prism.Types.Json

/-!
The admission log: its record format, the local file with its id allocator, and the replicated
log on the object store (`prism-engine/src/wal.rs`).
-/

namespace Prism

open CrashLogic

structure WalRecord where
  recordId : Nat
  events : List Event
  source : Option String
  sourceOffset : Option Nat
  createdAtMs : Int
  deriving DecidableEq

def WalRecord.toJson (r : WalRecord) : Json :=
  .obj [("record_id", .int r.recordId), ("events", .arr (r.events.map Event.toJson)),
    ("source", Json.ofOption .str r.source),
    ("source_offset", Json.ofOption (fun n => .int n) r.sourceOffset),
    ("created_at_ms", .int r.createdAtMs)]

/-! ### Record encoding -/

structure WalEnvelope where
  algorithm : Nat
  wrappingKeyId : String
  dekEpoch : Nat
  wrappedDek : Bytes
  deriving DecidableEq, Repr

structure SealedWalRecord where
  sealedWal : Nat
  recordId : Nat
  envelope : WalEnvelope
  ciphertext : Bytes
  deriving DecidableEq, Repr

def SealedWalRecord.toJson (r : SealedWalRecord) : Json :=
  .obj [("sealed_wal", .int r.sealedWal), ("record_id", .int r.recordId),
    ("algorithm", .int r.envelope.algorithm), ("wrapping_key_id", .str r.envelope.wrappingKeyId),
    ("dek_epoch", .int r.envelope.dekEpoch),
    ("wrapped_dek", .arr (r.envelope.wrappedDek.map fun b => .int b.toNat)),
    ("ciphertext", .arr (r.ciphertext.map fun b => .int b.toNat))]

/-- The key service of a deployment, with the primitive its data keys are used in. -/
structure KeyProvider where
  aead : Aead
  wrap : Bytes → Result (String × Bytes)
  unwrap : String → Bytes → Result Bytes

structure WalCrypto where
  keys : KeyProvider
  sealing : BlockCipher
  envelope : WalEnvelope

/-- The parsers that `serde_json::from_slice` derives for the two record shapes. -/
structure SerdeJson where
  sealedRecord : Bytes → Except String SealedWalRecord
  record : Bytes → Except String WalRecord

def walDomain : String := "\x00prism-admission-wal"

def walColumn (recordId : Nat) : String := s!"\x00wal-record-{recordId}"

def sealedWalVersion : Nat := 1

def encodeRecord (r : WalRecord) : Option WalCrypto → Result Bytes
  | none => .ok r.toJson.bytes
  | some crypto => do
    let ciphertext ← crypto.sealing.sealBlock walDomain (walColumn r.recordId) 0 r.toJson.bytes
    return (SealedWalRecord.mk sealedWalVersion r.recordId crypto.envelope ciphertext).toJson.bytes

def WalCrypto.openCipher (c : WalCrypto) (e : WalEnvelope) : Result BlockCipher :=
  if e.algorithm ≠ aeadXchacha20Poly1305 then
    .error (.corrupt <| s!"admission log record was sealed with AEAD id {e.algorithm}, which " ++
      "this build does not implement")
  else do
    let dek ← c.keys.unwrap e.wrappingKeyId e.wrappedDek
    return ⟨c.keys.aead, dek, e.wrappingKeyId, c.sealing.nonces⟩

/-- A sealed record is opened only under the key it names; any other text is a plain record. -/
def decodeRecord (serde : SerdeJson) (bytes : Bytes) (crypto : Option WalCrypto) :
    Result WalRecord :=
  match serde.sealedRecord bytes with
  | .error _ => (serde.record bytes).mapError .decode
  | .ok s =>
    if s.sealedWal ≠ sealedWalVersion then
      .error (.corrupt <| s!"admission log record {s.recordId} declares sealed-envelope version " ++
        s!"{s.sealedWal}, which this build does not implement")
    else
      match crypto with
      | none => .error (.policy <| s!"admission log record {s.recordId} is sealed under key " ++
          s!"`{s.envelope.wrappingKeyId}` but this store has no key service configured; an " ++
          "acknowledged record cannot be read, and must not be skipped")
      | some crypto => do
        let cipher ← crypto.openCipher s.envelope
        let plain ← cipher.openBlock walDomain (walColumn s.recordId) 0 s.ciphertext
        let r ← (serde.record plain).mapError fun e =>
          .corrupt s!"admission log record {s.recordId} decrypted but will not parse: {e}"
        if r.recordId ≠ s.recordId then
          .error (.corrupt <| s!"admission log record sealed as {s.recordId} decrypted to " ++
            s!"record {r.recordId}")
        else return r

structure WalCodec where
  serde : SerdeJson
  crypto : Option WalCrypto

def WalCodec.encode (c : WalCodec) (r : WalRecord) : Result Bytes :=
  encodeRecord r c.crypto

def WalCodec.decode (c : WalCodec) (bytes : Bytes) : Result WalRecord :=
  decodeRecord c.serde bytes c.crypto

/-! ### The local log -/

/-- `admission.wal` and `applied.json`. The last two fields are history: every record whose frame is
complete on disk, in append order, and those of them that no compaction removed. -/
structure WalState where
  file : Bytes
  applied : Option Nat
  durable : List WalRecord
  kept : List WalRecord
  deriving DecidableEq

def WalState.fresh : WalState := ⟨[], none, [], []⟩

def WalState.nextId (w : WalState) : Nat := w.applied.getD 0

abbrev WalProg := Prog WalState PrismError

namespace Wal

/-- The file after `written` bytes of the frame of `r` have reached it. -/
def extend (r : WalRecord) (frame : Bytes) (written : Nat) (w : WalState) : WalState :=
  { w with
    file := w.file ++ frame.take written
    durable := if written < frame.length then w.durable else w.durable ++ [r]
    kept := if written < frame.length then w.kept else w.kept ++ [r] }

def allocator : WalProg Nat := Prog.read deviceError fun w => .ok w.nextId

variable (codec : WalCodec)

/-- Append one frame, make it durable, then move the allocator past it. -/
def appendRecord (r : WalRecord) : WalProg Unit := do
  let nextId ← allocator
  if r.recordId < nextId then
    Prog.throw (.invariant
      s!"admission WAL record {r.recordId} is older than allocator next_id {nextId}")
  else
    let json ← Prog.ofExcept (codec.encode r)
    let frame := FrameLog.frame crc32 json
    Prog.act deviceError (extend r frame) (extend r frame frame.length)
    if r.recordId + 1 < 2 ^ 64 then
      Prog.replace deviceError fun w => { w with applied := some (r.recordId + 1) }
    else Prog.throw (.invariant "admission WAL record id space is exhausted")

def append (events : List Event) (source : Option String)
    (sourceOffset : Option Nat) (nowMs : Int) : WalProg Nat := do
  let recordId ← allocator
  appendRecord codec ⟨recordId, events, source, sourceOffset, nowMs⟩
  return recordId

/-- A frame whose checksum is right but whose body will not decode is an error, not an end. -/
def decodeFrame (frame : Nat × Bytes) : Result WalRecord :=
  match codec.decode frame.2 with
  | .ok r => .ok r
  | .error (.policy m) => .error (.policy m)
  | .error (.corrupt m) => .error (.corrupt m)
  | .error e => .error (.corrupt
      s!"admission log record at byte {frame.1} will not parse: {e.display}")

def readAllIn (file : Bytes) : Result (List WalRecord) :=
  (FrameLog.scan crc32 file.length 0 file).1.mapM (decodeFrame codec)

def readAll : WalProg (List WalRecord) :=
  Prog.read deviceError fun w => readAllIn codec w.file

def encodeLog (records : List WalRecord) : Result Bytes := do
  let bodies ← records.mapM codec.encode
  return FrameLog.frames crc32 bodies

/-- Drop the records at or below the floor. The file is rewritten only if there are any. -/
def compactThrough : Option Nat → WalProg Nat
  | none => pure 0
  | some floor => do
    let all ← readAll codec
    let keep := all.filter (floor < ·.recordId)
    if keep.length = all.length then return 0
    else
      let file ← Prog.ofExcept (encodeLog codec keep)
      Prog.replace deviceError fun w =>
        { w with file := file, kept := w.kept.filter (floor < ·.recordId) }
      return all.length - keep.length

end Wal

/-! ### The replicated log -/

abbrev RemoteLog := BTreeMap Nat Bytes

namespace RemoteWal

def sequenceMask : Nat := 2 ^ 32 - 1

variable (codec : WalCodec)

def decodeObject (object : Nat × Bytes) : Result WalRecord := do
  let r ← codec.decode object.2
  if r.recordId ≠ object.1 then
    .error (.corrupt <| s!"replicated admission WAL key id {object.1} does not match body id " ++
      s!"{r.recordId}")
  else return r

def readAllIn (log : RemoteLog) : Result (List WalRecord) :=
  log.toList.mapM (decodeObject codec)

/-- The next sequence number of `epoch` after the records seen so far. -/
def nextSequence (epoch : Nat) : List WalRecord → Nat → Result Nat
  | [], next => .ok next
  | r :: rest, next =>
    if r.recordId / 2 ^ 32 = epoch then
      nextSequence epoch rest (max next (r.recordId % 2 ^ 32 + 1))
    else if r.recordId ≥ epoch * 2 ^ 32 then
      .error (.invariant <| s!"replicated WAL found record {r.recordId} at or above current " ++
        s!"ownership epoch {epoch}")
    else nextSequence epoch rest next

def nextRecordIdIn (log : RemoteLog) (epoch : Nat) (localRecords : List WalRecord) :
    Result Nat := do
  if epoch = 0 ∨ epoch > sequenceMask then
    .error (.invariant
      s!"replicated WAL ownership epoch {epoch} is outside 1..={sequenceMask}")
  let remote ← readAllIn codec log
  let next ← nextSequence epoch (remote ++ localRecords) 0
  if next > sequenceMask then
    .error (.invariant
      s!"replicated WAL exhausted the record sequence for ownership epoch {epoch}")
  else return epoch * 2 ^ 32 + next

/-- A create that loses to an object already there leaves it as it is. -/
def putIn (recordId : Nat) (bytes : Bytes) (log : RemoteLog) : RemoteLog :=
  if log.contains recordId then log else log.insert recordId bytes

/-- The object read back must be the one this writer encoded. -/
def confirmIn (recordId : Nat) (bytes : Bytes) (log : RemoteLog) : Result Unit :=
  match log[recordId]? with
  | some found =>
    if found = bytes then .ok ()
    else .error (.invariant
      s!"replicated admission WAL conflict at immutable key `{zeroPadded 20 recordId}.json`")
  | none => .error (.notFound s!"{zeroPadded 20 recordId}.json")

end RemoteWal

end Prism
