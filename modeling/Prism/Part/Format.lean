import Prism.Part.Partition

/-!
Block framing, the block cipher and the manifest extensions of a part
(`prism-part/src/format.rs`, `crypto.rs` and `ext.rs`).
-/

namespace Prism

def formatVersion : Nat := 4
def blockMagic : Nat := 0x4B4C4250
def sealedBlockMagic : Nat := 0x4B4C5350
def frameHeaderBytes : Nat := 4 + 4 + 8 + 4 + 4

def featureBlockFraming : UInt64 := (1 : UInt64) <<< 0
def featureAttributes : UInt64 := (1 : UInt64) <<< 1
def featureTraceContext : UInt64 := (1 : UInt64) <<< 2
def featurePromotedColumns : UInt64 := (1 : UInt64) <<< 3
def featurePartitionMeta : UInt64 := (1 : UInt64) <<< 4
def featureEncryption : UInt64 := (1 : UInt64) <<< 6
def featureTenantTokens : UInt64 := (1 : UInt64) <<< 7

def extRequired : UInt16 := 0x8000
def extS4Partition : UInt16 := 0x8001 ||| extRequired
def extS5Lineage : UInt16 := 0x8002 ||| extRequired
def extS14Encryption : UInt16 := 0x8003 ||| extRequired

def codecRaw : Nat := 1

def stringBytes (s : String) : Bytes := Bytes.le 4 s.utf8ByteSize ++ utf8 s

/-! ### The block cipher -/

/-- The AEAD primitive of the `chacha20poly1305` crate. -/
structure Aead where
  encrypt (key nonce aad message : Bytes) : Option Bytes
  decrypt (key nonce aad message : Bytes) : Option Bytes

def nonceBytes : Nat := 24
def tagBytes : Nat := 16
def sealOverhead : Nat := nonceBytes + tagBytes
def aeadXchacha20Poly1305 : Nat := 1

/-- A data key with its id. `nonces` are the draws of the operating system's generator. -/
structure BlockCipher where
  aead : Aead
  key : Bytes
  keyId : String
  nonces : String → String → Nat → Bytes

/-- The associated data: the part, the column, the key and the block position. -/
def aad (partId column : String) (blockIndex : Nat) (keyId : String) : Bytes :=
  [partId, column, keyId].flatMap (fun field => Bytes.le 8 field.utf8ByteSize ++ utf8 field) ++
    Bytes.le 8 blockIndex

namespace BlockCipher

def sealBlock (c : BlockCipher) (partId column : String) (blockIndex : Nat) (plaintext : Bytes) :
    Result Bytes :=
  let nonce := c.nonces partId column blockIndex
  match c.aead.encrypt c.key nonce (aad partId column blockIndex c.keyId) plaintext with
  | none => .error (.invariant <|
      s!"sealing {column} block {blockIndex} of part `{partId}` failed under key `{c.keyId}`")
  | some sealed => .ok (nonce ++ sealed)

def openBlock (c : BlockCipher) (partId column : String) (blockIndex : Nat) (sealed : Bytes) :
    Result Bytes :=
  if sealed.length < sealOverhead then
    .error (.corrupt <| s!"{column} block {blockIndex} of part `{partId}` is truncated: a " ++
      s!"sealed block needs at least {sealOverhead} bytes of nonce and tag, got {sealed.length}")
  else
    match c.aead.decrypt c.key (sealed.take nonceBytes) (aad partId column blockIndex c.keyId)
        (sealed.drop nonceBytes) with
    | some plain => .ok plain
    | none => .error (.corrupt <| s!"{column} block {blockIndex} of part `{partId}` failed " ++
        s!"authenticated decryption under key `{c.keyId}`: the bytes were modified, or they " ++
        "were sealed for a different part, column, block position, or key")

end BlockCipher

def wrapDomain : String := "\x00prism-key-wrap"
def wrapColumn : String := "\x00dek"

/-- Wrap a data key under the key of `c`, whose id is bound as associated data. -/
def wrapDek (c : BlockCipher) (dek : Bytes) : Result Bytes := c.sealBlock wrapDomain wrapColumn 0 dek

def unwrapDek (c : BlockCipher) (wrapped : Bytes) : Result Bytes := do
  let plain ← c.openBlock wrapDomain wrapColumn 0 wrapped
  if plain.length ≠ 32 then
    .error (.corrupt s!"unwrapped key material is {plain.length} bytes, expected 32")
  else return plain

/-! ### Framing -/

structure BlockRef where
  fileOffset : Nat
  payloadLen : Nat
  crc32 : UInt32
  deriving DecidableEq, Repr

structure FramedColumn where
  file : Bytes
  blocks : List BlockRef
  deriving DecidableEq, Repr

def chunksOf (size : Nat) : Nat → Bytes → List Bytes
  | 0, _ => []
  | _ + 1, [] => []
  | fuel + 1, bytes => bytes.take size :: chunksOf size fuel (bytes.drop size)

variable (logical : Bytes) (blockSize : Nat)

/-- The payloads of a column: a zero-length column is one zero-length block. -/
def blockPayloads : List Bytes :=
  if logical.isEmpty then [[]] else chunksOf blockSize logical.length logical

/-- The block references a column would have unsealed. -/
def plainBlockRefs : List BlockRef :=
  let rec refs : Nat → List Bytes → List BlockRef
    | _, [] => []
    | offset, payload :: rest =>
      ⟨offset, payload.length % 2 ^ 32, crc32 payload⟩ ::
        refs (offset + frameHeaderBytes + payload.length) rest
  refs 0 (blockPayloads logical blockSize)

def blockHeader (sealed : Bool) (index blockSize : Nat) (stored : Bytes) : Bytes :=
  Bytes.le 4 (if sealed then sealedBlockMagic else blockMagic) ++ Bytes.le 4 index ++
    Bytes.le 8 (index * blockSize) ++ Bytes.le 4 stored.length ++ Bytes.le 4 (crc32 stored).toNat

def frameBlocks (blockSize : Nat) (cipher : Option BlockCipher) (partId column : String) :
    Nat → List Bytes → FramedColumn → Result FramedColumn
  | _, [], framed => .ok framed
  | index, plain :: rest, framed => do
    let stored ← match cipher with
      | some c => c.sealBlock partId column index plain
      | none => .ok plain
    frameBlocks blockSize cipher partId column (index + 1) rest
      { file := framed.file ++ blockHeader cipher.isSome index blockSize stored ++ stored
        blocks := framed.blocks ++ [⟨framed.file.length, stored.length % 2 ^ 32, crc32 stored⟩] }

/-- Frame one logical byte stream into checksummed blocks, sealing each when a cipher is given. -/
def frameColumnSealed (cipher : Option BlockCipher) (partId column : String) :
    Result FramedColumn :=
  frameBlocks blockSize cipher partId column 0 (blockPayloads logical blockSize) ⟨[], []⟩

def magicAt (file : Bytes) (block : BlockRef) : Nat :=
  Bytes.ofLe ((file.drop block.fileOffset).take 4)

/-! ### Extensions -/

structure Extension where
  id : UInt16
  bytes : Bytes
  deriving DecidableEq, Repr

/-- The wrapped-DEK envelope stored in a part manifest. -/
structure S14Ext where
  algorithm : Nat
  wrappingKeyId : String
  dekEpoch : Nat
  wrappedDek : Bytes
  bucketOrdinal : Nat
  deriving DecidableEq, Repr

def S14Ext.encode (e : S14Ext) : Bytes :=
  Bytes.le 2 e.algorithm ++ stringBytes e.wrappingKeyId ++ Bytes.le 8 e.dekEpoch ++
    Bytes.le 4 e.wrappedDek.length ++ e.wrappedDek ++ Bytes.le 8 e.bucketOrdinal

structure S5Ext where
  reembeddedFrom : Option String := none
  bodiesRedacted : Bool := false
  redactedAtMs : Int := 0
  redactionReason : String := ""
  deriving DecidableEq, Repr

def S5Ext.isDefault (e : S5Ext) : Bool := e = {}

def S5Ext.encode (e : S5Ext) : Bytes :=
  (match e.reembeddedFrom with
    | none => [0]
    | some g => 1 :: stringBytes g) ++
    [if e.bodiesRedacted then 1 else 0] ++ i64Bytes e.redactedAtMs ++
    stringBytes e.redactionReason

structure TenantStats where
  tenant : String
  rows : Nat
  timeMin : Int
  timeMax : Int
  costMin : F64
  costMax : F64
  hasError : Bool
  hasSuccess : Bool
  attributeKeys : List String
  deriving DecidableEq, Repr

/-- An attribute key written as a typed column of its own. -/
structure PromotedColumn where
  key : String
  column : String
  typeTag : UInt8
  deriving DecidableEq, Repr

def PromotedColumn.columnFor (key : String) : String := s!"attr.{key}"

structure S4Ext where
  partition : Option PartitionKey
  tenantStats : List TenantStats
  promoted : List PromotedColumn
  deriving DecidableEq, Repr

def TenantStats.encode (t : TenantStats) : Bytes :=
  stringBytes t.tenant ++ Bytes.le 8 t.rows ++ i64Bytes t.timeMin ++ i64Bytes t.timeMax ++
    Bytes.le 8 t.costMin.bits.toNat ++ Bytes.le 8 t.costMax.bits.toNat ++
    [(if t.hasError then (1 : UInt8) else 0) ||| (if t.hasSuccess then 2 else 0)] ++
    Bytes.le 4 t.attributeKeys.length ++ t.attributeKeys.flatMap stringBytes

def S4Ext.encode (e : S4Ext) : Bytes :=
  (match e.partition with
    | none => [0]
    | some p =>
      1 :: (match p.bucket with
        | .shared i => 0 :: Bytes.le 4 i
        | .dedicated i => 1 :: Bytes.le 4 i) ++ i64Bytes p.window ++ stringBytes p.generation) ++
    Bytes.le 4 e.tenantStats.length ++ e.tenantStats.flatMap TenantStats.encode ++
    Bytes.le 4 e.promoted.length ++
    e.promoted.flatMap fun p => stringBytes p.key ++ stringBytes p.column ++ [p.typeTag]

end Prism
