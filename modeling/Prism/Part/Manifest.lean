import Prism.Part.Columns

/-!
The manifest file of a part: a checksummed header and a body whose lengths are checked before they
are believed (`PartManifest::encode` and `decode` of `prism-part/src/part.rs`, `Header` and
`split_manifest` of `format.rs`), and the replacement of its envelope.
-/

namespace Prism

/-! ### The header -/

def manifestMagic : Bytes := utf8 "PRSMPART"

def byteOrderLittle : Nat := 0

def supportedBinaryVersions : List Nat := [2, 3, 4]

def supportedFeatures : UInt64 :=
  featureBlockFraming ||| featureAttributes ||| featureTraceContext ||| featurePartitionMeta |||
    featurePromotedColumns ||| featureTenantTokens ||| featureEncryption

/-- The block size of every column of a version 2 part. -/
def versionTwoBlockSize : Nat := 64 * 1024

def reservedWords : Nat := 4

def supportedExtensions : List UInt16 := [extS4Partition, extS5Lineage, extS14Encryption]

def headerBytes : Nat := 8 + 4 + 1 + 3 + 8 + 4 + 4 + 4

structure Header where
  formatVersion : Nat
  byteOrder : Nat
  featureFlags : UInt64
  bodyLen : Nat
  bodyCrc32 : Nat
  deriving DecidableEq, Repr

namespace Header

/-- The words between the magic and the header's own checksum. -/
def words (h : Header) : Bytes :=
  Bytes.le 4 h.formatVersion ++ (Bytes.le 1 h.byteOrder ++ ([0, 0, 0] ++
    (Bytes.le 8 h.featureFlags.toNat ++ (Bytes.le 4 h.bodyLen ++ Bytes.le 4 h.bodyCrc32))))

def encode (h : Header) : Bytes :=
  manifestMagic ++ h.words ++ Bytes.le 4 (crc32 (manifestMagic ++ h.words)).toNat

def parse : Cursor Header := do
  let formatVersion ← Cursor.unsigned 4
  let byteOrder ← Cursor.unsigned 1
  let _ ← Cursor.take 3
  let featureFlags ← Cursor.unsigned 8
  let bodyLen ← Cursor.unsigned 4
  let bodyCrc32 ← Cursor.unsigned 4
  return ⟨formatVersion, byteOrder, UInt64.ofNat featureFlags, bodyLen, bodyCrc32⟩

/-- The magic is checked first, then the header's own checksum, the version and the features. -/
def decode (bytes : Bytes) : Result Header := do
  if bytes.length < headerBytes then
    .error (.corrupt <| s!"part manifest is {bytes.length} bytes, shorter than the " ++
      s!"{headerBytes}-byte header")
  if bytes.take 8 ≠ manifestMagic then
    .error (.corrupt <| "part manifest does not begin with the PRSMPART magic; this is not a " ++
      "part file")
  let stated := Bytes.ofLe ((bytes.drop (headerBytes - 4)).take 4)
  let actual := (crc32 (bytes.take (headerBytes - 4))).toNat
  if stated ≠ actual then
    .error (.corrupt <| s!"part manifest header failed checksum: expected {hexWord stated}, " ++
      s!"computed {hexWord actual}")
  let h ← Cursor.run ((bytes.take (headerBytes - 4)).drop 8) parse
  if !supportedBinaryVersions.contains h.formatVersion then
    .error (.corrupt <| s!"part is format version {h.formatVersion}; this build writes version " ++
      s!"{Prism.formatVersion} and reads {supportedBinaryVersions}")
  if h.byteOrder ≠ byteOrderLittle then
    .error (.corrupt s!"part declares byte order {h.byteOrder}, which this build cannot read")
  let unknown := h.featureFlags &&& ~~~supportedFeatures
  if unknown ≠ 0 then
    .error (.corrupt <| "part requires feature bits 0x" ++
      String.ofList (Nat.toDigits 16 unknown.toNat) ++ " that this build does not implement; " ++
      "refusing to read it rather than misinterpret its bytes")
  if h.featureFlags &&& featureBlockFraming = 0 then
    .error (.corrupt "a binary part must declare block framing")
  return h

end Header

def splitManifest (bytes : Bytes) : Result (Header × Bytes) := do
  let h ← Header.decode bytes
  let stop := headerBytes + h.bodyLen
  if stop > bytes.length then
    .error (.corrupt <| s!"manifest declares a {h.bodyLen}-byte body but only " ++
      s!"{bytes.length - headerBytes} bytes follow the header")
  let body := (bytes.take stop).drop headerBytes
  let actual := (crc32 body).toNat
  if actual ≠ h.bodyCrc32 then
    .error (.corrupt <| s!"part manifest body failed checksum: expected {hexWord h.bodyCrc32}, " ++
      s!"computed {hexWord actual}")
  return (h, body)

/-! ### The body -/

def CentroidRange.encode (r : CentroidRange) : Bytes :=
  Bytes.le 4 r.centroid ++ Bytes.le 8 r.firstRow ++ Bytes.le 8 r.rowCount ++
    Bytes.le 8 r.pqOffset ++ Bytes.le 8 r.pqLen ++ Bytes.le 8 r.rerankOffset ++
    Bytes.le 8 r.rerankLen ++ i64Bytes r.timeMin ++ i64Bytes r.timeMax

def CentroidRange.decode : Cursor CentroidRange :=
  return ⟨← Cursor.unsigned 4, ← Cursor.unsigned 8, ← Cursor.unsigned 8, ← Cursor.unsigned 8,
    ← Cursor.unsigned 8, ← Cursor.unsigned 8, ← Cursor.unsigned 8, ← Cursor.i64, ← Cursor.i64⟩

def BlockRef.encode (b : BlockRef) : Bytes :=
  Bytes.le 8 b.fileOffset ++ Bytes.le 4 b.payloadLen ++ Bytes.le 4 b.crc32.toNat

def BlockRef.decode : Cursor BlockRef :=
  return ⟨← Cursor.unsigned 8, ← Cursor.unsigned 4, UInt32.ofNat (← Cursor.unsigned 4)⟩

def ColumnMeta.encode (c : ColumnMeta) : Result Bytes :=
  match c.storage with
  | .framed logicalBytes blockSize blocks =>
    .ok (stringBytes c.name ++ stringBytes c.file ++ Bytes.le 2 c.codecId ++
      Bytes.le 8 logicalBytes ++ Bytes.le 4 blockSize ++ Bytes.le 4 blocks.length ++
      blocks.flatMap BlockRef.encode)
  | .unframed _ _ => .error (.invariant
      "refusing to write an unframed column: binary parts are always framed")

def ColumnMeta.decode (version : Nat) : Cursor ColumnMeta := do
  let name ← Cursor.string
  let file ← Cursor.string
  let codecId ← Cursor.unsigned 2
  let logicalBytes ← Cursor.unsigned 8
  let blockSize ← if version ≥ 3 then Cursor.unsigned 4 else pure versionTwoBlockSize
  if !isPowerOfTwo blockSize then
    throw (.corrupt <| s!"column `{name}` declares a block size of {blockSize}, which is not a " ++
      "positive power of two")
  let blocks ← Cursor.replicate BlockRef.decode (← Cursor.readLen 16 "blocks")
  return ⟨name, file, codecId, .framed logicalBytes blockSize blocks⟩

def Extension.encode (e : Extension) : Bytes :=
  Bytes.le 2 e.id.toNat ++ Bytes.le 4 e.bytes.length ++ e.bytes

/-- A required extension that this build does not know refuses the part. -/
def Extension.decode : Cursor Extension := do
  let id := UInt16.ofNat (← Cursor.unsigned 2)
  let bytes ← Cursor.take (← Cursor.readLen 1 "extension bytes")
  if id &&& extRequired ≠ 0 ∧ !supportedExtensions.contains id then
    throw (.corrupt <| "part carries required extension 0x" ++ hex (Bytes.be 2 id.toNat) ++
      ", which this build does not implement; refusing rather than reading it as if the " ++
      "extension were not there")
  return ⟨id, bytes⟩

namespace PartManifest

/-- The binary form. The reserved words are zero in every manifest that decodes. -/
def encode (m : PartManifest) : Result Bytes := do
  let columns ← m.columns.mapM ColumnMeta.encode
  let body :=
    stringBytes m.partId ++ stringBytes m.generationId ++ stringBytes m.modelId ++
    stringBytes m.modelVersion ++ Bytes.le 8 m.rowCount ++ Bytes.le 4 m.dim ++ Bytes.le 4 m.pqM ++
    Bytes.le 2 m.rerank.encodingId ++ Bytes.le 2 m.rerank.accuracyContractId ++
    i64Bytes m.timeMin ++ i64Bytes m.timeMax ++ Bytes.le 8 m.costMin.bits.toNat ++
    Bytes.le 8 m.costMax.bits.toNat ++ Bytes.le 1 (m.hasError.toNat + 2 * m.hasSuccess.toNat) ++
    i64Bytes m.createdAtMs ++
    Bytes.le 4 m.tenants.length ++ m.tenants.flatMap stringBytes ++
    Bytes.le 4 m.centroidRanges.length ++ m.centroidRanges.flatMap CentroidRange.encode ++
    Bytes.le 4 columns.length ++ columns.flatten ++
    Bytes.le 4 m.attributeKeys.length ++ m.attributeKeys.flatMap stringBytes ++
    (List.replicate reservedWords (Bytes.le 8 0)).flatten ++
    Bytes.le 4 m.extensions.length ++ m.extensions.flatMap Extension.encode
  let header : Header :=
    ⟨Prism.formatVersion, byteOrderLittle, m.featureFlags, body.length, (crc32 body).toNat⟩
  return header.encode ++ body

/-- What version 3 added to the body: attribute keys, reserved words and extensions. -/
def decodeTail : Cursor (List String × List Extension) := do
  let n ← Cursor.readLen 4 "attribute keys"
  if n > maxAttributeKeyCardinality then
    throw (.corrupt <| s!"part declares {n} attribute keys, over the " ++
      s!"{maxAttributeKeyCardinality} cardinality bound; an unbounded key dictionary in every " ++
      "manifest is how a columnar format dies")
  let attributeKeys ← Cursor.replicate Cursor.string n
  let reserved ← Cursor.replicate (Cursor.unsigned 8) reservedWords
  if reserved.any (· ≠ 0) then
    throw (.corrupt "part sets a reserved manifest word this build does not understand")
  let extensions ← Cursor.replicate Extension.decode (← Cursor.readLen 6 "extensions")
  return (attributeKeys, extensions)

def decodeBody (header : Header) : Cursor PartManifest := do
  let partId ← Cursor.string
  let generationId ← Cursor.string
  let modelId ← Cursor.string
  let modelVersion ← Cursor.string
  let rowCount ← Cursor.unsigned 8
  let dim ← Cursor.unsigned 4
  let pqM ← Cursor.unsigned 4
  let encodingId ← Cursor.unsigned 2
  let accuracyContractId ← Cursor.unsigned 2
  let timeMin ← Cursor.i64
  let timeMax ← Cursor.i64
  let costMin ← Cursor.f64
  let costMax ← Cursor.f64
  let flags ← Cursor.unsigned 1
  let createdAtMs ← Cursor.i64
  let tenants ← Cursor.replicate Cursor.string (← Cursor.readLen 4 "tenants")
  let centroidRanges ←
    Cursor.replicate CentroidRange.decode (← Cursor.readLen 68 "centroid ranges")
  let columns ← Cursor.replicate (ColumnMeta.decode header.formatVersion)
    (← Cursor.readLen (4 + 4 + 2 + 8 + 4) "columns")
  -- A version 2 part simply does not carry them.
  let (attributeKeys, extensions) ← if header.formatVersion ≥ 3 then decodeTail else pure ([], [])
  return {
    formatVersion := header.formatVersion
    partId, generationId, modelId, modelVersion, rowCount, dim, pqM
    rerank := ⟨encodingId, accuracyContractId⟩
    timeMin, timeMax, tenants, costMin, costMax
    hasError := flags % 2 = 1
    hasSuccess := flags / 2 % 2 = 1
    centroidRanges, columns, createdAtMs
    featureFlags := header.featureFlags
    attributeKeys, extensions }

/-- Decode a binary manifest; the header is validated before a byte of the body is believed. -/
def decode (bytes : Bytes) : Result PartManifest := do
  let (header, body) ← splitManifest bytes
  Cursor.run body (decodeBody header)

def withEnvelope (m : PartManifest) (envelope : S14Ext) : Option PartManifest :=
  let (before, rest) := m.extensions.span (·.id ≠ extS14Encryption)
  match rest with
  | [] => none
  | slot :: after =>
    some { m with extensions := before ++ { slot with bytes := envelope.encode } :: after }

/-- The bytes of the manifest with its envelope replaced, once they read back. -/
def rewrapped (m : PartManifest) (envelope : S14Ext) : Result Bytes := do
  if !m.encrypted then
    .error (.invalid <| s!"refusing to rewrap part `{m.partId}`: it is not encrypted, and a " ++
      "rewrap does not turn encryption on")
  let some changed := m.withEnvelope envelope
    | .error (.corrupt <| s!"part `{m.partId}` sets the encryption feature but carries no " ++
        "envelope to rewrap")
  let bytes ← changed.encode
  (← decode bytes).validateStructure
  return bytes

end PartManifest

end Prism
